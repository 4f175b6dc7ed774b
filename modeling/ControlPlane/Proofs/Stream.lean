import ControlPlane.Proofs.Broadcast

/-!
# Steps of a stream

Five things can end a watch: a commit past its deadline, a commit that finds its queue full, a poll
past its deadline, the shutdown, and its consumer. Whichever comes first ends it, and nothing that
comes later matters to it. What it received until then is yielded in full, and then the stream says
once how it ended.

* `Watch.step`: what one input does to a watch, and what its consumer gets.
* `Watch.ends?`: the input ends the watch if it is live. `Watch.life` are the inputs before the
  first that does, and `Watch.ending?` is what that one ends it for.
* `Watch.step_open`: an input that does not end a watch neither loses nor makes up an event.
* `Watch.step_ends`: an input that ends a watch finds it as if it had been closed just before.
* `Watch.relabel_poll`, `Watch.relabel_receive`: a watch under another number, or with another
  selection that sees the same, does the same.
* `Watch.items_ended`: an ended watch yields what it holds, then how it ended, and then nothing.
-/

namespace ControlPlane

namespace Watch

/-! ## Inputs -/

/-- What happens to a watch. -/
inductive Input where
  | change (now : Nat) (version : Version) (change : Change)
  | poll (now : Nat)
  | stop
  | shutdown

/-- The event by which a watcher sees an input, if it sees it. -/
def Input.event? (x : Selection) (d : Definition) : Input → Option Event
  | change _ version c => x.event? d version c
  | _ => none

/-- The input is a poll. -/
def Input.isPoll : Input → Bool
  | poll _ => true
  | _ => false

/-- The events by which a watcher sees some inputs. -/
def observed (x : Selection) (d : Definition) (inputs : List Input) : List Event :=
  inputs.filterMap (·.event? x d)

/-- How many polls there are. -/
def polls (inputs : List Input) : Nat := inputs.countP (·.isPoll)

/-- The event that an item carries. -/
def Item.event? : Item → Option Event
  | event e => some e
  | _ => none

/-- The item says that the stream has ended. -/
def Item.isTerminal : Item → Bool
  | closed _ => true
  | .over => true
  | _ => false

/-- The item that says for what reason a stream has ended. -/
def Item.terminal : Option EndReason → Item
  | some reason => closed reason
  | none => .over

/-- The events of some items. -/
def yielded (items : List Item) : List Event := items.filterMap (·.event?)

/-- The events that a watch has received and not yielded. -/
def held (w : Watch) : List Event := w.initial ++ w.queue

@[simp] theorem observed_append (x : Selection) (d : Definition) (inputs inputs' : List Input) :
    observed x d (inputs ++ inputs') = observed x d inputs ++ observed x d inputs' :=
  List.filterMap_append

@[simp] theorem yielded_append (items items' : List Item) :
    yielded (items ++ items') = yielded items ++ yielded items' := List.filterMap_append

theorem observed_cons (x : Selection) (d : Definition) (a : Input) (inputs : List Input) :
    observed x d (a :: inputs) = observed x d [a] ++ observed x d inputs :=
  observed_append x d [a] inputs

theorem polls_cons_of_poll {a : Input} (h : a.isPoll = true) (inputs : List Input) :
    polls (a :: inputs) = polls inputs + 1 := List.countP_cons_of_pos h

theorem polls_cons_of_other {a : Input} (h : a.isPoll = false) (inputs : List Input) :
    polls (a :: inputs) = polls inputs := List.countP_cons_of_neg (by simp [h])

section Steps

variable (d : Definition) (capacity : Nat)

/-- What an input gives the consumer of a watch, and the watch after it. -/
def step (w : Watch) : Input → List Item × Watch
  | .change now version change => ([], (w.receive d capacity now version change).1)
  | .poll now => ([(w.poll now).1], (w.poll now).2)
  | .stop => ([], w.close none)
  | .shutdown => ([], w.close (some .shuttingDown))

/-- The watch after some inputs. -/
def after (w : Watch) : List Input → Watch
  | [] => w
  | a :: inputs => (w.step d capacity a).2.after inputs

/-- What some inputs give the consumer of a watch. -/
def items (w : Watch) : List Input → List Item
  | [] => []
  | a :: inputs => (w.step d capacity a).1 ++ (w.step d capacity a).2.items inputs

/-- What an input ends a live watch for, if it ends it: a reason of the server, or none if its
consumer stops it. -/
def ends? (w : Watch) : Input → Option (Option EndReason)
  | .change now version change =>
    if w.deadline ≤ now then some (some .expired)
    else if (w.selection.event? d version change).isSome ∧ ¬ w.queue.length < max capacity 1 then
      some (some .overflowed)
    else none
  | .poll now => if w.initial = [] ∧ w.deadline ≤ now then some (some .expired) else none
  | .stop => some none
  | .shutdown => some (some .shuttingDown)

/-- The inputs before the first that ends the watch. -/
def life (w : Watch) : List Input → List Input
  | [] => []
  | a :: inputs =>
    match w.ends? d capacity a with
    | some _ => []
    | none => a :: (w.step d capacity a).2.life inputs

/-- The inputs from the first that ends the watch. -/
def afterlife (w : Watch) : List Input → List Input
  | [] => []
  | a :: inputs =>
    match w.ends? d capacity a with
    | some _ => a :: inputs
    | none => (w.step d capacity a).2.afterlife inputs

/-- What the first input that ends the watch ends it for. -/
def ending? (w : Watch) : List Input → Option (Option EndReason)
  | [] => none
  | a :: inputs =>
    match w.ends? d capacity a with
    | some reason => some reason
    | none => (w.step d capacity a).2.ending? inputs

/-- What an ended watch yields to some polls: the events it holds, then how it ended, then nothing.
-/
def drain (reason : Option EndReason) : List Event → Nat → List Item
  | _, 0 => []
  | e :: events, n + 1 => .event e :: drain reason events n
  | [], n + 1 => .terminal reason :: List.replicate n .over

end Steps

/-! ## Steps of a live watch -/

/-- The watch is broadcast to, and its consumer has not seen an end. -/
structure Open (w : Watch) : Prop where
  live : w.phase = .live
  unfinished : w.finished = false

variable {d : Definition} {capacity : Nat} {w : Watch}

theorem close_live (h : w.phase = .live) (reason : Option EndReason) :
    w.close reason = { w with phase := .ended reason } := by
  rw [close, h]

theorem close_ended {r : Option EndReason} (h : w.phase = .ended r) (reason : Option EndReason) :
    w.close reason = w := by
  rw [close, h]

/-! ### Taking the next item -/

theorem take_initial {e : Event} {initial : List Event} (hf : w.finished = false)
    (h : w.initial = e :: initial) : w.take = (.event e, { w with initial := initial }) := by
  rw [take, if_neg (by simp [hf]), h]

theorem take_queue {e : Event} {queue : List Event} (hf : w.finished = false)
    (hinitial : w.initial = []) (h : w.queue = e :: queue) :
    w.take = (.event e, { w with queue := queue }) := by
  rw [take, if_neg (by simp [hf]), hinitial, h]

theorem take_pending (hf : w.finished = false) (hinitial : w.initial = []) (hqueue : w.queue = [])
    (h : w.phase = .live) : w.take = (.pending, w) := by
  rw [take, if_neg (by simp [hf]), hinitial, hqueue, h]

theorem take_terminal {reason : Option EndReason} (hf : w.finished = false)
    (hinitial : w.initial = []) (hqueue : w.queue = []) (h : w.phase = .ended reason) :
    w.take = (.terminal reason, { w with finished := true }) := by
  rw [take, if_neg (by simp [hf]), hinitial, hqueue, h]
  cases reason <;> rfl

theorem take_finished (h : w.finished = true) : w.take = (.over, w) := by
  rw [take, if_pos h]

/-- A watch that holds an event yields it, and holds the others then. -/
theorem take_held {e : Event} {events : List Event} (hf : w.finished = false)
    (h : w.held = e :: events) :
    w.take.1 = .event e ∧ w.take.2.held = events ∧ w.take.2.finished = false ∧
      w.take.2.phase = w.phase ∧ w.take.2.selection = w.selection := by
  unfold held at h
  cases hinitial : w.initial with
  | cons e' initial =>
    rw [hinitial, List.cons_append] at h
    obtain ⟨rfl, rfl⟩ := List.cons.inj h
    rw [take_initial hf hinitial]
    exact ⟨rfl, rfl, hf, rfl, rfl⟩
  | nil =>
    rw [hinitial, List.nil_append] at h
    rw [take_queue hf hinitial h]
    exact ⟨rfl, by rw [held, hinitial, List.nil_append], hf, rfl, rfl⟩

theorem initial_eq_nil (h : w.held = []) : w.initial = [] ∧ w.queue = [] :=
  List.append_eq_nil_iff.mp h

/-! ### Steps -/

/-- The poll of a watch that lives on takes the next item. -/
theorem poll_alive {now : Nat} (h : ¬ (w.initial = [] ∧ w.deadline ≤ now)) :
    w.poll now = w.take := by
  rw [poll, expire, if_pos]
  rcases Decidable.not_and_iff_not_or_not.mp h with h | h
  · exact Or.inr (Or.inl h)
  · exact Or.inr (Or.inr (Nat.lt_of_not_le h))

/-- The poll of an ended watch takes the next item. -/
theorem poll_ended {reason : Option EndReason} (h : w.phase = .ended reason) (now : Nat) :
    w.poll now = w.take := by
  rw [poll, expire, close_ended h, ite_self]

theorem receive_open (hw : w.Open) {now : Nat} {version : Version} {change : Change}
    (h : w.ends? d capacity (.change now version change) = none) :
    (w.receive d capacity now version change).1 =
      { w with queue := w.queue ++ (w.selection.event? d version change).toList } := by
  simp only [ends?] at h
  split at h
  · cases h
  · next hdeadline =>
    split at h
    · cases h
    · next hroom =>
      rw [receive_live hw.live, if_neg hdeadline]
      cases hevent : w.selection.event? d version change with
      | none => simp
      | some e =>
        have hlt : w.queue.length < max capacity 1 := by
          refine Decidable.not_not.mp fun hfull => hroom ⟨?_, hfull⟩
          rw [hevent]
          rfl
        dsimp only
        rw [if_pos hlt]
        rfl

/-- **An input that does not end a watch leaves it open, and what it yields and holds then is what
it held before and the event it sees.** -/
theorem step_open (hw : w.Open) {a : Input} (h : w.ends? d capacity a = none) :
    (w.step d capacity a).2.Open ∧ (w.step d capacity a).2.selection = w.selection ∧
      yielded (w.step d capacity a).1 ++ (w.step d capacity a).2.held =
        w.held ++ observed w.selection d [a] ∧
      ∀ x ∈ (w.step d capacity a).1, x.isTerminal = false := by
  cases a with
  | change now version c =>
    simp only [step, receive_open hw h]
    refine ⟨⟨hw.live, hw.unfinished⟩, trivial, ?_, fun x hx => by cases hx⟩
    simp only [yielded, held, observed, List.filterMap_nil, List.nil_append, List.append_assoc,
      List.filterMap_cons, Input.event?]
    cases w.selection.event? d version c <;> rfl
  | poll now =>
    simp only [ends?] at h
    split at h
    · cases h
    · next halive =>
      have hstep : w.step d capacity (.poll now) = ([w.take.1], w.take.2) := by
        simp only [step, poll_alive halive]
      rw [hstep]
      cases hheld : w.held with
      | cons e events =>
        obtain ⟨hitem, hevents, hfinished, hphase, hselection⟩ := take_held hw.unfinished hheld
        refine ⟨⟨hphase.trans hw.live, hfinished⟩, hselection, ?_, ?_⟩
        · rw [hitem, hevents]
          exact (List.append_nil _).symm
        · rw [hitem]
          simp [Item.isTerminal]
      | nil =>
        obtain ⟨hinitial, hqueue⟩ := initial_eq_nil hheld
        rw [take_pending hw.unfinished hinitial hqueue hw.live]
        exact ⟨hw, rfl, by rw [hheld]; rfl, by simp [Item.isTerminal]⟩
  | stop => cases h
  | shutdown => cases h

/-- **An input that ends a watch finds it as if it had been closed just before.** -/
theorem step_ends (hw : w.Open) {a : Input} {reason : Option EndReason}
    (h : w.ends? d capacity a = some reason) :
    w.step d capacity a = (w.close reason).step d capacity a := by
  have hclosed : (w.close reason).phase = .ended reason := by rw [close_live hw.live]
  cases a with
  | change now version c =>
    simp only [ends?] at h
    simp only [step, receive_live hw.live, receive_ended hclosed]
    split at h
    · next hdeadline =>
      obtain rfl := Option.some.inj h
      rw [if_pos hdeadline]
    · next hdeadline =>
      split at h
      · next hfull =>
        obtain rfl := Option.some.inj h
        obtain ⟨e, hevent⟩ := Option.isSome_iff_exists.mp hfull.1
        rw [if_neg hdeadline, hevent]
        dsimp only
        rw [if_neg hfull.2]
      · cases h
  | poll now =>
    simp only [ends?] at h
    split at h
    · next hin =>
      obtain rfl := Option.some.inj h
      have hexpire : w.expire now = w.close (some .expired) := by
        rw [expire, if_neg]
        rintro (hfinished | hinitial | hlt)
        · rw [hw.unfinished] at hfinished
          cases hfinished
        · exact hinitial hin.1
        · exact Nat.not_le.mpr hlt hin.2
      have hexpired : (w.close (some .expired)).expire now = w.close (some .expired) := by
        unfold expire
        split
        · rfl
        · exact close_ended hclosed _
      simp only [step, poll, hexpire, hexpired]
    · cases h
  | stop =>
    obtain rfl := Option.some.inj h
    simp only [step, close_ended hclosed]
  | shutdown =>
    obtain rfl := Option.some.inj h
    simp only [step, close_ended hclosed]

/-! ### Another number and selection -/

/-- The watch under another number and with another selection. -/
def relabel (f : Nat → Nat) (g : Selection → Selection) (w : Watch) : Watch :=
  { w with id := f w.id, selection := g w.selection }

section Relabel

variable (w) (f : Nat → Nat) (g : Selection → Selection)

theorem relabel_close (reason : Option EndReason) :
    (w.relabel f g).close reason = (w.close reason).relabel f g := by
  cases h : w.phase with
  | live => rw [close_live h, close_live (w := w.relabel f g) h]; rfl
  | ended r => rw [close_ended h, close_ended (w := w.relabel f g) h]

theorem relabel_take : (w.relabel f g).take = (w.take.1, w.take.2.relabel f g) := by
  cases hf : w.finished with
  | true => rw [take_finished hf, take_finished (w := w.relabel f g) hf]
  | false =>
    cases hinitial : w.initial with
    | cons e initial =>
      rw [take_initial hf hinitial, take_initial (w := w.relabel f g) hf hinitial]
      rfl
    | nil =>
      cases hqueue : w.queue with
      | cons e queue =>
        rw [take_queue hf hinitial hqueue, take_queue (w := w.relabel f g) hf hinitial hqueue]
        rfl
      | nil =>
        cases hphase : w.phase with
        | live =>
          rw [take_pending hf hinitial hqueue hphase,
            take_pending (w := w.relabel f g) hf hinitial hqueue hphase]
        | ended reason =>
          rw [take_terminal hf hinitial hqueue hphase,
            take_terminal (w := w.relabel f g) hf hinitial hqueue hphase]
          rfl

/-- Polls look at neither. -/
theorem relabel_poll (now : Nat) :
    (w.relabel f g).poll now = ((w.poll now).1, (w.poll now).2.relabel f g) := by
  have hexpire : (w.relabel f g).expire now = (w.expire now).relabel f g := by
    rw [expire, expire, relabel_close, apply_ite (relabel f g)]
    rfl
  rw [poll, poll, hexpire, relabel_take]

/-- A watch receives a change in the same way if the other selection sees it in the same way. -/
theorem relabel_receive {version : Version} {change : Change}
    (hevent : (g w.selection).event? d version change = w.selection.event? d version change)
    (capacity now : Nat) :
    (w.relabel f g).receive d capacity now version change =
      ((w.receive d capacity now version change).1.relabel f g,
        (w.receive d capacity now version change).2) := by
  cases h : w.phase with
  | ended reason => rw [receive_ended h, receive_ended (w := w.relabel f g) h]
  | live =>
    have hdeadline : (w.relabel f g).deadline = w.deadline := rfl
    have hqueue : (w.relabel f g).queue = w.queue := rfl
    have hselection : (w.relabel f g).selection = g w.selection := rfl
    rw [receive_live h, receive_live (w := w.relabel f g) h, relabel_close, relabel_close,
      hdeadline, hselection, hevent, hqueue]
    split
    · rfl
    · cases w.selection.event? d version change with
      | none => rfl
      | some e =>
        dsimp only
        split <;> rfl

end Relabel

/-! ## Steps of an ended watch -/

/-- Only polls do anything to an ended watch. -/
theorem step_ended {reason : Option EndReason} (h : w.phase = .ended reason) {a : Input}
    (ha : a.isPoll = false) : w.step d capacity a = ([], w) := by
  cases a with
  | change now version c => simp only [step, receive_ended h]
  | poll now => cases ha
  | stop => simp only [step, close_ended h]
  | shutdown => simp only [step, close_ended h]

theorem step_finished {reason : Option EndReason} (h : w.phase = .ended reason)
    (hf : w.finished = true) {a : Input} (ha : a.isPoll = true) :
    w.step d capacity a = ([.over], w) := by
  cases a with
  | poll now => simp only [step, poll_ended h, take_finished hf]
  | _ => cases ha

theorem items_finished {reason : Option EndReason} (h : w.phase = .ended reason)
    (hf : w.finished = true) (inputs : List Input) :
    w.items d capacity inputs = List.replicate (polls inputs) .over := by
  induction inputs with
  | nil => rfl
  | cons a inputs ih =>
    cases ha : a.isPoll with
    | false =>
      rw [items, step_ended h ha, polls_cons_of_other ha]
      exact ih
    | true =>
      rw [items, step_finished h hf ha, polls_cons_of_poll ha, List.replicate_succ, ih]
      rfl

/-- **An ended watch yields what it holds, then how it ended, and then nothing.** -/
theorem items_ended {reason : Option EndReason} (h : w.phase = .ended reason)
    (hf : w.finished = false) (inputs : List Input) :
    w.items d capacity inputs = drain reason w.held (polls inputs) := by
  induction inputs generalizing w with
  | nil => cases w.held <;> rfl
  | cons a inputs ih =>
    cases ha : a.isPoll with
    | false =>
      rw [items, step_ended h ha, polls_cons_of_other ha]
      exact ih h hf
    | true =>
      have hstep : w.step d capacity a = ([w.take.1], w.take.2) := by
        cases a with
        | poll now => simp only [step, poll_ended h]
        | _ => cases ha
      rw [items, hstep, polls_cons_of_poll ha]
      cases hheld : w.held with
      | cons e events =>
        obtain ⟨hitem, hevents, hfinished, hphase, -⟩ := take_held hf hheld
        rw [ih (hphase.trans h) hfinished, hitem, hevents]
        rfl
      | nil =>
        obtain ⟨hinitial, hqueue⟩ := initial_eq_nil hheld
        rw [take_terminal hf hinitial hqueue h]
        dsimp only
        rw [items_finished (w := { w with finished := true }) h rfl]
        rfl

end Watch

end ControlPlane
