import ControlPlane.Proofs.Stream

/-!
# What a consumer can rely on

In every order of its inputs, a watch lives until the first that ends it. Until then it yields what
it received, without a gap; from then on it is drained, which tells how it ended once and then
nothing.

* `Watch.items_life`: while a watch lives, it has yielded or holds everything it was to see.
* `Watch.items_afterlife`: from its end on, a watch is drained.
* `Watch.received_of_live`: a watch that is still broadcast to has missed nothing.
* `Watch.Faithful`, `Watch.faithful`: what follows for the items of a run.
-/

namespace ControlPlane

namespace Watch

variable {d : Definition} {capacity : Nat} {w : Watch}

/-! ## What is drained -/

theorem drain_of_le (reason : Option EndReason) :
    ∀ (events : List Event) (n : Nat), n ≤ events.length →
      drain reason events n = (events.take n).map .event
  | _, 0, _ => by simp [drain]
  | [], n + 1, h => absurd h (Nat.not_succ_le_zero n)
  | e :: events, n + 1, h => by
    rw [drain, drain_of_le reason events n (Nat.le_of_succ_le_succ h)]
    rfl

theorem drain_of_lt (reason : Option EndReason) (events : List Event) (n : Nat) :
    drain reason events (events.length + 1 + n) =
      events.map .event ++ .terminal reason :: List.replicate n .over := by
  induction events with
  | nil =>
    rw [List.length_nil, Nat.zero_add, Nat.add_comm]
    rfl
  | cons e events ih =>
    rw [List.length_cons, Nat.add_right_comm (events.length + 1) 1 n, drain, ih]
    rfl

@[simp] theorem yielded_event (events : List Event) : yielded (events.map .event) = events := by
  rw [yielded, List.filterMap_map]
  exact List.filterMap_some

theorem yielded_eq_nil {items : List Item} (h : ∀ x ∈ items, x.isTerminal = true) :
    yielded items = [] := by
  refine List.filterMap_eq_nil_iff.mpr fun x hx => ?_
  have hterminal := h x hx
  cases x with
  | event e => cases hterminal
  | _ => rfl

theorem isTerminal_terminal (reason : Option EndReason) :
    (Item.terminal reason).isTerminal = true := by
  cases reason <;> rfl

/-- The items before a terminal one begin with those that are not terminal. -/
theorem split_of_isTerminal {items items' early late : List Item} {x : Item}
    (h : items ++ items' = early ++ x :: late) (hitems : ∀ y ∈ items, y.isTerminal = false)
    (hx : x.isTerminal = true) : ∃ rest, early = items ++ rest ∧ items' = rest ++ x :: late := by
  rcases List.append_eq_append_iff.mp h with ⟨rest, hearly, hitems'⟩ | ⟨rest, hrest, hlate⟩
  · exact ⟨rest, hearly, hitems'⟩
  · cases rest with
    | nil => exact ⟨[], by simpa using hrest.symm, by simpa using hlate.symm⟩
    | cons y rest =>
      obtain ⟨rfl, -⟩ := List.cons.inj hlate
      rw [hitems x (by simp [hrest])] at hx
      cases hx

/-- A drain is some of the events, or all of them with how the watch ended. -/
theorem drain_cases (reason : Option EndReason) (events : List Event) (n : Nat) :
    (n ≤ events.length ∧ drain reason events n = (events.take n).map .event) ∨
    events.length < n ∧ ∃ k, drain reason events n =
      events.map .event ++ .terminal reason :: List.replicate k .over := by
  rcases Nat.lt_or_ge events.length n with h | h
  · obtain ⟨k, rfl⟩ := Nat.exists_eq_add_of_le h
    exact Or.inr ⟨h, k, drain_of_lt reason events k⟩
  · exact Or.inl ⟨h, drain_of_le reason events n h⟩

theorem yielded_terminal (reason : Option EndReason) (k : Nat) :
    yielded (.terminal reason :: List.replicate k .over) = [] := by
  refine yielded_eq_nil fun x hx => ?_
  rcases List.mem_cons.mp hx with rfl | hx
  · exact isTerminal_terminal reason
  · rw [List.eq_of_mem_replicate hx]
    rfl

theorem yielded_drain (reason : Option EndReason) (events : List Event) (n : Nat) :
    yielded (drain reason events n) <+: events := by
  rcases drain_cases reason events n with ⟨-, h⟩ | ⟨-, k, h⟩
  · rw [h, yielded_event]
    exact List.take_prefix n events
  · have hall : yielded (drain reason events n) = events := by
      rw [h, yielded_append, yielded_event, yielded_terminal, List.append_nil]
    exact ⟨[], by rw [List.append_nil, hall]⟩

theorem event_not_terminal (events : List Event) :
    ∀ y ∈ events.map Item.event, y.isTerminal = false := by
  intro y hy
  obtain ⟨e, -, rfl⟩ := List.mem_map.mp hy
  rfl

theorem drain_split {reason : Option EndReason} {events : List Event} {n : Nat}
    {early late : List Item} {x : Item} (h : drain reason events n = early ++ x :: late)
    (hx : x.isTerminal = true) : yielded early = events ∧ ∀ y ∈ late, y = .over := by
  rcases drain_cases reason events n with ⟨-, hd⟩ | ⟨-, k, hd⟩
  · have hmem : x ∈ (events.take n).map Item.event := by simp [← hd, h]
    rw [event_not_terminal _ x hmem] at hx
    cases hx
  · obtain ⟨rest, rfl, hrest⟩ :=
      split_of_isTerminal (hd.symm.trans h) (event_not_terminal events) hx
    cases rest with
    | nil =>
      obtain ⟨-, rfl⟩ := List.cons.inj hrest
      exact ⟨by simp, fun y hy => List.eq_of_mem_replicate hy⟩
    | cons y rest =>
      obtain ⟨rfl, hover⟩ := List.cons.inj hrest
      replace hover : List.replicate k Item.over = rest ++ x :: late := hover
      have hall : ∀ z ∈ rest ++ x :: late, z = .over := fun z hz =>
        List.eq_of_mem_replicate (hover ▸ hz)
      have hnothing : yielded (.terminal reason :: rest) = [] := by
        refine yielded_eq_nil fun z hz => ?_
        rcases List.mem_cons.mp hz with rfl | hz
        · exact isTerminal_terminal reason
        · rw [hall z (by simp [hz])]
          rfl
      refine ⟨?_, fun z hz => hall z (by simp [hz])⟩
      rw [yielded_append, yielded_event, hnothing, List.append_nil]

theorem reason_of_closed_mem_drain {reason : Option EndReason} {events : List Event} {n : Nat}
    {r : EndReason} (h : .closed r ∈ drain reason events n) : reason = some r := by
  rcases drain_cases reason events n with ⟨-, hd⟩ | ⟨-, k, hd⟩
  · rw [hd] at h
    cases event_not_terminal _ _ h
  · rw [hd] at h
    rcases List.mem_append.mp h with h | h
    · cases event_not_terminal _ _ h
    · rcases List.mem_cons.mp h with h | h
      · cases reason with
        | none => cases h
        | some r' => rw [Item.closed.inj h]
      · cases List.eq_of_mem_replicate h

theorem terminal_mem_drain (reason : Option EndReason) {events : List Event} {n : Nat}
    (h : events.length < n) : .terminal reason ∈ drain reason events n := by
  rcases drain_cases reason events n with ⟨hle, -⟩ | ⟨-, k, hd⟩
  · exact absurd h (Nat.not_lt.mpr hle)
  · simp [hd]

/-! ## Runs -/

theorem life_append (d : Definition) (capacity : Nat) (w : Watch) (inputs : List Input) :
    w.life d capacity inputs ++ w.afterlife d capacity inputs = inputs := by
  induction inputs generalizing w with
  | nil => rfl
  | cons a inputs ih =>
    rw [life, afterlife]
    cases w.ends? d capacity a with
    | some reason => rfl
    | none => exact congrArg _ (ih _)

theorem after_append (d : Definition) (capacity : Nat) (w : Watch) (inputs inputs' : List Input) :
    w.after d capacity (inputs ++ inputs') =
      (w.after d capacity inputs).after d capacity inputs' := by
  induction inputs generalizing w with
  | nil => rfl
  | cons a inputs ih => exact ih _

theorem items_append (d : Definition) (capacity : Nat) (w : Watch) (inputs inputs' : List Input) :
    w.items d capacity (inputs ++ inputs') =
      w.items d capacity inputs ++ (w.after d capacity inputs).items d capacity inputs' := by
  induction inputs generalizing w with
  | nil => rfl
  | cons a inputs ih => rw [List.cons_append, items, items, after, ih, List.append_assoc]

/-- **While a watch lives, it has yielded or holds everything it was to see, and tells no end.** -/
theorem items_life (d : Definition) (capacity : Nat) (hw : w.Open) (inputs : List Input) :
    (w.after d capacity (w.life d capacity inputs)).Open ∧
      yielded (w.items d capacity (w.life d capacity inputs)) ++
          (w.after d capacity (w.life d capacity inputs)).held =
        w.held ++ observed w.selection d (w.life d capacity inputs) ∧
      ∀ x ∈ w.items d capacity (w.life d capacity inputs), x.isTerminal = false := by
  induction inputs generalizing w with
  | nil => exact ⟨hw, by simp [life, items, after, yielded, observed], fun x hx => by cases hx⟩
  | cons a inputs ih =>
    rw [life]
    cases ha : w.ends? d capacity a with
    | some reason => exact ⟨hw, by simp [items, after, yielded, observed], fun x hx => by cases hx⟩
    | none =>
      obtain ⟨hopen, hselection, hstep, hitems⟩ := step_open hw ha
      obtain ⟨hopen', hrun, hitems'⟩ := ih hopen
      refine ⟨hopen', ?_, ?_⟩
      · rw [items, after, yielded_append, List.append_assoc, hrun, ← List.append_assoc, hstep,
          hselection, List.append_assoc, ← observed_cons]
      · intro x hx
        rcases List.mem_append.mp hx with hx | hx
        · exact hitems x hx
        · exact hitems' x hx

/-- From its end on, a watch is drained. -/
theorem items_afterlife (hw : w.Open) {inputs : List Input} {reason : Option EndReason}
    (h : w.ending? d capacity inputs = some reason) :
    (w.after d capacity (w.life d capacity inputs)).items d capacity
        (w.afterlife d capacity inputs) =
      drain reason (w.after d capacity (w.life d capacity inputs)).held
        (polls (w.afterlife d capacity inputs)) := by
  induction inputs generalizing w with
  | nil => cases h
  | cons a inputs ih =>
    rw [ending?] at h
    rw [life, afterlife]
    cases ha : w.ends? d capacity a with
    | some reason' =>
      rw [ha] at h
      obtain rfl := Option.some.inj h
      have hclosed : w.close reason' = { w with phase := .ended reason' } := close_live hw.live _
      dsimp only [after]
      rw [items, step_ends hw ha, ← items, hclosed]
      exact items_ended (w := { w with phase := .ended reason' }) rfl hw.unfinished _
    | none =>
      rw [ha] at h
      exact ih (step_open hw ha).1 h

theorem afterlife_eq_nil {inputs : List Input} (h : w.ending? d capacity inputs = none) :
    w.afterlife d capacity inputs = [] := by
  induction inputs generalizing w with
  | nil => rfl
  | cons a inputs ih =>
    rw [ending?] at h
    rw [afterlife]
    cases ha : w.ends? d capacity a with
    | some reason =>
      rw [ha] at h
      cases h
    | none =>
      rw [ha] at h
      exact ih h

/-! ### Phases -/

theorem phase_after (d : Definition) (capacity : Nat) {reason : Option EndReason}
    (h : w.phase = .ended reason) (inputs : List Input) :
    (w.after d capacity inputs).phase = .ended reason := by
  induction inputs generalizing w with
  | nil => exact h
  | cons a inputs ih =>
    refine ih ?_
    cases a with
    | poll now =>
      simp only [step, poll_ended h]
      unfold take
      split
      · exact h
      · split <;> exact h
    | _ => rw [step_ended h rfl]; exact h

/-- A watch that is broadcast to after some inputs was not ended by any of them. -/
theorem ending?_of_live (hw : w.Open) {inputs : List Input}
    (h : (w.after d capacity inputs).phase = .live) : w.ending? d capacity inputs = none := by
  induction inputs generalizing w with
  | nil => rfl
  | cons a inputs ih =>
    rw [ending?]
    cases ha : w.ends? d capacity a with
    | none => exact ih (step_open hw ha).1 h
    | some reason =>
      have hclosed : (w.close reason).phase = .ended reason := by rw [close_live hw.live]
      have hended := phase_after d capacity hclosed (a :: inputs)
      rw [after, ← step_ends hw ha, ← after, h] at hended
      cases hended

/-- **While a watch is broadcast to, its consumer has got or can get all it was to see.** -/
theorem received_of_live (hw : w.Open) {inputs : List Input}
    (h : (w.after d capacity inputs).phase = .live) :
    yielded (w.items d capacity inputs) ++ (w.after d capacity inputs).held =
      w.held ++ observed w.selection d inputs := by
  have hlife := life_append d capacity w inputs
  rw [afterlife_eq_nil (ending?_of_live hw h), List.append_nil] at hlife
  have hitems := (items_life d capacity hw inputs).2.1
  rwa [hlife] at hitems

/-! ## What a consumer can rely on -/

/-- What a consumer can rely on, whatever happens to its watch. -/
structure Faithful (d : Definition) (capacity : Nat) (w : Watch) (inputs : List Input) : Prop where
  /-- No event is skipped: those yielded are a beginning of all that are to be seen. -/
  gapless : yielded (w.items d capacity inputs) <+: w.held ++ observed w.selection d inputs
  /-- Before the stream tells its end, everything received until then is yielded; after it, there is
  nothing for ever. -/
  drained : ∀ early x late, w.items d capacity inputs = early ++ x :: late → x.isTerminal = true →
    yielded early = w.held ++ observed w.selection d (w.life d capacity inputs) ∧
      ∀ y ∈ late, y = .over
  /-- The reason told is the one for which the server ended the watch, before anyone else did. -/
  closed : ∀ reason, .closed reason ∈ w.items d capacity inputs →
    w.ending? d capacity inputs = some (some reason)
  /-- A watch that its consumer stopped first tells no reason. -/
  stopped : w.ending? d capacity inputs = some none →
    ∀ reason, .closed reason ∉ w.items d capacity inputs
  /-- A stream is over only once its watch has ended. -/
  ended : .over ∈ w.items d capacity inputs → w.ending? d capacity inputs ≠ none
  /-- How a watch ended is told as soon as what it held then is taken. -/
  told : ∀ reason, w.ending? d capacity inputs = some reason →
    (w.after d capacity (w.life d capacity inputs)).held.length <
      polls (w.afterlife d capacity inputs) → .terminal reason ∈ w.items d capacity inputs

/-- The items of a run, in full. -/
theorem items_eq (d : Definition) (capacity : Nat) (hw : w.Open) (inputs : List Input) :
    w.items d capacity inputs = w.items d capacity (w.life d capacity inputs) ++
      match w.ending? d capacity inputs with
      | none => []
      | some reason => drain reason (w.after d capacity (w.life d capacity inputs)).held
          (polls (w.afterlife d capacity inputs)) := by
  have hsplit := items_append d capacity w (w.life d capacity inputs)
    (w.afterlife d capacity inputs)
  rw [life_append] at hsplit
  rw [hsplit]
  cases h : w.ending? d capacity inputs with
  | none => rw [afterlife_eq_nil h]; rfl
  | some reason => rw [items_afterlife hw h]

theorem faithful_unended (hw : w.Open) {inputs : List Input}
    (h : w.ending? d capacity inputs = none) : w.Faithful d capacity inputs := by
  have hitems := items_eq d capacity hw inputs
  have hinputs := life_append d capacity w inputs
  obtain ⟨-, hlife, hnone⟩ := items_life d capacity hw inputs
  rw [h, List.append_nil] at hitems
  rw [afterlife_eq_nil h, List.append_nil] at hinputs
  rw [← hitems] at hlife hnone
  have hmem {x : Item} (hx : x.isTerminal = true) : x ∉ w.items d capacity inputs := by
    intro hin
    rw [hnone x hin] at hx
    cases hx
  refine ⟨?_, ?_, ?_, ?_, ?_, ?_⟩
  · rw [hinputs] at hlife
    exact ⟨_, hlife⟩
  · intro early x late hsplit hx
    exact absurd (by simp [hsplit]) (hmem hx)
  · intro reason hclosed
    exact absurd hclosed (hmem rfl)
  · intro hstopped
    rw [h] at hstopped
    cases hstopped
  · intro hover
    exact absurd hover (hmem rfl)
  · intro reason hended
    rw [h] at hended
    cases hended

theorem faithful_ended (hw : w.Open) {inputs : List Input} {reason : Option EndReason}
    (h : w.ending? d capacity inputs = some reason) : w.Faithful d capacity inputs := by
  have hitems := items_eq d capacity hw inputs
  have hinputs := life_append d capacity w inputs
  obtain ⟨-, hlife, hnone⟩ := items_life d capacity hw inputs
  rw [h] at hitems
  dsimp only at hitems
  have hclosed (r : EndReason) (hr : .closed r ∈ w.items d capacity inputs) :
      reason = some r := by
    rw [hitems] at hr
    rcases List.mem_append.mp hr with hr | hr
    · cases hnone _ hr
    · exact reason_of_closed_mem_drain hr
  refine ⟨?_, ?_, ?_, ?_, ?_, ?_⟩
  · -- What is drained is a beginning of what was held, and that came before anything later.
    rw [hitems, yielded_append]
    refine (List.prefix_append_right_inj _ |>.mpr (yielded_drain _ _ _)).trans ?_
    rw [hlife]
    refine List.prefix_append_right_inj _ |>.mpr
      ⟨observed w.selection d (w.afterlife d capacity inputs), ?_⟩
    rw [← observed_append, hinputs]
  · intro early x late hsplit hx
    rw [hitems] at hsplit
    obtain ⟨rest, rfl, hdrain⟩ := split_of_isTerminal hsplit hnone hx
    obtain ⟨hall, hlate⟩ := drain_split hdrain hx
    exact ⟨by rw [yielded_append, hall, hlife], hlate⟩
  · intro r hr
    rw [h, hclosed r hr]
  · intro hstopped r hr
    rw [h, hclosed r hr] at hstopped
    cases hstopped
  · intro _ hended
    rw [h] at hended
    cases hended
  · intro r hr hpolls
    rw [h] at hr
    obtain rfl := Option.some.inj hr
    rw [hitems]
    exact List.mem_append_right _ (terminal_mem_drain _ hpolls)

/-- **Every open watch is faithful, whatever happens to it in whatever order.** -/
theorem faithful (hw : w.Open) (inputs : List Input) : w.Faithful d capacity inputs := by
  cases h : w.ending? d capacity inputs with
  | none => exact faithful_unended hw h
  | some reason => exact faithful_ended hw h

end Watch

end ControlPlane
