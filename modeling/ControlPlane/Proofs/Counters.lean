import Mathlib.Algebra.GroupWithZero.Nat
import ControlPlane.Proofs.Opening

/-!
# Counters

The counters of a store change in three places only: a commit counts itself, the events it queued
and the watches it closed; a poll counts the watch it finds expired; and the shutdown counts the
watches that were live. All of them increment, so an amount that is read off the counters grows by
what each increment weighs for it, and what every increment keeps is kept by every run.

* `Counters.Reads`: an amount read off the counters, by the weight of each counter. A single count
  (`reads_count`) and the sum of some counts (`reads_sum`) are such amounts.
* `Counters.Reads.enter`, `Counters.Reads.shutdown`: what a commit and the shutdown add to it.
* `Counters.Kept`: a property that every increment keeps.
* `Counters.Kept.run`: every run keeps it.
-/

namespace ControlPlane

/-! ## Which counters there are -/

namespace Counter

/-- The counter counts mutations. -/
def isMutation : Counter → Bool
  | mutations .. => true
  | _ => false

/-- The counter counts watches of a kind that were closed, for whatever reason. -/
def isClosing (kind : String) : Counter → Bool
  | closed kind' _ => kind' = kind
  | _ => false

end Counter

namespace Watch.Delivery

/-- The server closed the watch. -/
def isClosed : Delivery → Bool
  | closed _ => true
  | _ => false

@[simp] theorem isClosed_skipped : isClosed skipped = false := rfl

@[simp] theorem isClosed_queued : isClosed queued = false := rfl

@[simp] theorem isClosed_closed (reason : EndReason) : isClosed (closed reason) = true := rfl

end Watch.Delivery

namespace Counters

/-- The sum of the counts of some counters. -/
def sum (counters : Counters) (p : Counter → Bool) : Nat :=
  ((counters.filter fun e => p e.1).map (·.2)).sum

@[simp] theorem count_nil (c : Counter) : count [] c = 0 := rfl

@[simp] theorem count_cons (c c' : Counter) (n : Nat) (counters : Counters) :
    count ((c', n) :: counters) c = if c' = c then n else count counters c := by
  by_cases hc : c' = c
  · simp [count, hc]
  · simp [count, hc, List.lookup_cons, beq_false_of_ne (Ne.symm hc)]

@[simp] theorem sum_nil (p : Counter → Bool) : sum [] p = 0 := rfl

@[simp] theorem sum_cons (p : Counter → Bool) (c : Counter) (n : Nat) (counters : Counters) :
    sum ((c, n) :: counters) p = (if p c then n else 0) + sum counters p := by
  by_cases hp : p c <;> simp [sum, hp]

/-! ## Amounts read off the counters -/

/-- An amount that is read off the counters: an increment adds to it in proportion to what its
counter weighs. -/
def Reads (read : Counters → Nat) (weight : Counter → Nat) : Prop :=
  ∀ counters c n, read (counters.add c n) = read counters + weight c * n

theorem reads_count (c : Counter) :
    Reads (·.count c) fun c' => if c' = c then 1 else 0 := by
  intro counters c' n
  dsimp only
  induction counters with
  | nil => by_cases hc : c' = c <;> simp [add, hc]
  | cons e counters ih =>
    obtain ⟨c'', m⟩ := e
    rw [add]
    by_cases hc : c'' = c'
    · subst hc
      by_cases hself : c'' = c <;> simp [hself]
    · rw [if_neg hc, count_cons, count_cons, ih]
      by_cases hself : c'' = c
      · have hne : c' ≠ c := fun h => hc (hself.trans h.symm)
        simp [hself, hne]
      · rw [if_neg hself, if_neg hself]

theorem reads_sum (p : Counter → Bool) : Reads (·.sum p) fun c => if p c then 1 else 0 := by
  intro counters c n
  dsimp only
  induction counters with
  | nil => by_cases hp : p c <;> simp [add, hp]
  | cons e counters ih =>
    obtain ⟨c', m⟩ := e
    rw [add]
    by_cases hc : c' = c
    · subst hc
      rw [if_pos rfl, sum_cons, sum_cons]
      split <;> omega
    · rw [if_neg hc, sum_cons, sum_cons, ih, Nat.add_assoc]

namespace Reads

variable {read : Counters → Nat} {weight : Counter → Nat}

theorem addDelivered (h : Reads read weight) (counters : Counters) (kind : String) (n : Nat) :
    read (counters.addDelivered kind n) = read counters + weight (.delivered kind) * n := by
  unfold Counters.addDelivered
  split
  · next hn => rw [hn, Nat.mul_zero, Nat.add_zero]
  · exact h ..

theorem addClosings (h : Reads read weight) {kind : String} {a : Nat}
    (hweight : ∀ reason, weight (.closed kind reason) = a) (counters : Counters)
    (deliveries : List Watch.Delivery) :
    read (counters.addClosings kind deliveries) =
      read counters + a * deliveries.countP (·.isClosed) := by
  induction deliveries generalizing counters with
  | nil => rfl
  | cons delivery deliveries ih =>
    rw [Counters.addClosings, List.foldl_cons, ← Counters.addClosings, ih]
    cases delivery with
    | skipped => rfl
    | queued => rfl
    | closed reason =>
      rw [List.countP_cons_of_pos rfl, h, hweight, Nat.mul_one, Nat.mul_add, Nat.mul_one]
      omega

end Reads

end Counters

/-! ## Commits and the shutdown -/

namespace Focus

/-- What the broadcast of a change at the next version does to each watch. -/
def deliveries (f : Focus) (now : Nat) (c : Change) : List Watch.Delivery :=
  f.table.watches.map fun w =>
    (w.receive f.table.definition f.limits.queueCapacity now f.version.next c).2

theorem enter_counters (f : Focus) (now : Nat) (verb : Verb) (c : Commit) :
    (f.enter now verb c).counters =
      ((f.counters.addDelivered f.table.name
        ((f.deliveries now c.change).countP (· = .queued))).addClosings f.table.name
          (f.deliveries now c.change)).add (.mutations f.table.name verb) 1 := by
  simp only [enter, commit, broadcast_eq, List.countP_map, deliveries, List.map_map]
  rfl

end Focus

namespace Counters.Reads

variable {read : Counters → Nat} {weight : Counter → Nat}

/-- A commit adds the events it queued, the watches it closed, and itself. -/
theorem enter (h : Reads read weight) {f : Focus} {a : Nat}
    (hweight : ∀ reason, weight (.closed f.table.name reason) = a) (now : Nat) (verb : Verb)
    (c : Commit) :
    read (f.enter now verb c).counters =
      read f.counters +
        weight (.delivered f.table.name) * (f.deliveries now c.change).countP (· = .queued) +
        a * (f.deliveries now c.change).countP (·.isClosed) +
        weight (.mutations f.table.name verb) := by
  rw [Focus.enter_counters, h, h.addClosings hweight, h.addDelivered, Nat.mul_one]

end Counters.Reads

namespace Focus

variable (f : Focus) (now : Nat) (verb : Verb) (c : Commit) (kind : String)

/-- A commit is one mutation. -/
theorem mutations_enter :
    (f.enter now verb c).counters.sum Counter.isMutation =
      f.counters.sum Counter.isMutation + 1 := by
  rw [(Counters.reads_sum Counter.isMutation).enter (a := 0) (fun _ => rfl)]
  simp [Counter.isMutation]

/-- A commit is counted under its verb. -/
theorem count_mutations_enter (verb' : Verb) :
    (f.enter now verb c).counters.count (.mutations kind verb') =
      f.counters.count (.mutations kind verb') +
        if f.table.name = kind ∧ verb = verb' then 1 else 0 := by
  rw [(Counters.reads_count (.mutations kind verb')).enter (a := 0) (fun _ => by simp)]
  simp

/-- A commit counts the events it queued. -/
theorem count_delivered_enter :
    (f.enter now verb c).counters.count (.delivered kind) =
      f.counters.count (.delivered kind) +
        if f.table.name = kind then (f.deliveries now c.change).countP (· = .queued) else 0 := by
  rw [(Counters.reads_count (.delivered kind)).enter (a := 0) (fun _ => by simp)]
  by_cases hk : f.table.name = kind <;> simp [hk]

/-- A commit counts the watches it closed. -/
theorem closings_enter :
    (f.enter now verb c).counters.sum (Counter.isClosing kind) =
      f.counters.sum (Counter.isClosing kind) +
        if f.table.name = kind then (f.deliveries now c.change).countP (·.isClosed) else 0 := by
  rw [(Counters.reads_sum (Counter.isClosing kind)).enter
    (a := if f.table.name = kind then 1 else 0) (fun _ => by simp [Counter.isClosing])]
  by_cases hk : f.table.name = kind <;> simp [Counter.isClosing, hk]

end Focus

namespace Counters.Reads

variable {read : Counters → Nat} {weight : Counter → Nat}

/-- The shutdown adds the watches that were live. -/
theorem shutdown (h : Reads read weight) {a : String → Nat}
    (hweight : ∀ kind reason, weight (.closed kind reason) = a kind) (s : Store) :
    read s.shutdown.counters =
      read s.counters + (s.tables.map fun t => a t.name * t.size.watchers).sum := by
  simp only [Store.shutdown]
  generalize s.counters = counters
  induction s.tables generalizing counters with
  | nil => rfl
  | cons t tables ih =>
    have hall : (t.liveWatches.map fun _ => Watch.Delivery.closed .shuttingDown).countP
        (·.isClosed) = t.liveWatches.length := by
      rw [List.map_const', List.countP_replicate, Watch.Delivery.isClosed_closed, if_pos rfl]
    rw [List.foldl_cons, ih, h.addClosings (hweight t.name), hall, List.map_cons, List.sum_cons,
      Nat.add_assoc]
    rfl

end Counters.Reads

/-! ## What increments keep -/

namespace Counters

/-- A property of counters that every increment keeps. -/
def Kept (P : Counters → Prop) : Prop :=
  ∀ (counters : Counters) (c : Counter) (n : Nat), 0 < n → P counters → P (counters.add c n)

namespace Kept

variable {P : Counters → Prop}

theorem addDelivered (h : Kept P) {counters : Counters} (hp : P counters) (kind : String)
    (n : Nat) : P (counters.addDelivered kind n) := by
  unfold Counters.addDelivered
  split
  · exact hp
  · next hn => exact h _ _ _ (Nat.pos_of_ne_zero hn) hp

theorem addClosings (h : Kept P) {counters : Counters} (hp : P counters) (kind : String)
    (deliveries : List Watch.Delivery) : P (counters.addClosings kind deliveries) := by
  induction deliveries generalizing counters with
  | nil => exact hp
  | cons delivery deliveries ih =>
    rw [Counters.addClosings, List.foldl_cons, ← Counters.addClosings]
    apply ih
    cases delivery with
    | skipped => exact hp
    | queued => exact hp
    | closed reason => exact h _ _ _ Nat.one_pos hp

theorem commits (h : Kept P) {i now : Nat} {verb : Verb} {f f' : Focus} {log : List Commit}
    (hc : Focus.Commits i now verb f log f') (hp : P f.counters) : P f'.counters := by
  induction hc with
  | nil => exact hp
  | cons _ _ _ _ ih =>
    apply ih
    rw [Focus.enter_counters]
    exact h _ _ _ Nat.one_pos (h.addClosings (h.addDelivered hp _ _) _ _)

theorem settle (h : Kept P) {f : Focus} (hp : P f.counters) (before after : Watch) :
    P (f.settle before after).counters := by
  simp only [Focus.settle]
  split
  · exact h _ _ _ Nat.one_pos hp
  · exact hp

theorem poll (h : Kept P) {f : Focus} (hp : P f.counters) (now id : Nat) :
    P (f.poll now id).2.counters := by
  unfold Focus.poll
  cases f.table.watch? id with
  | none => exact hp
  | some w => exact h.settle hp ..

theorem stopWatch (h : Kept P) {f : Focus} (hp : P f.counters) (id : Nat) :
    P (f.stopWatch id).counters := by
  unfold Focus.stopWatch
  cases f.table.watch? id with
  | none => exact hp
  | some w => exact h.settle hp ..

theorem shutdown (h : Kept P) {s : Store} (hp : P s.counters) : P s.shutdown.counters := by
  simp only [Store.shutdown]
  generalize s.counters = counters at hp ⊢
  induction s.tables generalizing counters with
  | nil => exact hp
  | cons t tables ih => exact ih _ (h.addClosings hp ..)

theorem onWatch {α : Type} {s : Store} (hp : P s.counters) (w : WatchHandle)
    {operation : Focus → α × Focus}
    (hkeep : ∀ f : Focus, P f.counters → P (operation f).2.counters) :
    P (s.onWatch w operation).2.counters := by
  rcases Store.onWatch_cases s w operation with ⟨heq, -⟩ | ⟨i, t, -, -, heq⟩
  · rw [heq]
    exact hp
  · rw [heq]
    exact hkeep (s.focus t) hp

/-- **Every action keeps what increments keep.** -/
theorem act (h : Kept P) {s : Store} {log : List Commit} (hs : s.Follows log)
    (hp : P s.counters) (a : Store.Action) : P (s.act a).2.counters := by
  cases a with
  | call kind scope m w =>
    obtain ⟨result, -, hcalled⟩ := Store.call_cases hs.filed kind scope m w
    generalize s.commits (.call kind scope m w) = log' at hcalled
    generalize (s.act (.call kind scope m w)).2 = s' at hcalled ⊢
    cases hcalled with
    | still => exact hp
    | mutated _ hc => exact h.commits hc hp
    | opened _ _ => exact hp
  | poll now w => exact onWatch hp w fun f hf => h.poll hf now w.id
  | stopWatch w => exact onWatch hp w fun f hf => h.stopWatch hf w.id
  | dropWatch w => exact onWatch hp w fun f hf => hf
  | shutdown => exact h.shutdown hp

/-- **Every run keeps what increments keep.** -/
theorem run (h : Kept P) {s : Store} {log : List Commit} (hs : s.Follows log)
    (hp : P s.counters) (actions : List Store.Action) : P (s.run actions).counters := by
  induction actions generalizing s log with
  | nil => exact hp
  | cons a actions ih => exact ih (hs.act a) (h.act hs hp a)

end Kept

end Counters

end ControlPlane
