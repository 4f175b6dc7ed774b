import ControlPlane.Proofs.Delivery
import ControlPlane.Proofs.Watchers

/-!
# What a commit does to each watch

A commit is broadcast to every watch of its table. A watch that is past its deadline is closed, and
otherwise one that does not see the change is left alone; one that sees it gets the event, or is
closed if its queue holds all it may. The queue holds what was broadcast and is not taken yet: what
a watch began with is kept apart from it and takes no room.

* `Watch.Gets`: the outcomes, each with all that it takes and all that it does.
* `Watch.gets_iff`: a watch gets exactly one of them, if its queue is within its capacity.
* `Store.withinCapacity_run`: after every run, every queue is.
* `Focus.enter_refill`: what the watches began with makes no difference to a commit.
* `Store.broadcast_exact`: so it is with every commit of every run.
-/

namespace ControlPlane

namespace Watch

/-- What the broadcast of a change does to a watch, and what it tells of it. -/
inductive Gets (d : Definition) (capacity now : Nat) (version : Version) (change : Change)
    (w : Watch) : Watch × Delivery → Prop
  | ended {reason : Option EndReason} : w.phase = .ended reason →
      Gets d capacity now version change w (w, .skipped)
  | expired : w.phase = .live → w.deadline ≤ now →
      Gets d capacity now version change w
        ({ w with phase := .ended (some .expired) }, .closed .expired)
  | unseen : w.phase = .live → now < w.deadline →
      w.selection.event? d version change = none →
      Gets d capacity now version change w (w, .skipped)
  | overflowed {e : Event} : w.phase = .live → now < w.deadline →
      w.selection.event? d version change = some e → w.queue.length = max capacity 1 →
      Gets d capacity now version change w
        ({ w with phase := .ended (some .overflowed) }, .closed .overflowed)
  | queued {e : Event} : w.phase = .live → now < w.deadline →
      w.selection.event? d version change = some e → w.queue.length < max capacity 1 →
      Gets d capacity now version change w ({ w with queue := w.queue ++ [e] }, .queued)

/-- The queue holds at most as many events as it may: one, if its capacity is none. -/
def WithinCapacity (capacity : Nat) (w : Watch) : Prop := w.queue.length ≤ max capacity 1

variable {d : Definition} {capacity now : Nat} {version : Version} {change : Change} {w : Watch}

theorem gets_receive (hw : w.WithinCapacity capacity) :
    w.Gets d capacity now version change (w.receive d capacity now version change) := by
  cases hphase : w.phase with
  | ended reason =>
    rw [receive_ended hphase]
    exact .ended hphase
  | live =>
    rw [receive_live hphase, close_live hphase, close_live hphase]
    by_cases hdeadline : w.deadline ≤ now
    · rw [if_pos hdeadline]
      exact .expired hphase hdeadline
    · rw [if_neg hdeadline]
      have hlt : now < w.deadline := Nat.lt_of_not_le hdeadline
      cases hevent : w.selection.event? d version change with
      | none => exact .unseen hphase hlt hevent
      | some e =>
        dsimp only
        by_cases hroom : w.queue.length < max capacity 1
        · rw [if_pos hroom]
          exact .queued hphase hlt hevent hroom
        · rw [if_neg hroom]
          exact .overflowed hphase hlt hevent (Nat.le_antisymm hw (Nat.le_of_not_lt hroom))

theorem eq_receive_of_gets {p : Watch × Delivery} (h : w.Gets d capacity now version change p) :
    p = w.receive d capacity now version change := by
  cases h with
  | ended hphase => rw [receive_ended hphase]
  | expired hphase hdeadline => rw [receive_live hphase, if_pos hdeadline, close_live hphase]
  | unseen hphase hlt hevent => rw [receive_live hphase, if_neg (Nat.not_le.mpr hlt), hevent]
  | overflowed hphase hlt hevent hfull =>
    rw [receive_live hphase, if_neg (Nat.not_le.mpr hlt), hevent]
    dsimp only
    rw [if_neg (Nat.not_lt.mpr (Nat.le_of_eq hfull.symm)), close_live hphase]
  | queued hphase hlt hevent hroom =>
    rw [receive_live hphase, if_neg (Nat.not_le.mpr hlt), hevent]
    dsimp only
    rw [if_pos hroom]

/-- **A watch within its capacity gets exactly one outcome.** -/
theorem gets_iff (hw : w.WithinCapacity capacity) (p : Watch × Delivery) :
    w.Gets d capacity now version change p ↔ p = w.receive d capacity now version change :=
  ⟨eq_receive_of_gets, fun h => h ▸ gets_receive hw⟩

/-- A watch that is live after a broadcast is before its deadline. -/
theorem Gets.now_lt_deadline {p : Watch × Delivery} (h : w.Gets d capacity now version change p)
    (hlive : p.1.phase = .live) : now < p.1.deadline := by
  cases h with
  | ended hphase => exact absurd (hphase.symm.trans hlive) (by simp)
  | expired _ _ => cases hlive
  | unseen _ hlt _ => exact hlt
  | overflowed _ _ _ _ => cases hlive
  | queued _ hlt _ _ => exact hlt

/-! ## Queues stay within their capacity -/

@[simp] theorem close_queue (w : Watch) (reason : Option EndReason) :
    (w.close reason).queue = w.queue := by
  unfold close
  split <;> rfl

theorem take_queue_suffix (w : Watch) : w.take.2.queue <:+ w.queue := by
  unfold take
  split
  · exact List.suffix_rfl
  · split
    · exact List.suffix_rfl
    · next hqueue => exact hqueue ▸ List.suffix_cons _ _
    · exact List.suffix_rfl
    · exact List.suffix_rfl

theorem stable_withinCapacity (d : Definition) (capacity : Nat) :
    Stable d capacity (WithinCapacity capacity) fun _ => True where
  close w reason hw := by rwa [WithinCapacity, close_queue]
  receive w now version c _ hw := by
    cases hget : w.receive d capacity now version c with | mk w' delivery =>
    have hgets : w.Gets d capacity now version c (w', delivery) := hget ▸ gets_receive hw
    cases hgets with
    | ended _ => exact hw
    | expired _ _ => exact hw
    | unseen _ _ _ => exact hw
    | overflowed _ _ _ _ => exact hw
    | queued _ _ _ hroom =>
      rw [WithinCapacity, List.length_append, List.length_singleton]
      exact hroom
  take w hw := Nat.le_trans w.take_queue_suffix.length_le hw

/-! ## What a watch began with -/

/-- The watch with other initial events. -/
def refilled (w : Watch) (events : List Event) : Watch := { w with initial := events }

theorem close_refilled (w : Watch) (events : List Event) (reason : Option EndReason) :
    (w.refilled events).close reason = (w.close reason).refilled events := by
  cases hphase : w.phase with
  | live => rw [close_live hphase, close_live (w := w.refilled events) hphase, refilled, refilled]
  | ended r => rw [close_ended hphase, close_ended (w := w.refilled events) hphase]

/-- What a watch gets does not depend on its initial events, and leaves them. -/
theorem receive_refilled (w : Watch) (events : List Event) (d : Definition) (capacity now : Nat)
    (version : Version) (change : Change) :
    (w.refilled events).receive d capacity now version change =
      ((w.receive d capacity now version change).1.refilled events,
        (w.receive d capacity now version change).2) := by
  cases hphase : w.phase with
  | ended reason => rw [receive_ended hphase, receive_ended (w := w.refilled events) hphase]
  | live =>
    have hdeadline : (w.refilled events).deadline = w.deadline := rfl
    have hselection : (w.refilled events).selection = w.selection := rfl
    have hqueue : (w.refilled events).queue = w.queue := rfl
    rw [receive_live hphase, receive_live (w := w.refilled events) hphase, close_refilled,
      close_refilled, hdeadline, hselection, hqueue]
    by_cases hlate : w.deadline ≤ now
    · rw [if_pos hlate, if_pos hlate]
    · rw [if_neg hlate, if_neg hlate]
      cases w.selection.event? d version change with
      | none => rfl
      | some e =>
        dsimp only
        by_cases hroom : w.queue.length < max capacity 1
        · rw [if_pos hroom, if_pos hroom]
          rfl
        · rw [if_neg hroom, if_neg hroom]

end Watch

namespace Focus

/-- The focus whose watches have other initial events, given by their numbers. -/
def refill (f : Focus) (events : Nat → List Event) : Focus :=
  { f with table :=
    { f.table with watches := f.table.watches.map fun w => w.refilled (events w.id) } }

theorem broadcast_refill (f : Focus) (events : Nat → List Event) (now : Nat) (version : Version)
    (change : Change) :
    (f.refill events).broadcast now version change =
      (f.broadcast now version change).map fun p => (p.1.refilled (events p.1.id), p.2) := by
  rw [broadcast_eq, broadcast_eq]
  simp only [refill, List.map_map]
  apply List.map_congr_left
  intro w _
  simp only [Function.comp_apply, Watch.receive_refilled, Watch.receive_id]

/-- **What the watches began with makes no difference to a commit.** -/
theorem enter_refill (f : Focus) (events : Nat → List Event) (now : Nat) (verb : Verb)
    (c : Commit) : (f.refill events).enter now verb c = (f.enter now verb c).refill events := by
  have hbroadcast : (f.refill events).broadcast now (f.refill events).version.next c.change =
      (f.broadcast now f.version.next c.change).map fun p =>
        (p.1.refilled (events p.1.id), p.2) := f.broadcast_refill events now f.version.next c.change
  simp only [enter, commit, hbroadcast]
  simp only [refill, List.map_map, List.countP_map]
  rfl

/-! ## Commits -/

/-- What a commit does to the watches of its table, whose queues have a capacity. -/
structure Broadcasts (f : Focus) (capacity now : Nat) (verb : Verb) (c : Commit) : Prop where
  /-- Every watch gets exactly one outcome. -/
  outcomes : List.Forall₂
    (fun w w' => ∃ delivery, ∀ p,
      w.Gets f.table.definition capacity now c.version c.change p ↔ p = (w', delivery))
    f.table.watches (f.enter now verb c).table.watches
  /-- The watches that are still broadcast to are before their deadlines, and have not fallen
  behind. -/
  registered : ∀ w ∈ (f.enter now verb c).table.watches, w.isLive = true →
    now < w.deadline ∧ w.queue.length ≤ max capacity 1
  /-- What the watches began with makes no difference. -/
  initial_apart : ∀ events,
    (f.refill events).enter now verb c = (f.enter now verb c).refill events

/-- **A commit gives every watch its one outcome**, if all queues are within their capacity. -/
theorem broadcasts {f : Focus} {capacity now : Nat} {verb : Verb} {c : Commit}
    (hcapacity : f.limits.queueCapacity = capacity) (hversion : c.version = f.version.next)
    (hwatches : f.table.EachWatch (Watch.WithinCapacity capacity)) :
    f.Broadcasts capacity now verb c where
  outcomes := by
    rw [enter_watches, hversion, hcapacity, List.forall₂_map_right_iff, List.forall₂_same]
    intro w hw
    exact ⟨_, fun p => Watch.gets_iff (hwatches w hw) p⟩
  registered := by
    intro w' hw' hlive
    rw [enter_watches, hcapacity] at hw'
    obtain ⟨w, hw, rfl⟩ := List.mem_map.mp hw'
    have hgets : w.Gets f.table.definition capacity now f.version.next c.change _ :=
      Watch.gets_receive (hwatches w hw)
    refine ⟨hgets.now_lt_deadline (by simpa [Watch.isLive] using hlive), ?_⟩
    exact (Watch.stable_withinCapacity _ capacity).receive w now _ c.change trivial (hwatches w hw)
  initial_apart events := f.enter_refill events now verb c

/-- Commits are entered one after the other. -/
theorem Commits.split {i now : Nat} {verb : Verb} {f f'' : Focus} {before after : List Commit}
    (h : Commits i now verb f (before ++ after) f'') :
    ∃ f', Commits i now verb f before f' ∧ Commits i now verb f' after f'' := by
  induction before generalizing f with
  | nil => exact ⟨f, .nil f, h⟩
  | cons c before ih =>
    cases h with
    | cons htable hversion hfits hrest =>
      obtain ⟨f', hbefore, hafter⟩ := ih hrest
      exact ⟨f', .cons htable hversion hfits hbefore, hafter⟩

end Focus

/-! ## Every run -/

namespace Store

variable {s : Store} {log : List Commit}

/-- **After every run, no queue holds more events than it may.** -/
theorem withinCapacity_run {capacity : Nat} (hfollows : s.Follows log)
    (hcapacity : s.limits.queueCapacity = capacity)
    (hs : s.EachWatch fun _ => Watch.WithinCapacity capacity) (actions : List Action) :
    (s.run actions).EachWatch fun _ => Watch.WithinCapacity capacity := by
  induction actions generalizing s log with
  | nil => exact hs
  | cons a actions ih =>
    have hstable (d : Definition) : Watch.Stable d s.limits.queueCapacity
        (Watch.WithinCapacity capacity) fun _ => True := by
      rw [hcapacity]
      exact Watch.stable_withinCapacity d capacity
    apply ih (hfollows.act a)
    · rw [(sameKinds_act hfollows a).limits_eq, hcapacity]
    · apply hs.act hfollows hstable
      · intro i t scope m criteria since timeout events _ _
        exact Nat.zero_le _
      · intro c _ t _
        trivial

/-- **Every commit of every run gives each watch of its kind exactly one outcome.** A call enters
its commits one after the other, and each finds the watches as the one before left them. -/
theorem broadcast_exact (catalog : Catalog) (limits : WatchLimits) (actions : List Action)
    {s : Store} (hs : s = (empty catalog limits).run actions) {kind : String} {scope : Scope}
    {m : Moment} {w : Work} {before after : List Commit} {c : Commit}
    (hcommits : s.commits (.call kind scope m w) = before ++ c :: after) :
    ∃ t verb f f', s.tables[c.table]? = some t ∧
      Focus.Commits c.table m.now verb (s.focus t) before f ∧
      f.Broadcasts limits.queueCapacity m.now verb c ∧
      Focus.Commits c.table m.now verb (f.enter m.now verb c) after f' ∧
      (s.act (.call kind scope m w)).2 = s.absorb c.table f' := by
  have hempty := follows_empty catalog limits
  have hfollows : s.Follows ((empty catalog limits).log actions) :=
    hs ▸ follows_reached catalog limits actions
  have hlimits : s.limits.queueCapacity = limits.queueCapacity := by
    rw [hs, (sameKinds_run hempty actions).limits_eq]
    rfl
  have hwatches : s.EachWatch fun _ => Watch.WithinCapacity limits.queueCapacity :=
    hs ▸ withinCapacity_run hempty rfl (eachWatch_empty _ catalog limits) actions
  have hstable (d : Definition) : Watch.Stable d s.limits.queueCapacity
      (Watch.WithinCapacity limits.queueCapacity) fun _ => True := by
    rw [hlimits]
    exact Watch.stable_withinCapacity d _
  obtain ⟨result, -, hcalled⟩ := call_cases hfollows.filed kind scope m w
  rw [hcommits] at hcalled
  generalize (s.act (.call kind scope m w)).2 = s' at hcalled ⊢
  generalize hlog : before ++ c :: after = log at hcalled
  cases hcalled with
  | still => cases before <;> cases hlog
  | opened _ _ => cases before <;> cases hlog
  | @mutated i t verb log reply f'' ht hc =>
    subst hlog
    obtain ⟨f, hbefore, hrest⟩ := hc.split
    cases hrest with
    | cons htable hversion hfits hafter =>
      subst htable
      have hcapacity : f.limits.queueCapacity = limits.queueCapacity := by
        rw [hbefore.limits_eq]
        exact hlimits
      have hwatches' : f.table.EachWatch (Watch.WithinCapacity limits.queueCapacity) :=
        hbefore.eachWatch (hstable t.definition) (fun _ _ => trivial) (hwatches c.table t ht)
      exact ⟨t, verb, f, f'', ht, hbefore, Focus.broadcasts hcapacity hversion hwatches', hafter,
        rfl⟩

/-- Two config maps are deleted in one call while a watch has room for one event: the second
deletion finds its queue full. -/
theorem broadcast_exact_configs :
    ∃ s c c', s = configStore.run [watchConfigs 0, createConfig "a", createConfig "b",
        .poll 1 ⟨"v1/ConfigMap", 0⟩] ∧
      s.commits (configCall (.deleteCollection .all)) = [c] ++ c' :: [] ∧
      ((s.act (configCall (.deleteCollection .all))).2.watch? ⟨"v1/ConfigMap", 0⟩).bind
        Watch.closed? = some .overflowed ∧
      ∃ t verb f f', s.tables[c'.table]? = some t ∧
        Focus.Commits c'.table 0 verb (s.focus t) [c] f ∧ f.Broadcasts 2 0 verb c' ∧
        Focus.Commits c'.table 0 verb (f.enter 0 verb c') [] f' ∧
        (s.act (configCall (.deleteCollection .all))).2 = s.absorb c'.table f' :=
  ⟨_, _, _, rfl, rfl, rfl, broadcast_exact configCatalog ⟨2, 1000, 2⟩ _ rfl
    (m := ⟨0, ⟨2024, 1, 1, 0, 0, 0, 0⟩, "uid", "suffix"⟩) (w := .request (.deleteCollection .all))
    rfl⟩

end Store

end ControlPlane
