import ControlPlane.Store.Table

/-!
# Broadcasts

A broadcast hands the object that left a selection on from watch to watch, so that it is made once.
That object is the same whoever needs it first: what a watch gets out of a broadcast is what it
would get if it were alone (`broadcast_eq`), and the events are those that a replay of the change
would show.
-/

namespace ControlPlane

/-- The object handed on during the broadcast of a change is the one that left, as of its version.
-/
def Change.Departed (change : Change) (version : Version) (departed : Option Object) : Prop :=
  ∀ o, departed = some o → ∃ old new, change = .updated old new ∧ o = old.stamped version

theorem Change.departed_none (change : Change) (version : Version) : change.Departed version none :=
  fun _ h => by cases h

namespace Selection

variable {x : Selection} {d : Definition} {version : Version} {change : Change}
  {departed : Option Object}

/-- **The event does not depend on what was handed on.** -/
theorem observe_fst (h : change.Departed version departed) :
    (x.observe d version departed change).1 = x.event? d version change := by
  cases change with
  | created new => rfl
  | deleted tombstone => rfl
  | updated old new =>
    cases departed with
    | none => rfl
    | some o =>
      obtain ⟨old', new', hc, rfl⟩ := h o rfl
      obtain ⟨rfl, rfl⟩ := Change.updated.inj hc
      simp only [event?, observe]
      cases x.selects d old <;> cases x.selects d new <;> rfl

theorem departed_observe (h : change.Departed version departed) :
    change.Departed version (x.observe d version departed change).2 := by
  cases change with
  | created new => exact h
  | deleted tombstone => exact h
  | updated old new =>
    simp only [observe]
    cases x.selects d old <;> cases x.selects d new
    · exact h
    · exact h
    · intro o ho
      cases departed with
      | none =>
        obtain rfl := Option.some.inj ho
        exact ⟨old, new, rfl, rfl⟩
      | some o' =>
        obtain rfl := Option.some.inj ho
        exact h o' rfl
    · exact h

/-! ### Where each change leaves a selection -/

theorem event?_created (x : Selection) (d : Definition) (version : Version) (new : Object) :
    x.event? d version (.created new) =
      if x.selects d new then some ⟨.added, new, version⟩ else none := rfl

theorem event?_updated (x : Selection) (d : Definition) (version : Version) (old new : Object) :
    x.event? d version (.updated old new) =
      match x.selects d old, x.selects d new with
      | true, true => some ⟨.modified, new, version⟩
      | false, true => some ⟨.added, new, version⟩
      | true, false => some ⟨.deleted, old.stamped version, version⟩
      | false, false => none := by
  simp only [event?, observe]
  cases x.selects d old <;> cases x.selects d new <;> rfl

theorem event?_deleted (x : Selection) (d : Definition) (version : Version) (tombstone : Object) :
    x.event? d version (.deleted tombstone) =
      if x.selects d tombstone then some ⟨.deleted, tombstone, version⟩ else none := rfl

/-- An event has the version of its change. -/
theorem version_of_event? {e : Event} (h : x.event? d version change = some e) :
    e.version = version := by
  cases change with
  | created new =>
    rw [event?_created] at h
    split at h
    · cases h; rfl
    · cases h
  | updated old new =>
    rw [event?_updated] at h
    split at h <;> cases h <;> rfl
  | deleted tombstone =>
    rw [event?_deleted] at h
    split at h
    · cases h; rfl
    · cases h

end Selection

namespace Watch

variable {d : Definition} {capacity now : Nat} {version : Version} {change : Change}

/-- What the broadcast of a change does to a watch that is alone. -/
def receive (w : Watch) (d : Definition) (capacity now : Nat) (version : Version)
    (change : Change) : Watch × Delivery :=
  (w.deliver d capacity now version change none).1

theorem receive_ended {w : Watch} {reason : Option EndReason} (h : w.phase = .ended reason) :
    w.receive d capacity now version change = (w, .skipped) := by
  simp only [receive, deliver, h]

theorem receive_live {w : Watch} (h : w.phase = .live) :
    w.receive d capacity now version change =
      if w.deadline ≤ now then (w.close (some .expired), .closed .expired)
      else
        match w.selection.event? d version change with
        | none => (w, .skipped)
        | some event =>
          if w.queue.length < max capacity 1 then ({ w with queue := w.queue ++ [event] }, .queued)
          else (w.close (some .overflowed), .closed .overflowed) := by
  simp only [receive, deliver, h, Selection.event?]
  split
  · rfl
  · cases (w.selection.observe d version none change).1 with
    | none => rfl
    | some event =>
      dsimp only
      split <;> rfl

theorem deliver_fst (w : Watch) {departed : Option Object} (h : change.Departed version departed) :
    (w.deliver d capacity now version change departed).1 =
      w.receive d capacity now version change := by
  cases hphase : w.phase with
  | ended reason =>
    rw [receive_ended hphase]
    simp only [deliver, hphase]
  | live =>
    rw [receive_live hphase, ← Selection.observe_fst h]
    simp only [deliver, hphase]
    split
    · rfl
    · cases (w.selection.observe d version departed change).1 with
      | none => rfl
      | some event =>
        dsimp only
        split <;> rfl

theorem departed_deliver (w : Watch) {departed : Option Object}
    (h : change.Departed version departed) :
    change.Departed version (w.deliver d capacity now version change departed).2 := by
  have hobserve := Selection.departed_observe (x := w.selection) (d := d) h
  cases hphase : w.phase with
  | ended reason => simpa only [deliver, hphase] using h
  | live =>
    simp only [deliver, hphase]
    split
    · exact h
    · cases (w.selection.observe d version departed change).1 with
      | none => exact hobserve
      | some event =>
        dsimp only
        split
        · exact hobserve
        · exact hobserve

theorem deliverAll_eq (watches : List Watch) {departed : Option Object}
    (h : change.Departed version departed) :
    deliverAll d capacity now version change departed watches =
      watches.map (·.receive d capacity now version change) := by
  induction watches generalizing departed with
  | nil => rfl
  | cons w watches ih =>
    simp only [deliverAll, List.map_cons, deliver_fst w h, ih (departed_deliver w h)]

end Watch

/-- **In a broadcast every watch gets what it would get alone.** -/
theorem Focus.broadcast_eq (f : Focus) (now : Nat) (version : Version) (change : Change) :
    f.broadcast now version change =
      f.table.watches.map
        (·.receive f.table.definition f.limits.queueCapacity now version change) :=
  Watch.deliverAll_eq f.table.watches (change.departed_none version)

end ControlPlane
