import ControlPlane.Proofs.Attempt
import ControlPlane.Proofs.Commit
import ControlPlane.Store.Mutation

/-!
# What a mutation is decided by

A mutation first decides what it would commit. These are the decisions spelled out: each one
succeeds exactly if every check of the request passes, and its result is then known in full.

* `Table.creation_eq_ok_iff`, `Table.revision_eq_ok_iff`, `Table.removal_eq_ok_iff`,
  `Table.removals_eq_ok_iff`: the decisions.
* `Object.Placed.born`, `Object.Placed.succeeding`: what they commit is in its place.
-/

namespace ControlPlane

/-! ## Objects on their way into a table -/

namespace Object

@[simp] theorem types_typedAs (o : Object) (d : Definition) :
    (o.typedAs d).types = some (o.types.getD d.typeMeta) := rfl

@[simp] theorem types_named (o : Object) (suffix : String) : (o.named suffix).types = o.types := by
  unfold named
  split
  · split <;> rfl
  · rfl

@[simp] theorem key_setStatus (d : Definition) (o : Object) (status : Option Json) :
    d.key (o.setStatus status) = d.key o := d.key_congr rfl rfl

end Object

namespace Scope

@[simp] theorem types_mark (s : Scope) (o : Object) : (s.mark o).types = o.types := by
  cases s <;> rfl

@[simp] theorem key_mark (d : Definition) (s : Scope) (o : Object) :
    d.key (s.mark o) = d.key o := by
  cases s with
  | all => rfl
  | partition p => exact d.key_congr rfl rfl

theorem enroll_eq_ok_iff {kind : String} {s : Scope} {o new : Object} :
    s.enroll kind o = .ok new ↔ s.fault? kind (s.mark o) = none ∧ new = s.mark o := by
  unfold enroll
  cases s.fault? kind (s.mark o) with
  | some fault => simp
  | none => simp [eq_comm]

end Scope

/-- An object that is well formed for a kind names no other type. -/
theorem Definition.types_eq_of_validate {d : Definition} {o : Object} {types : TypeMeta}
    (h : d.validate o = .ok ()) (htypes : o.types = some types) : types = d.typeMeta := by
  unfold Definition.validate at h
  rw [htypes] at h
  dsimp only at h
  split at h
  · assumption
  · cases h

namespace Object.Placed

variable {d : Definition} {key : Key} {v : Version} {o : Object}

theorem born (hkey : d.key o = .ok key) (htypes : o.types = some d.typeMeta) (m : Moment)
    (version : Version) : (o.born m version).Placed d key version where
  key_eq := (d.key_congr rfl rfl).trans hkey
  types_eq := htypes
  version_eq := rfl

theorem succeeding (hkey : d.key o = .ok key) (htypes : o.types = some d.typeMeta) (old : Object)
    (version : Version) : (o.succeeding old version).Placed d key version where
  key_eq := (d.key_congr rfl rfl).trans hkey
  types_eq := htypes
  version_eq := rfl

end Object.Placed

/-! ## The decisions -/

namespace Table

variable {t : Table} {scope : Scope}

theorem accept_eq_ok_iff {o new : Object} :
    t.accept o = .ok new ↔
      t.definition.validate (o.typedAs t.definition) = .ok () ∧ new = o.typedAs t.definition := by
  simp only [accept, bind_eq_ok_iff, pure_eq_ok_iff]
  constructor
  · rintro ⟨_, h, rfl⟩
    exact ⟨h, rfl⟩
  · rintro ⟨h, rfl⟩
    exact ⟨(), h, rfl⟩

theorem requireRunning_eq_ok_iff {u : Unit} : t.requireRunning = .ok u ↔ t.stopped = false := by
  unfold requireRunning
  cases t.stopped <;> simp

theorem record_eq_ok_iff {key : Key} {r : Record} :
    t.record scope key = .ok r ↔
      SortedMap.get? t.records key = some r ∧ scope.contains r.object = true := by
  have hvisible : t.visible? scope key = some r ↔
      SortedMap.get? t.records key = some r ∧ scope.contains r.object = true :=
    Option.filter_eq_some_iff
  rw [← hvisible, record]
  cases t.visible? scope key <;> simp

theorem requireVersion_eq_ok_iff {key : Key} {expected : Option Version} {current : Version}
    {u : Unit} :
    t.requireVersion key expected current = .ok u ↔ ∀ v, expected = some v → v = current := by
  unfold requireVersion
  cases expected with
  | none => simp
  | some v =>
    by_cases h : v = current
    · simp [h]
    · simp [h]

theorem creation_eq_ok_iff {suffix : String} {o : Object} {key : Key} {new : Object} :
    t.creation scope suffix o = .ok (key, new) ↔
      t.definition.validate (o.typedAs t.definition) = .ok () ∧
      t.definition.key ((o.typedAs t.definition).named suffix) = .ok key ∧
      scope.fault? t.name (scope.mark ((o.typedAs t.definition).named suffix)) = none ∧
      new = scope.mark ((o.typedAs t.definition).named suffix) ∧
      t.stopped = false ∧ SortedMap.get? t.records key = none := by
  simp only [creation, bind_eq_ok_iff, accept_eq_ok_iff, Scope.enroll_eq_ok_iff,
    requireRunning_eq_ok_iff]
  constructor
  · rintro ⟨_, ⟨hvalid, rfl⟩, key', hkey, new', ⟨hfault, rfl⟩, _, hrun, h⟩
    split at h
    · cases h
    · next hnew =>
      obtain ⟨rfl, rfl⟩ := Prod.mk.inj (pure_eq_ok_iff.mp h)
      exact ⟨hvalid, hkey, hfault, rfl, hrun, by simpa [SortedMap.has] using hnew⟩
  · rintro ⟨hvalid, hkey, hfault, rfl, hrun, hnew⟩
    refine ⟨_, ⟨hvalid, rfl⟩, key, hkey, _, ⟨hfault, rfl⟩, (), hrun, ?_⟩
    rw [if_neg (by simp [SortedMap.has, hnew])]
    rfl

theorem revision_eq_ok_iff {o : Object} {expected : Option Version}
    {subresource : Option Subresource} {key : Key} {current : Record} {next : Object} :
    t.revision scope o expected subresource = .ok (key, current, next) ↔
      t.definition.validate (o.typedAs t.definition) = .ok () ∧
      t.definition.key (o.typedAs t.definition) = .ok key ∧
      (∃ e, (o.typedAs t.definition).expectation expected = .ok e ∧
        ∀ v, e = some v → v = current.version) ∧
      t.stopped = false ∧ SortedMap.get? t.records key = some current ∧
      scope.contains current.object = true ∧
      scope.fault? t.name
        (scope.mark (t.composed subresource current.object (o.typedAs t.definition))) = none ∧
      next = scope.mark (t.composed subresource current.object (o.typedAs t.definition)) := by
  simp only [revision, bind_eq_ok_iff, accept_eq_ok_iff, Scope.enroll_eq_ok_iff,
    requireRunning_eq_ok_iff, record_eq_ok_iff, requireVersion_eq_ok_iff, pure_eq_ok_iff]
  constructor
  · rintro ⟨_, ⟨hvalid, rfl⟩, key', hkey, e, he, _, hrun, current', ⟨hget, hin⟩, _, hv, next',
      ⟨hfault, rfl⟩, h⟩
    simp only [Prod.mk.injEq] at h
    obtain ⟨rfl, rfl, rfl⟩ := h
    exact ⟨hvalid, hkey, ⟨e, he, hv⟩, hrun, hget, hin, hfault, rfl⟩
  · rintro ⟨hvalid, hkey, ⟨e, he, hv⟩, hrun, hget, hin, hfault, rfl⟩
    exact ⟨_, ⟨hvalid, rfl⟩, key, hkey, e, he, (), hrun, current, ⟨hget, hin⟩, (), hv, _,
      ⟨hfault, rfl⟩, rfl⟩

theorem removal_eq_ok_iff {key : Key} {precondition : Option Version} {r : Record} :
    t.removal scope key precondition = .ok r ↔
      t.stopped = false ∧ SortedMap.get? t.records key = some r ∧
      scope.contains r.object = true ∧ ∀ v, precondition = some v → v = r.version := by
  simp only [removal, bind_eq_ok_iff, requireRunning_eq_ok_iff, record_eq_ok_iff,
    requireVersion_eq_ok_iff, pure_eq_ok_iff]
  constructor
  · rintro ⟨_, hrun, r', ⟨hget, hin⟩, _, hv, rfl⟩
    exact ⟨hrun, hget, hin, hv⟩
  · rintro ⟨hrun, hget, hin, hv⟩
    exact ⟨(), hrun, r, ⟨hget, hin⟩, (), hv, rfl⟩

theorem removals_eq_ok_iff {criteria : Criteria} {keys : List Key} :
    t.removals scope criteria = .ok keys ↔
      t.requireDeclared criteria = .ok () ∧ t.stopped = false ∧
      keys = (t.select ⟨criteria, scope⟩).map (·.1) := by
  simp only [removals, bind_eq_ok_iff, requireRunning_eq_ok_iff, pure_eq_ok_iff]
  constructor
  · rintro ⟨_, hdeclared, _, hrun, rfl⟩
    exact ⟨hdeclared, hrun, rfl⟩
  · rintro ⟨hdeclared, hrun, rfl⟩
    exact ⟨(), hdeclared, (), hrun, rfl⟩

/-- A write of the status leaves the key of the current object, and any other write that of its own.
-/
theorem key_composed (subresource : Option Subresource) {current o : Object} {key : Key}
    (hcurrent : t.definition.key current = .ok key) (ho : t.definition.key o = .ok key) :
    t.definition.key (t.composed subresource current o) = .ok key := by
  cases subresource with
  | none =>
    simp only [composed]
    split
    · rw [Object.key_setStatus, ho]
    · exact ho
  | some s =>
    cases s
    simp only [composed, Object.key_setStatus, hcurrent]

theorem types_composed (subresource : Option Subresource) {current o : Object} {types : TypeMeta}
    (hcurrent : current.types = some types) (ho : o.types = some types) :
    (t.composed subresource current o).types = some types := by
  cases subresource with
  | none =>
    simp only [composed]
    split
    · exact ho
    · exact ho
  | some s =>
    cases s
    exact hcurrent

end Table

end ControlPlane
