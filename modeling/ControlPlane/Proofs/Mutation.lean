import ControlPlane.Proofs.Broadcast
import ControlPlane.Proofs.Decision

/-!
# What a mutation does

A mutation that is refused leaves everything as it was, and one that succeeds enters its commits,
one after the other, and does nothing else. `Focus.Commits` is that, and every later fact about
mutations is read off it.

* `Focus.create_accepted`, `Focus.replace_accepted`, `Focus.delete_accepted`: a mutation that passes
  its checks answers with the object it commits.
* `Focus.create_eq_ok_iff`, `Focus.replace_eq_ok_iff`, `Focus.patch_eq_ok_iff`,
  `Focus.delete_eq_ok_iff`, `Focus.deleteCollection_eq_ok_iff`: a mutation answers exactly if it
  passes its checks.
* `Focus.create_spec`, `Focus.replace_spec`, `Focus.patch_spec`, `Focus.delete_spec`,
  `Focus.deleteCollection_spec`: each mutation is a refusal or a run of legal commits, and its
  answer tells which.
-/

namespace ControlPlane

namespace Focus

/-- The focus after a commit. -/
def enter (f : Focus) (now : Nat) (verb : Verb) (c : Commit) : Focus :=
  f.commit now verb (c.write f.table.records) c.change

section Enter

variable (f : Focus) (now : Nat) (verb : Verb) (c : Commit)

@[simp] theorem enter_definition : (f.enter now verb c).table.definition = f.table.definition := rfl

@[simp] theorem enter_records : (f.enter now verb c).table.records = c.write f.table.records := rfl

@[simp] theorem enter_nextWatch : (f.enter now verb c).table.nextWatch = f.table.nextWatch := rfl

@[simp] theorem enter_stopped : (f.enter now verb c).table.stopped = f.table.stopped := rfl

@[simp] theorem enter_history :
    (f.enter now verb c).table.history = f.table.history.push f.version.next c.change := rfl

@[simp] theorem enter_limits : (f.enter now verb c).limits = f.limits := rfl

@[simp] theorem enter_version : (f.enter now verb c).version = f.version.next := rfl

@[simp] theorem enter_watches :
    (f.enter now verb c).table.watches =
      f.table.watches.map fun w =>
        (w.receive f.table.definition f.limits.queueCapacity now f.version.next c.change).1 := by
  simp only [enter, commit, broadcast_eq, List.map_map]
  rfl

end Enter

/-- The focus enters some commits, each of which gets the next version and fits what is there. -/
inductive Commits (i now : Nat) (verb : Verb) : Focus → List Commit → Focus → Prop
  | nil (f : Focus) : Commits i now verb f [] f
  | cons {f f' : Focus} {c : Commit} {log : List Commit} :
      c.table = i → c.version = f.version.next →
      c.Fits f.table.definition f.table.records → Commits i now verb (f.enter now verb c) log f' →
      Commits i now verb f (c :: log) f'

namespace Commits

variable {i now : Nat} {verb : Verb} {f f' : Focus} {log : List Commit}

theorem single {c : Commit} (htable : c.table = i) (hversion : c.version = f.version.next)
    (hfits : c.Fits f.table.definition f.table.records) :
    Commits i now verb f [c] (f.enter now verb c) := .cons htable hversion hfits (.nil _)

theorem definition_eq (h : Commits i now verb f log f') :
    f'.table.definition = f.table.definition := by
  induction h with
  | nil => rfl
  | cons _ _ _ _ ih => exact ih

theorem limits_eq (h : Commits i now verb f log f') : f'.limits = f.limits := by
  induction h with
  | nil => rfl
  | cons _ _ _ _ ih => exact ih

theorem stopped_eq (h : Commits i now verb f log f') : f'.table.stopped = f.table.stopped := by
  induction h with
  | nil => rfl
  | cons _ _ _ _ ih => exact ih

theorem records_eq (h : Commits i now verb f log f') :
    f'.table.records = replay f.table.records log := by
  induction h with
  | nil => rfl
  | cons _ _ _ _ ih => exact ih

theorem legal (h : Commits i now verb f log f') :
    Legal f.table.definition f.table.records log := by
  induction h with
  | nil => exact trivial
  | cons _ _ hfits _ ih => exact ⟨hfits, ih⟩

theorem table_eq (h : Commits i now verb f log f') : ∀ c ∈ log, c.table = i := by
  induction h with
  | nil =>
    intro c hc
    cases hc
  | cons htable _ _ _ ih =>
    intro c hc
    rcases List.mem_cons.mp hc with rfl | hc
    · exact htable
    · exact ih c hc

/-- The commits get the versions that follow the current one. -/
theorem versions_eq (h : Commits i now verb f log f') :
    log.map (·.version) = List.range' (f.version + 1) log.length := by
  induction h with
  | nil => rfl
  | cons _ hversion _ _ ih =>
    rw [List.map_cons, ih, List.length_cons, List.range'_succ, hversion]
    rfl

theorem version_eq (h : Commits i now verb f log f') : f'.version = f.version + log.length := by
  induction h with
  | nil => rfl
  | cons _ _ _ _ ih =>
    rw [ih, List.length_cons, enter_version, Version.next]
    exact Nat.add_right_comm ..

theorem retains (h : Commits i now verb f log f') {entries : List (Version × Change)}
    (hr : f.table.history.Retains entries) :
    f'.table.history.Retains (entries ++ log.map fun c => (c.version, c.change)) := by
  induction h generalizing entries with
  | nil => simpa using hr
  | cons _ hversion _ _ ih =>
    have := ih (hr.push _ _)
    rwa [List.append_assoc, List.singleton_append, ← hversion] at this

end Commits

/-! ## The mutations -/

variable {f f' : Focus} {scope : Scope} {m : Moment}

theorem create_refused {o : Object} {e : Error}
    (h : f.table.creation scope m.suffix o = .error e) : f.create scope m o = (.error e, f) := by
  simp only [create, h]

theorem create_accepted (i : Nat) {o o' : Object} {key : Key}
    (h : f.table.creation scope m.suffix o = .ok (key, o')) :
    ∃ f', f.create scope m o = (.ok (o'.born m f.version.next), f') ∧
      Commits i m.now .create f
        [⟨i, key, f.version.next, .created (o'.born m f.version.next)⟩] f' := by
  obtain ⟨hvalid, hkey, -, rfl, -, hnew⟩ := Table.creation_eq_ok_iff.mp h
  have htypes := Definition.types_eq_of_validate hvalid (Object.types_typedAs o _)
  refine ⟨_, by simp only [create, h]; rfl, .single rfl rfl (.created hnew (.born ?_ ?_ m _))⟩
  · rw [Scope.key_mark, hkey]
  · rw [Scope.types_mark, Object.types_named, Object.types_typedAs, htypes]

theorem create_eq_ok_iff {o new : Object} :
    (f.create scope m o).1 = .ok new ↔
      ∃ key o', f.table.creation scope m.suffix o = .ok (key, o') ∧
        new = o'.born m f.version.next := by
  cases hd : f.table.creation scope m.suffix o with
  | error e => simp [create_refused hd]
  | ok p =>
    obtain ⟨key, o'⟩ := p
    simp [create, hd, eq_comm, and_assoc]

theorem create_spec (i : Nat) {o : Object} {result : Except Error Object}
    (h : f.create scope m o = (result, f')) :
    (∃ e, result = .error e ∧ f' = f) ∨
    ∃ new key, result = .ok new ∧ SortedMap.get? f.table.records key = none ∧
      Commits i m.now .create f [⟨i, key, f.version.next, .created new⟩] f' := by
  cases hd : f.table.creation scope m.suffix o with
  | error e =>
    obtain ⟨rfl, rfl⟩ := Prod.mk.inj (h.symm.trans (create_refused hd))
    exact Or.inl ⟨e, rfl, rfl⟩
  | ok p =>
    obtain ⟨f'', hcreate, hc⟩ := create_accepted i hd
    obtain ⟨rfl, rfl⟩ := Prod.mk.inj (h.symm.trans hcreate)
    obtain ⟨-, -, -, -, -, hnew⟩ := Table.creation_eq_ok_iff.mp hd
    exact Or.inr ⟨_, _, rfl, hnew, hc⟩

theorem replace_refused {verb : Verb} {o : Object} {expected : Option Version}
    {subresource : Option Subresource} {e : Error}
    (h : f.table.revision scope o expected subresource = .error e) :
    f.replace scope m verb o expected subresource = (.error e, f) := by
  simp only [replace, h]

theorem replace_accepted (i : Nat) (hf : Filed f.table.definition f.table.records) (verb : Verb)
    {o next : Object} {expected : Option Version} {subresource : Option Subresource} {key : Key}
    {r : Record} (h : f.table.revision scope o expected subresource = .ok (key, r, next)) :
    ∃ f', f.replace scope m verb o expected subresource =
        (.ok (next.succeeding r.object f.version.next), f') ∧
      Commits i m.now verb f [⟨i, key, f.version.next,
        .updated r.object (next.succeeding r.object f.version.next)⟩] f' := by
  obtain ⟨hvalid, hkey, -, -, hget, -, -, rfl⟩ := Table.revision_eq_ok_iff.mp h
  have htypes := Definition.types_eq_of_validate hvalid (Object.types_typedAs o _)
  have hcurrent := hf key r hget
  refine ⟨_, by simp only [replace, h]; rfl,
    .single rfl rfl (.updated hget (.succeeding ?_ ?_ r.object _))⟩
  · rw [Scope.key_mark]
    exact Table.key_composed subresource hcurrent.key_eq hkey
  · rw [Scope.types_mark]
    exact Table.types_composed subresource hcurrent.types_eq
      ((Object.types_typedAs o _).trans (congrArg some htypes))

theorem replace_eq_ok_iff {verb : Verb} {o new : Object} {expected : Option Version}
    {subresource : Option Subresource} :
    (f.replace scope m verb o expected subresource).1 = .ok new ↔
      ∃ key r next, f.table.revision scope o expected subresource = .ok (key, r, next) ∧
        new = next.succeeding r.object f.version.next := by
  cases hd : f.table.revision scope o expected subresource with
  | error e => simp [replace_refused hd]
  | ok p =>
    obtain ⟨key, r, next⟩ := p
    simp [replace, hd, eq_comm, and_assoc]

theorem replace_spec (i : Nat) (hf : Filed f.table.definition f.table.records) {verb : Verb}
    {o : Object} {expected : Option Version} {subresource : Option Subresource}
    {result : Except Error Object}
    (h : f.replace scope m verb o expected subresource = (result, f')) :
    (∃ e, result = .error e ∧ f' = f) ∨
    ∃ new key r, result = .ok new ∧ SortedMap.get? f.table.records key = some r ∧
      Commits i m.now verb f [⟨i, key, f.version.next, .updated r.object new⟩] f' := by
  cases hd : f.table.revision scope o expected subresource with
  | error e =>
    obtain ⟨rfl, rfl⟩ := Prod.mk.inj (h.symm.trans (replace_refused hd))
    exact Or.inl ⟨e, rfl, rfl⟩
  | ok p =>
    obtain ⟨f'', hreplace, hc⟩ := replace_accepted i hf verb hd
    obtain ⟨rfl, rfl⟩ := Prod.mk.inj (h.symm.trans hreplace)
    obtain ⟨-, -, -, -, hget, -⟩ := Table.revision_eq_ok_iff.mp hd
    exact Or.inr ⟨_, _, _, rfl, hget, hc⟩

theorem patch_refused {key : Key} {subresource : Option Subresource} {p : Patch} {e : Error}
    (h : f.patched scope m key subresource p = .error e) :
    f.patch scope m key subresource p = (.error e, f) := by
  simp only [patch, h]

theorem patch_computed {key : Key} {subresource : Option Subresource} {p : Patch} {o : Object}
    {read : Version} (h : f.patched scope m key subresource p = .ok (o, read)) :
    f.patch scope m key subresource p = f.replace scope m .patch o (some read) subresource := by
  simp only [patch, h]

theorem patch_eq_ok_iff {key : Key} {subresource : Option Subresource} {p : Patch} {new : Object} :
    (f.patch scope m key subresource p).1 = .ok new ↔
      ∃ o read, f.patched scope m key subresource p = .ok (o, read) ∧
        (f.replace scope m .patch o (some read) subresource).1 = .ok new := by
  cases hd : f.patched scope m key subresource p with
  | error e => simp [patch_refused hd]
  | ok q =>
    obtain ⟨o, read⟩ := q
    simp [patch_computed hd, and_assoc]

theorem patch_spec (i : Nat) (hf : Filed f.table.definition f.table.records) {key : Key}
    {subresource : Option Subresource} {p : Patch} {result : Except Error Object}
    (h : f.patch scope m key subresource p = (result, f')) :
    (∃ e, result = .error e ∧ f' = f) ∨
    ∃ new key r, result = .ok new ∧ SortedMap.get? f.table.records key = some r ∧
      Commits i m.now .patch f [⟨i, key, f.version.next, .updated r.object new⟩] f' := by
  cases hd : f.patched scope m key subresource p with
  | error e =>
    obtain ⟨rfl, rfl⟩ := Prod.mk.inj (h.symm.trans (patch_refused hd))
    exact Or.inl ⟨e, rfl, rfl⟩
  | ok q => exact replace_spec i hf ((patch_computed hd).symm.trans h)

/-- The commit that removes a record. -/
theorem remove_spec (i now : Nat) (hf : Filed f.table.definition f.table.records) {key : Key}
    {r : Record} (hget : SortedMap.get? f.table.records key = some r) :
    Commits i now .delete f [⟨i, key, f.version.next, .deleted (f.remove now key r).1⟩]
      (f.remove now key r).2 :=
  .single rfl rfl (.deleted hget ((hf key r hget).stamped _))

theorem delete_refused {key : Key} {precondition : Option Version} {e : Error}
    (h : f.table.removal scope key precondition = .error e) :
    f.delete scope m key precondition = (.error e, f) := by
  simp only [delete, h]

theorem delete_accepted (i : Nat) (hf : Filed f.table.definition f.table.records) {key : Key}
    {precondition : Option Version} {r : Record}
    (h : f.table.removal scope key precondition = .ok r) :
    ∃ f', f.delete scope m key precondition = (.ok (r.object.stamped f.version.next), f') ∧
      Commits i m.now .delete f
        [⟨i, key, f.version.next, .deleted (r.object.stamped f.version.next)⟩] f' := by
  obtain ⟨-, hget, -, -⟩ := Table.removal_eq_ok_iff.mp h
  exact ⟨_, by simp only [delete, h]; rfl, remove_spec i m.now hf hget⟩

theorem delete_eq_ok_iff {key : Key} {precondition : Option Version} {tombstone : Object} :
    (f.delete scope m key precondition).1 = .ok tombstone ↔
      ∃ r, f.table.removal scope key precondition = .ok r ∧
        tombstone = r.object.stamped f.version.next := by
  cases hd : f.table.removal scope key precondition with
  | error e => simp [delete_refused hd]
  | ok r => simp [delete, remove, hd, eq_comm]

theorem delete_spec (i : Nat) (hf : Filed f.table.definition f.table.records) {key : Key}
    {precondition : Option Version} {result : Except Error Object}
    (h : f.delete scope m key precondition = (result, f')) :
    (∃ e, result = .error e ∧ f' = f) ∨
    ∃ tombstone, result = .ok tombstone ∧
      Commits i m.now .delete f [⟨i, key, f.version.next, .deleted tombstone⟩] f' := by
  cases hd : f.table.removal scope key precondition with
  | error e =>
    obtain ⟨rfl, rfl⟩ := Prod.mk.inj (h.symm.trans (delete_refused hd))
    exact Or.inl ⟨e, rfl, rfl⟩
  | ok r =>
    obtain ⟨f'', hdelete, hc⟩ := delete_accepted i hf hd
    obtain ⟨rfl, rfl⟩ := Prod.mk.inj (h.symm.trans hdelete)
    exact Or.inr ⟨_, rfl, hc⟩

theorem removeAll_spec (i now : Nat) (keys : List Key) :
    ∀ f : Focus, Filed f.table.definition f.table.records →
      ∃ log, Commits i now .delete f log (f.removeAll now keys).2 ∧
        log.map (·.change) = (f.removeAll now keys).1.map .deleted := by
  induction keys with
  | nil => exact fun f _ => ⟨[], .nil f, rfl⟩
  | cons key keys ih =>
    intro f hf
    cases hget : SortedMap.get? f.table.records key with
    | none =>
      simp only [removeAll, hget]
      exact ih f hf
    | some r =>
      simp only [removeAll, hget]
      have hone := remove_spec i now hf hget
      obtain ⟨log, hlog, hmap⟩ := ih (f.remove now key r).2 (hf.erase key)
      cases hone with
      | cons htable hversion hfits _ =>
        exact ⟨_ :: log, .cons htable hversion hfits hlog, by rw [List.map_cons, hmap]; rfl⟩

theorem deleteCollection_eq_ok_iff {criteria : Criteria} {tombstones : List Object} :
    (f.deleteCollection scope m criteria).1 = .ok tombstones ↔
      ∃ keys, f.table.removals scope criteria = .ok keys ∧
        tombstones = (f.removeAll m.now keys).1 := by
  cases hd : f.table.removals scope criteria with
  | error e => simp [deleteCollection, hd]
  | ok keys => simp [deleteCollection, hd, eq_comm]

theorem deleteCollection_spec (i : Nat) (hf : Filed f.table.definition f.table.records)
    {criteria : Criteria} {result : Except Error (List Object)}
    (h : f.deleteCollection scope m criteria = (result, f')) :
    (∃ e, result = .error e ∧ f' = f) ∨
    ∃ tombstones log, result = .ok tombstones ∧ Commits i m.now .delete f log f' ∧
      log.map (·.change) = tombstones.map .deleted := by
  unfold deleteCollection at h
  cases hd : f.table.removals scope criteria with
  | error e =>
    simp only [hd, Prod.mk.injEq] at h
    exact Or.inl ⟨e, h.1.symm, h.2.symm⟩
  | ok keys =>
    simp only [hd, Prod.mk.injEq] at h
    obtain ⟨rfl, rfl⟩ := h
    obtain ⟨log, hlog, hmap⟩ := removeAll_spec i m.now keys f hf
    exact Or.inr ⟨_, log, rfl, hlog, hmap⟩

end Focus

end ControlPlane
