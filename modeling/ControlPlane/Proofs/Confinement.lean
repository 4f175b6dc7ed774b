import ControlPlane.Proofs.Delivery

/-!
# Calls are confined to their scope

A write through a scope looks only at records of the scope, and marks what it stores as lying in
the scope, or refuses it. So what a call creates, replaces or removes lies in its scope before and
after, and so does every object it answers with.

* `Scope.contains_of_fault?`: what a write prepares lies in the scope.
* `Store.Work.serve_within`: the objects and the changes of a call lie in its scope.
* `Confined.replay`: records after some commits of a scope differ only in what lies in it.
* `Confined.visible_eq`: a scope that has no object in common with it sees the same records.
-/

namespace ControlPlane

/-! ## Scopes -/

namespace Scope

variable {s : Scope}

/-- A scope looks at the labels and the namespace alone. -/
theorem contains_congr {o o' : Object} (hlabels : o'.metadata.labels = o.metadata.labels)
    (hns : o'.metadata.ns = o.metadata.ns) : s.contains o' = s.contains o := by
  cases s with
  | all => rfl
  | partition p => simp only [contains, Object.labels, hlabels, hns]

@[simp] theorem contains_stamped (o : Object) (v : Version) :
    s.contains (o.stamped v) = s.contains o := contains_congr rfl rfl

@[simp] theorem contains_born (o : Object) (m : Moment) (v : Version) :
    s.contains (o.born m v) = s.contains o := contains_congr rfl rfl

@[simp] theorem contains_succeeding (o old : Object) (v : Version) :
    s.contains (o.succeeding old v) = s.contains o := contains_congr rfl rfl

/-- A marked object carries the label of the scope, with whatever value. -/
theorem get?_labels_mark (p : Partition) (o : Object) :
    ∃ value, SortedMap.get? ((partition p).mark o).labels p.label = some value := by
  by_cases h : SortedMap.has o.labels p.label = true
  · obtain ⟨value, hvalue⟩ := Option.isSome_iff_exists.mp h
    have hmark : ((partition p).mark o).labels = o.labels := if_pos h
    exact ⟨value, by rw [hmark, hvalue]⟩
  · have hmark : ((partition p).mark o).labels = SortedMap.insert o.labels p.label p.value :=
      if_neg h
    exact ⟨p.value, by rw [hmark, SortedMap.get?_insert_self]⟩

/-- What a write prepares lies in the scope. -/
theorem contains_of_fault? {kind : String} {o : Object} (h : s.fault? kind (s.mark o) = none) :
    s.contains (s.mark o) = true := by
  cases s with
  | all => rfl
  | partition p =>
    obtain ⟨value, hvalue⟩ := get?_labels_mark p o
    simp only [fault?, hvalue, Option.getD_some] at h
    by_cases hp : value = p.value
    · by_cases hns : p.allows ((partition p).mark o).metadata.ns = true
      · simp [contains, hvalue, hp, hns]
      · simp [hp, hns] at h
    · simp [hp] at h

/-- The scopes have no object in common. -/
def Disjoint (a b : Scope) : Prop := ∀ o, a.contains o = true → b.contains o = false

/-- No scope is empty: it contains an object without a namespace. -/
theorem exists_contains (s : Scope) : ∃ o, s.contains o = true := by
  cases s with
  | all => exact ⟨default, rfl⟩
  | partition p =>
    let o : Object := ⟨none, { Metadata.empty with labels := some [(p.label, p.value)] }, []⟩
    have hallows : p.allows none = true := by
      unfold Partition.allows
      split
      · contradiction
      · rfl
    exact ⟨o, by simp [o, contains, Object.labels, SortedMap.get?_cons, hallows, Metadata.empty]⟩

theorem Disjoint.ne {a b : Scope} (h : a.Disjoint b) : a ≠ b := by
  rintro rfl
  obtain ⟨o, ho⟩ := exists_contains a
  rw [h o ho] at ho
  cases ho

end Scope

theorem Selection.contains_of_selects {x : Selection} {d : Definition} {o : Object}
    (h : x.selects d o = true) : x.scope.contains o = true := (Bool.and_eq_true_iff.mp h).1

/-! ## What a call commits and answers -/

theorem Commit.mem_number {i : Nat} {d : Definition} {v : Version} {changes : List Change}
    {c : Commit} (h : c ∈ number i d v changes) : c.change ∈ changes := by
  induction changes generalizing v with
  | nil => cases h
  | cons change changes ih =>
    rcases List.mem_cons.mp h with rfl | h
    · exact List.mem_cons_self
    · exact List.mem_cons_of_mem _ (ih h)

/-- The objects of the change lie in the scope. -/
def Change.Within (scope : Scope) : Change → Prop
  | created new => scope.contains new = true
  | updated old new => scope.contains old = true ∧ scope.contains new = true
  | deleted tombstone => scope.contains tombstone = true

namespace Store

/-- The objects of an answer. -/
def Reply.objects : Reply → List Object
  | object o => [o]
  | listing l => l.items
  | watching _ => []
  | tombstones objects => objects

theorem Reply.forall_object {P : Object → Prop} {result : Except Error Object} {reply : Reply}
    (h : result.map .object = .ok reply) (hresult : ∀ o, result = .ok o → P o) :
    ∀ o ∈ reply.objects, P o := by
  obtain ⟨o, ho, rfl⟩ := map_eq_ok_iff.mp h
  intro o' ho'
  exact List.mem_singleton.mp ho' ▸ hresult o ho

/-- The objects of the answer and of the changes lie in the scope. -/
def Work.Within (scope : Scope) (t : Table) (w : Work) (reply : Reply) : Prop :=
  (∀ o ∈ reply.objects, scope.contains o = true) ∧ ∀ c ∈ w.changes t reply, c.Within scope

end Store

namespace Focus

variable {f : Focus} {scope : Scope} {m : Moment}

theorem contains_create {o new : Object} (h : (f.create scope m o).1 = .ok new) :
    scope.contains new = true ∧ (f.table.put new).Within scope := by
  obtain ⟨key, o', hd, rfl⟩ := create_eq_ok_iff.mp h
  obtain ⟨f', -, hc⟩ := create_accepted 0 hd
  obtain ⟨-, -, hfault, rfl, -, hnew⟩ := Table.creation_eq_ok_iff.mp hd
  have hin := (Scope.contains_born _ m f.version.next).trans (Scope.contains_of_fault? hfault)
  rw [Store.Work.put_created hnew hc]
  exact ⟨hin, hin⟩

theorem contains_replace (hf : Filed f.table.definition f.table.records) {verb : Verb}
    {o new : Object} {expected : Option Version} {x : Option Subresource}
    (h : (f.replace scope m verb o expected x).1 = .ok new) :
    scope.contains new = true ∧ (f.table.put new).Within scope := by
  obtain ⟨key, r, next, hd, rfl⟩ := replace_eq_ok_iff.mp h
  obtain ⟨f', -, hc⟩ := replace_accepted 0 hf verb (m := m) hd
  obtain ⟨-, -, -, -, hget, hold, hfault, rfl⟩ := Table.revision_eq_ok_iff.mp hd
  have hin := (Scope.contains_succeeding _ r.object f.version.next).trans
    (Scope.contains_of_fault? hfault)
  rw [Store.Work.put_updated hget hc]
  exact ⟨hin, hold, hin⟩

theorem contains_patch (hf : Filed f.table.definition f.table.records) {key : Key} {new : Object}
    {x : Option Subresource} {p : Patch} (h : (f.patch scope m key x p).1 = .ok new) :
    scope.contains new = true ∧ (f.table.put new).Within scope := by
  obtain ⟨o, read, -, hreplace⟩ := patch_eq_ok_iff.mp h
  exact contains_replace hf hreplace

theorem contains_delete {key : Key} {precondition : Option Version} {tombstone : Object}
    (h : (f.delete scope m key precondition).1 = .ok tombstone) :
    scope.contains tombstone = true := by
  obtain ⟨r, hd, rfl⟩ := delete_eq_ok_iff.mp h
  obtain ⟨-, -, hin, -⟩ := Table.removal_eq_ok_iff.mp hd
  exact (Scope.contains_stamped ..).trans hin

/-- What is removed are the objects of the records at the keys, at other versions. -/
theorem mem_removeAll (now : Nat) {keys : List Key} :
    ∀ f : Focus, ∀ o ∈ (f.removeAll now keys).1, ∃ key ∈ keys, ∃ r v,
      SortedMap.get? f.table.records key = some r ∧ o = r.object.stamped v := by
  induction keys with
  | nil =>
    intro f o ho
    cases ho
  | cons key keys ih =>
    intro f o ho
    cases hget : SortedMap.get? f.table.records key with
    | none =>
      simp only [removeAll, hget] at ho
      obtain ⟨k, hk, r, v, hr, rfl⟩ := ih f o ho
      exact ⟨k, List.mem_cons_of_mem _ hk, r, v, hr, rfl⟩
    | some r =>
      simp only [removeAll, hget] at ho
      rcases List.mem_cons.mp ho with rfl | ho
      · exact ⟨key, List.mem_cons_self, r, _, hget, rfl⟩
      · obtain ⟨k, hk, r', v, hr', rfl⟩ := ih (f.remove now key r).2 o ho
        have hrecords : (f.remove now key r).2.table.records =
            SortedMap.erase f.table.records key := rfl
        rw [hrecords] at hr'
        -- The records that are left are those that were there at other keys.
        by_cases hkk : k = key
        · rw [hkk, SortedMap.get?_erase_self] at hr'
          cases hr'
        · rw [SortedMap.get?_erase_of_ne _ hkk] at hr'
          exact ⟨k, List.mem_cons_of_mem _ hk, r', v, hr', rfl⟩

/-- **What a collection loses are the objects that were selected**, at other versions. -/
theorem mem_deleteCollection (hsorted : SortedMap.Sorted f.table.records) {criteria : Criteria}
    {tombstones : List Object} (h : (f.deleteCollection scope m criteria).1 = .ok tombstones) :
    ∀ o ∈ tombstones, ∃ e ∈ f.table.select ⟨criteria, scope⟩, ∃ v,
      o = e.2.object.stamped v := by
  obtain ⟨keys, hd, rfl⟩ := deleteCollection_eq_ok_iff.mp h
  obtain ⟨-, -, rfl⟩ := Table.removals_eq_ok_iff.mp hd
  intro o ho
  obtain ⟨key, hkey, r, v, hr, rfl⟩ := mem_removeAll m.now f o ho
  obtain ⟨e, he, rfl⟩ := List.mem_map.mp hkey
  have hget := SortedMap.get?_of_mem hsorted (List.mem_filter.mp he).1
  obtain rfl := Option.some.inj (hget.symm.trans hr)
  exact ⟨e, he, v, rfl⟩

theorem contains_deleteCollection (hsorted : SortedMap.Sorted f.table.records)
    {criteria : Criteria} {tombstones : List Object}
    (h : (f.deleteCollection scope m criteria).1 = .ok tombstones) :
    ∀ o ∈ tombstones, scope.contains o = true := by
  intro o ho
  obtain ⟨e, he, v, rfl⟩ := mem_deleteCollection hsorted h o ho
  exact (Scope.contains_stamped ..).trans
    (Selection.contains_of_selects (List.mem_filter.mp he).2)

end Focus

namespace Store.Work

variable {f : Focus} {scope : Scope} {m : Moment}

theorem within_put {w : Work} {result : Except Error Object} {reply : Reply}
    (hchanges : ∀ o, w.changes f.table (.object o) = [f.table.put o])
    (h : result.map .object = .ok reply)
    (hresult : ∀ o, result = .ok o →
      scope.contains o = true ∧ (f.table.put o).Within scope) :
    w.Within scope f.table reply := by
  obtain ⟨o, ho, rfl⟩ := map_eq_ok_iff.mp h
  obtain ⟨hin, hput⟩ := hresult o ho
  refine ⟨?_, ?_⟩
  · intro o' ho'
    obtain rfl := List.mem_singleton.mp ho'
    exact hin
  · intro c hc
    rw [hchanges] at hc
    obtain rfl := List.mem_singleton.mp hc
    exact hput

theorem within_read {w : Work} {reply : Reply} (hchanges : w.changes f.table reply = [])
    (hobjects : ∀ o ∈ reply.objects, scope.contains o = true) : w.Within scope f.table reply := by
  refine ⟨hobjects, fun c hc => ?_⟩
  rw [hchanges] at hc
  cases hc

theorem within_removed {w : Work} {reply : Reply}
    (hchanges : w.changes f.table reply = reply.objects.map .deleted)
    (hobjects : ∀ o ∈ reply.objects, scope.contains o = true) : w.Within scope f.table reply := by
  refine ⟨hobjects, fun c hc => ?_⟩
  rw [hchanges] at hc
  obtain ⟨o, ho, rfl⟩ := List.mem_map.mp hc
  exact hobjects o ho

/-- **What a call answers and commits lies in its scope.** -/
theorem serve_within (hf : ControlPlane.Filed f.table.definition f.table.records)
    (hsorted : SortedMap.Sorted f.table.records) {w : Work} {reply : Reply}
    (h : (w.serve scope m f).1 = .ok reply) : w.Within scope f.table reply := by
  cases w with
  | writeBack o read x => exact within_put (fun _ => rfl) h fun _ => Focus.contains_replace hf
  | request r =>
    cases r with
    | create o => exact within_put (fun _ => rfl) h fun _ => Focus.contains_create
    | get key =>
      obtain ⟨o, ho, rfl⟩ := map_eq_ok_iff.mp h
      obtain ⟨r, hr, rfl⟩ := map_eq_ok_iff.mp ho
      refine within_read rfl fun o ho => ?_
      obtain rfl := List.mem_singleton.mp ho
      exact (Table.record_eq_ok_iff.mp hr).2
    | list criteria =>
      obtain ⟨l, hl, rfl⟩ := map_eq_ok_iff.mp h
      obtain ⟨-, rfl⟩ := list_eq_ok_iff.mp hl
      refine within_read rfl fun o ho => ?_
      obtain ⟨e, he, rfl⟩ := List.mem_map.mp ho
      exact Selection.contains_of_selects (List.mem_filter.mp he).2
    | watch criteria since timeout =>
      obtain ⟨id, -, rfl⟩ := map_eq_ok_iff.mp h
      exact within_read rfl (List.forall_mem_nil _)
    | update o expected subresource =>
      obtain ⟨x, -, hx⟩ := serve_update_ok h
      exact within_put (fun _ => rfl) hx fun _ => Focus.contains_replace hf
    | patch key subresource p =>
      obtain ⟨x, -, hx⟩ := serve_patch_ok h
      exact within_put (fun _ => rfl) hx fun _ => Focus.contains_patch hf
    | delete key precondition =>
      obtain ⟨o, ho, rfl⟩ := map_eq_ok_iff.mp h
      refine within_removed rfl fun o' ho' => ?_
      obtain rfl := List.mem_singleton.mp ho'
      exact Focus.contains_delete ho
    | deleteCollection criteria =>
      obtain ⟨tombstones, ho, rfl⟩ := map_eq_ok_iff.mp h
      exact within_removed rfl (Focus.contains_deleteCollection hsorted ho)

end Store.Work

/-! ## Records -/

/-- The records are the same but for what lies in the scope, before and after. -/
def Confined (scope : Scope) (records records' : SortedMap Key Record) : Prop :=
  ∀ key, SortedMap.get? records' key = SortedMap.get? records key ∨
    (∀ r, SortedMap.get? records key = some r → scope.contains r.object = true) ∧
    ∀ r, SortedMap.get? records' key = some r → scope.contains r.object = true

/-- The records that are visible through a scope. -/
def Table.visible (t : Table) (scope : Scope) : SortedMap Key Record :=
  t.records.filter fun e => scope.contains e.2.object

/-- A key shows what it shows among the visible records. -/
theorem Table.visible?_eq_get? {t : Table} (hsorted : SortedMap.Sorted t.records) (scope : Scope)
    (key : Key) : t.visible? scope key = SortedMap.get? (t.visible scope) key :=
  (SortedMap.get?_filter hsorted (fun r => scope.contains r.object) key).symm

/-- A selection through a scope selects from the visible records. -/
theorem Table.select_eq_filter (t : Table) (criteria : Criteria) (scope : Scope) :
    t.select ⟨criteria, scope⟩ =
      (t.visible scope).filter fun e => criteria.matches (t.definition.subject e.2.object) := by
  rw [visible, List.filter_filter, select]
  refine List.filter_congr ?_
  intro e _
  rw [Selection.selects, Bool.and_comm]

namespace Confined

variable {a b : Scope} {records records' records'' : SortedMap Key Record}

theorem refl (a : Scope) (records : SortedMap Key Record) : Confined a records records :=
  fun _ => Or.inl rfl

theorem trans (h : Confined a records records') (h' : Confined a records' records'') :
    Confined a records records'' := by
  intro key
  rcases h key with heq | ⟨hold, hnew⟩
  · rcases h' key with heq' | ⟨hold', hnew'⟩
    · exact Or.inl (heq'.trans heq)
    · exact Or.inr ⟨heq ▸ hold', hnew'⟩
  · rcases h' key with heq' | ⟨-, hnew'⟩
    · exact Or.inr ⟨hold, heq' ▸ hnew⟩
    · exact Or.inr ⟨hold, hnew'⟩

/-- One commit that lies in the scope. -/
theorem write {d : Definition} {c : Commit} (hfits : c.Fits d records)
    (hin : c.change.Within a) : Confined a records (c.write records) := by
  intro key
  by_cases hkey : key = c.key
  · subst hkey
    right
    rw [Commit.get?_write_self]
    obtain ⟨table, key, version, change⟩ := c
    replace hfits : change.Fits d records version key := hfits
    cases hfits with
    | created hnone _ =>
      refine ⟨?_, ?_⟩
      · intro r hr
        rw [hnone] at hr
        cases hr
      · intro r hr
        obtain rfl := Option.some.inj hr
        exact hin
    | updated hget _ =>
      refine ⟨?_, ?_⟩
      · intro r hr
        obtain rfl := Option.some.inj (hget.symm.trans hr)
        exact hin.1
      · intro r hr
        obtain rfl := Option.some.inj hr
        exact hin.2
    | deleted hget _ =>
      refine ⟨?_, ?_⟩
      · intro r hr
        obtain rfl := Option.some.inj (hget.symm.trans hr)
        exact (Scope.contains_stamped ..).symm.trans hin
      · intro r hr
        cases hr
  · exact Or.inl (Commit.get?_write_of_ne records c hkey)

theorem replay {d : Definition} {log : List Commit} (hlegal : Legal d records log)
    (hin : ∀ c ∈ log, c.change.Within a) : Confined a records (replay records log) := by
  induction log generalizing records with
  | nil => exact .refl a records
  | cons c log ih =>
    have hfirst : Confined a records (c.write records) := write hlegal.1 (hin c List.mem_cons_self)
    exact hfirst.trans (ih hlegal.2 fun c' hc' => hin c' (List.mem_cons_of_mem c hc'))

/-- A scope that has no object in common with the one that changed sees the same records. -/
theorem visible_eq {t t' : Table} (h : Confined a t.records t'.records) (hab : a.Disjoint b)
    (hsorted : SortedMap.Sorted t.records) (hsorted' : SortedMap.Sorted t'.records) :
    t'.visible b = t.visible b := by
  refine SortedMap.ext (SortedMap.sorted_filter hsorted' _) (SortedMap.sorted_filter hsorted _) ?_
  intro key
  have hidden (r? : Option Record) (hr : ∀ r, r? = some r → a.contains r.object = true) :
      r?.filter (fun r => b.contains r.object) = none := by
    cases r? with
    | none => rfl
    | some r => simp [Option.filter, hab r.object (hr r rfl)]
  rw [← Table.visible?_eq_get? hsorted' b key, ← Table.visible?_eq_get? hsorted b key,
    Table.visible?, Table.visible?]
  rcases h key with heq | ⟨hold, hnew⟩
  · rw [heq]
  · rw [hidden _ hnew, hidden _ hold]

end Confined

end ControlPlane
