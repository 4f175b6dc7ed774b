import ControlPlane.Proofs.Cache

/-!
# Deleting a collection

The deletion of a collection is one call, but not one mutation: it is a list of what the criteria
select and then the deletion of each object of that list, in its order. Nothing tells the two apart:
the records, the history, the versions, the counters and the watches are left the same, even where a
deletion on the way drops a change from the history or closes a watch.

* `Focus.removeAll_fst`, `Focus.removeAll_records`: what is removed, and what is left.
* `Focus.removeAll_select`: what criteria select is removed, and they select nothing then.
* `Store.run_deletions`: deletions one by one do what the removal of all does.
* `Store.deleteCollection_refines`: the deletion of a collection, by the list and the deletions.
-/

namespace ControlPlane

/-- Objects at the versions that follow one. -/
def Object.restamped (objects : List Object) (v : Version) : List Object :=
  objects.mapIdx fun j o => o.stamped (v + 1 + j)

namespace Object

theorem restamped_cons (o : Object) (objects : List Object) (v : Version) :
    restamped (o :: objects) v = o.stamped v.next :: restamped objects v.next := by
  rw [restamped, List.mapIdx_cons]
  refine congrArg _ (congrArg (List.mapIdx · objects) (funext fun j => funext fun o => ?_))
  exact congrArg o.stamped (Nat.succ_add_eq_add_succ (v + 1) j).symm

end Object

/-! ## Records that are removed -/

/-- The entries are in the records, each at a key of its own. -/
structure Listed (records : SortedMap Key Record) (entries : List (Key × Record)) : Prop where
  nodup : (entries.map (·.1)).Nodup
  get?_eq : ∀ e ∈ entries, SortedMap.get? records e.1 = some e.2

namespace Listed

variable {records : SortedMap Key Record} {e : Key × Record} {entries : List (Key × Record)}

theorem head (h : Listed records (e :: entries)) : SortedMap.get? records e.1 = some e.2 :=
  h.get?_eq e List.mem_cons_self

/-- Once the first of them is removed, the others are still there. -/
theorem tail (h : Listed records (e :: entries)) :
    Listed (SortedMap.erase records e.1) entries where
  nodup := (List.nodup_cons.mp h.nodup).2
  get?_eq := by
    intro e' he'
    have hne : e'.1 ≠ e.1 := fun heq =>
      (List.nodup_cons.mp h.nodup).1 (List.mem_map.mpr ⟨e', he', heq⟩)
    rw [SortedMap.get?_erase_of_ne _ hne]
    exact h.get?_eq e' (List.mem_cons_of_mem e he')

end Listed

/-- The records that a selection contains are in the table. -/
theorem Table.listed_select {t : Table} (hsorted : SortedMap.Sorted t.records) (x : Selection) :
    Listed t.records (t.select x) where
  nodup := by
    have hkeys : (t.select x).Pairwise fun a b => compare a.1 b.1 = .lt := hsorted.filter _
    refine List.pairwise_map.mpr (hkeys.imp fun {a b} hlt heq => ?_)
    have hself : compare b.1 b.1 = .eq := Std.ReflCmp.compare_self
    rw [heq, hself] at hlt
    cases hlt
  get?_eq := fun _ he => SortedMap.get?_of_mem hsorted (List.mem_filter.mp he).1

namespace Focus

variable {f : Focus} {now : Nat}

theorem removeAll_cons {key : Key} {keys : List Key} {r : Record}
    (hget : SortedMap.get? f.table.records key = some r) :
    f.removeAll now (key :: keys) =
      ((f.remove now key r).1 :: ((f.remove now key r).2.removeAll now keys).1,
        ((f.remove now key r).2.removeAll now keys).2) := by
  simp only [removeAll, hget]

/-- **What is removed are the objects, each at the version of its removal.** -/
theorem removeAll_fst {entries : List (Key × Record)} (h : Listed f.table.records entries) :
    (f.removeAll now (entries.map (·.1))).1 =
      Object.restamped (entries.map (·.2.object)) f.version := by
  induction entries generalizing f with
  | nil => rfl
  | cons e entries ih =>
    rw [List.map_cons, removeAll_cons h.head, List.map_cons, Object.restamped_cons]
    exact congrArg _ (ih (f := (f.remove now e.1 e.2).2) h.tail)

/-- **What is left are the records at the other keys.** -/
theorem removeAll_records {entries : List (Key × Record)} (h : Listed f.table.records entries) :
    (f.removeAll now (entries.map (·.1))).2.table.records =
      f.table.records.filter fun e => e.1 ∉ entries.map (·.1) := by
  induction entries generalizing f with
  | nil => exact (List.filter_eq_self.mpr fun _ _ => by simp).symm
  | cons e entries ih =>
    rw [List.map_cons, removeAll_cons h.head, ih (f := (f.remove now e.1 e.2).2) h.tail]
    rw [show (f.remove now e.1 e.2).2.table.records = SortedMap.erase f.table.records e.1 from rfl,
      SortedMap.erase, List.filter_filter]
    simp only [List.mem_cons, not_or, Bool.decide_and, Bool.and_comm]

theorem removeAll_definition {entries : List (Key × Record)}
    (h : Listed f.table.records entries) :
    (f.removeAll now (entries.map (·.1))).2.table.definition = f.table.definition := by
  induction entries generalizing f with
  | nil => rfl
  | cons e entries ih =>
    rw [List.map_cons, removeAll_cons h.head]
    exact ih (f := (f.remove now e.1 e.2).2) h.tail

/-- **Once what a selection contains is removed, it contains nothing.** -/
theorem removeAll_select (hsorted : SortedMap.Sorted f.table.records) (now : Nat) (x : Selection) :
    ∃ f', f.removeAll now ((f.table.select x).map (·.1)) =
        (Object.restamped ((f.table.select x).map (·.2.object)) f.version, f') ∧
      f'.table.definition = f.table.definition ∧ f'.table.select x = [] := by
  have hlisted := Table.listed_select hsorted x
  refine ⟨_, Prod.ext (removeAll_fst hlisted) rfl, removeAll_definition hlisted, ?_⟩
  rw [Table.select, removeAll_definition hlisted, removeAll_records hlisted]
  refine List.filter_eq_nil_iff.mpr fun e he hselects => ?_
  obtain ⟨hrecord, hkept⟩ := List.mem_filter.mp he
  exact of_decide_eq_true hkept (List.mem_map_of_mem (List.mem_filter.mpr ⟨hrecord, hselects⟩))

end Focus

/-! ## Deletions one by one -/

namespace Store

variable {s : Store} {log : List Commit} {i : Nat} {t : Table} {kind : String} {scope : Scope}

/-- The deletion of an object, whatever its version. -/
def deletion (kind : String) (scope : Scope) (m : Moment) (key : Key) : Action :=
  .call kind scope m (.request (.delete key none))

/-- A deletion removes what is there and visible. -/
theorem act_deletion (hfind : s.find kind = .ok i) (ht : s.tables[i]? = some t)
    (hrunning : t.stopped = false) {key : Key} {r : Record}
    (hget : SortedMap.get? t.records key = some r) (hvisible : scope.contains r.object = true)
    (m : Moment) :
    s.act (deletion kind scope m key) =
      (.answer (.ok (.object ((s.focus t).remove m.now key r).1)),
        s.absorb i ((s.focus t).remove m.now key r).2) := by
  have hremoval : (s.focus t).table.removal scope key none = .ok r :=
    Table.removal_eq_ok_iff.mpr ⟨hrunning, hget, hvisible, fun _ h => by cases h⟩
  have hdelete : (s.focus t).delete scope m key none =
      (.ok ((s.focus t).remove m.now key r).1, ((s.focus t).remove m.now key r).2) := by
    simp only [Focus.delete, hremoval]
  rw [deletion, act_call hfind ht]
  simp only [Work.serve, serve, hdelete]
  rfl

theorem absorb_absorb (s : Store) (i : Nat) (f f' : Focus) :
    (s.absorb i f).absorb i f' = s.absorb i f' := by
  simp only [absorb, List.set_set]

theorem focus_absorb (i : Nat) {f : Focus} (hlimits : f.limits = s.limits) :
    (s.absorb i f).focus f.table = f := by
  rw [absorb, focus, ← hlimits]

/-- **Deletions one by one do what the removal of all does.** -/
theorem run_deletions (hs : s.Follows log) (hfind : s.find kind = .ok i)
    (ht : s.tables[i]? = some t) (hrunning : t.stopped = false) {moment : Key → Moment} {now : Nat}
    (hnow : ∀ key, (moment key).now = now) {entries : List (Key × Record)}
    (hlisted : Listed t.records entries)
    (hvisible : ∀ e ∈ entries, scope.contains e.2.object = true) :
    s.run ((entries.map (·.1)).map fun key => deletion kind scope (moment key) key) =
        s.absorb i ((s.focus t).removeAll now (entries.map (·.1))).2 ∧
      s.outcomes ((entries.map (·.1)).map fun key => deletion kind scope (moment key) key) =
        ((s.focus t).removeAll now (entries.map (·.1))).1.map fun o =>
          .answer (.ok (.object o)) := by
  induction entries generalizing s t log with
  | nil => exact ⟨(absorb_focus ht).symm, rfl⟩
  | cons e entries ih =>
    have hfirst := act_deletion hfind ht hrunning hlisted.head (hvisible e List.mem_cons_self)
      (moment e.1)
    have hs' := hs.act (deletion kind scope (moment e.1) e.1)
    have hkinds := sameKinds_act hs (deletion kind scope (moment e.1) e.1)
    rw [hnow] at hfirst
    rw [hfirst] at hs' hkinds
    have hrest := ih hs' ((hkinds.find_eq kind).trans hfind) (tables_absorb_self ht _) hrunning
      hlisted.tail fun e' he' => hvisible e' (List.mem_cons_of_mem e he')
    rw [focus_absorb i rfl, absorb_absorb] at hrest
    simp only [List.map_cons, run_cons, outcomes, hfirst]
    rw [Focus.removeAll_cons (f := s.focus t) hlisted.head, List.map_cons, hrest.1, hrest.2]
    exact ⟨rfl, rfl⟩

/-- The table of a kind is at the position of the kind. -/
theorem of_table_eq_ok (h : s.table kind = .ok t) :
    ∃ i, s.find kind = .ok i ∧ s.tables[i]? = some t := by
  simp only [table, bind_eq_ok_iff] at h
  obtain ⟨i, hfind, h⟩ := h
  refine ⟨i, hfind, ?_⟩
  cases ht : s.tables[i]? with
  | none =>
    rw [ht] at h
    cases h
  | some t' =>
    rw [ht] at h
    exact congrArg some (Except.ok.inj h)

/-- A list leaves the store. -/
theorem act_list_eq (hfind : s.find kind = .ok i) (ht : s.tables[i]? = some t) (scope : Scope)
    (m : Moment) {criteria : Criteria} (hdeclared : t.requireDeclared criteria = .ok ()) :
    s.act (.call kind scope m (.request (.list criteria))) =
      (.answer (.ok (.listing ⟨(t.select ⟨criteria, scope⟩).map (·.2.object), s.version⟩)), s) := by
  refine Prod.ext (act_list hfind ht scope m hdeclared) ?_
  rw [act_call hfind ht]
  exact absorb_focus ht

/-- The deletion of a collection removes what is selected. -/
theorem act_deleteCollection (hfind : s.find kind = .ok i) (ht : s.tables[i]? = some t)
    (hrunning : t.stopped = false) (m : Moment) {criteria : Criteria}
    (hdeclared : t.requireDeclared criteria = .ok ()) {f : Focus} {tombstones : List Object}
    (hremoved : (s.focus t).removeAll m.now ((t.select ⟨criteria, scope⟩).map (·.1)) =
      (tombstones, f)) :
    s.act (.call kind scope m (.request (.deleteCollection criteria))) =
      (.answer (.ok (.tombstones tombstones)), s.absorb i f) := by
  have hremovals : (s.focus t).table.removals scope criteria =
      .ok ((t.select ⟨criteria, scope⟩).map (·.1)) :=
    Table.removals_eq_ok_iff.mpr ⟨hdeclared, hrunning, rfl⟩
  rw [act_call hfind ht]
  simp only [Work.serve, serve, Focus.deleteCollection, hremovals, hremoved]
  rfl

/-- **The deletion of a collection is the list of it and then the deletion of each object of the
list.** -/
theorem deleteCollection_refines (catalog : Catalog) (limits : WatchLimits) (actions : List Action)
    (kind : String) (scope : Scope) (criteria : Criteria) (m : Moment) {moment : Key → Moment}
    (hs : s = (empty catalog limits).run actions) (ht : s.table kind = .ok t)
    (hrunning : t.stopped = false) (hdeclared : t.requireDeclared criteria = .ok ())
    (hnow : ∀ key, (moment key).now = m.now) :
    ∃ listed s',
      (∀ m', s.act (.call kind scope m' (.request (.list criteria))) =
        (.answer (.ok (.listing ⟨listed, s.version⟩)), s)) ∧
      s.act (.call kind scope m (.request (.deleteCollection criteria))) =
        (.answer (.ok (.tombstones (Object.restamped listed s.version))), s') ∧
      s.run ((listed.map t.definition.keyOf).map fun key =>
        deletion kind scope (moment key) key) = s' ∧
      (s.outcomes ((listed.map t.definition.keyOf).map fun key =>
          deletion kind scope (moment key) key) =
        (Object.restamped listed s.version).map fun o => .answer (.ok (.object o))) ∧
      ∀ m', s'.act (.call kind scope m' (.request (.list criteria))) =
        (.answer (.ok (.listing ⟨[], s'.version⟩)), s') := by
  have hfollows : s.Follows _ := hs ▸ follows_reached catalog limits actions
  obtain ⟨i, hfind, ht⟩ := of_table_eq_ok ht
  have htable := hfollows.tables i t ht
  have hlisted := Table.listed_select htable.sorted ⟨criteria, scope⟩
  have hkeys : ((t.select ⟨criteria, scope⟩).map (·.2.object)).map t.definition.keyOf =
      (t.select ⟨criteria, scope⟩).map (·.1) := by
    rw [List.map_map]
    refine List.map_congr_left fun e he => ?_
    exact Definition.keyOf_eq (htable.filed e.1 e.2 (hlisted.get?_eq e he)).key_eq
  have hvisible : ∀ e ∈ t.select ⟨criteria, scope⟩, scope.contains e.2.object = true :=
    fun e he => (Bool.and_eq_true_iff.mp (List.mem_filter.mp he).2).1
  obtain ⟨f, hremoved, hdefinition, hempty⟩ :=
    Focus.removeAll_select (f := s.focus t) htable.sorted m.now ⟨criteria, scope⟩
  rw [show (s.focus t).table = t from rfl] at hremoved hdefinition
  have hdelete := act_deleteCollection hfind ht hrunning m hdeclared hremoved
  have hrun := run_deletions hfollows hfind ht hrunning hnow hlisted hvisible
  rw [hremoved, ← hkeys] at hrun
  refine ⟨_, _, fun m' => act_list_eq hfind ht scope m' hdeclared, hdelete, hrun.1, hrun.2,
    fun m' => ?_⟩
  have hkinds := sameKinds_act hfollows
    (.call kind scope m (.request (.deleteCollection criteria)))
  rw [hdelete] at hkinds
  have hdeclared' : f.table.requireDeclared criteria = .ok () := by
    rwa [Table.requireDeclared, hdefinition]
  have hlist := act_list_eq ((hkinds.find_eq kind).trans hfind) (tables_absorb_self ht f) scope m'
    hdeclared'
  rwa [hempty] at hlist

theorem deleteCollection_refines_configs :
    ∃ listed s', listed.map Object.name = ["a", "b"] ∧
      (configStore.run [createConfig "a", watchConfigs 0, createConfig "b"]).act
          (configCall (.deleteCollection .all)) =
        (.answer (.ok (.tombstones (Object.restamped listed 2))), s') ∧
      (configStore.run [createConfig "a", watchConfigs 0, createConfig "b"]).run
        [configCall (.delete ⟨some "default", "a"⟩ none),
          configCall (.delete ⟨some "default", "b"⟩ none)] = s' := by
  have hrefines := deleteCollection_refines configCatalog ⟨2, 1000, 2⟩
    [createConfig "a", watchConfigs 0, createConfig "b"] "v1/ConfigMap" .all .all
    ⟨0, ⟨2024, 1, 1, 0, 0, 0, 0⟩, "uid", "suffix"⟩ rfl rfl rfl rfl fun _ => rfl
  obtain ⟨listed, s', hlist, hdelete, hrun, -, -⟩ := hrefines
  have hlisted := congrArg Prod.fst (hlist ⟨0, ⟨2024, 1, 1, 0, 0, 0, 0⟩, "uid", "suffix"⟩)
  obtain rfl := congrArg Listing.items (Reply.listing.inj (Except.ok.inj
    (Outcome.answer.inj hlisted)))
  exact ⟨_, _, rfl, hdelete, hrun⟩

end Store

end ControlPlane
