import ControlPlane.Proofs.Views

/-!
# What a scope hides has no effect

Two stores are alike through a scope if they show the same records through it; what it hides may
differ in any way, and so may histories, watches, limits and counters. Every call through the scope
that neither creates an object nor opens a watch gets the same answer from both, be it an object or
an error, and leaves them alike. Every check of such a call looks at a record only after the scope
has passed it, so a hidden record is no different from none.

* `Table.Alike`, `Store.Alike`: tables and stores that are alike through a scope.
* `Store.Work.serve_alike`: the step, for one table.
* `Store.hidden_without_effect`: one call, and any number of them one after the other.
-/

namespace ControlPlane

/-! ## Tables -/

/-- The tables show the same records through a scope. Both keep their records in order, as every
table of a store does. -/
structure Table.Alike (scope : Scope) (t t' : Table) : Prop where
  definition_eq : t'.definition = t.definition
  stopped_eq : t'.stopped = t.stopped
  visible_eq : t'.visible scope = t.visible scope
  sorted : SortedMap.Sorted t.records
  sorted' : SortedMap.Sorted t'.records

namespace Table.Alike

variable {scope : Scope} {t t' : Table}

theorem visible?_eq (h : t.Alike scope t') (key : Key) :
    t'.visible? scope key = t.visible? scope key := by
  rw [visible?_eq_get? h.sorted', visible?_eq_get? h.sorted, h.visible_eq]

theorem record_eq (h : t.Alike scope t') (key : Key) :
    t'.record scope key = t.record scope key := by
  rw [record, record, h.visible?_eq, missing, missing, name, name, h.definition_eq]

theorem select_eq (h : t.Alike scope t') (criteria : Criteria) :
    t'.select ⟨criteria, scope⟩ = t.select ⟨criteria, scope⟩ := by
  rw [select_eq_filter, select_eq_filter, h.visible_eq, h.definition_eq]

theorem revision_eq (h : t.Alike scope t') (o : Object) (expected : Option Version)
    (x : Option Subresource) :
    t'.revision scope o expected x = t.revision scope o expected x := by
  simp only [revision, accept, requireRunning, requireVersion, composed, name, h.record_eq,
    h.definition_eq, h.stopped_eq]

theorem removal_eq (h : t.Alike scope t') (key : Key) (precondition : Option Version) :
    t'.removal scope key precondition = t.removal scope key precondition := by
  simp only [removal, requireRunning, requireVersion, name, h.record_eq, h.definition_eq,
    h.stopped_eq]

theorem removals_eq (h : t.Alike scope t') (criteria : Criteria) :
    t'.removals scope criteria = t.removals scope criteria := by
  simp only [removals, requireDeclared, requireRunning, h.select_eq, h.definition_eq, h.stopped_eq]

end Table.Alike

/-! ## Records -/

namespace SortedMap

variable {κ α : Type} [DecidableEq κ] {m n : SortedMap κ α}

/-- Maps that agree on the values of a kind agree on them after a write. -/
theorem filter_insert_congr [Ord κ] [Std.TransOrd κ] [Std.LawfulEqOrd κ] (hm : Sorted m)
    (hn : Sorted n) {p : α → Bool}
    (h : (n.filter fun e => p e.2) = m.filter fun e => p e.2) (k : κ) (v : α) :
    ((insert n k v).filter fun e => p e.2) = (insert m k v).filter fun e => p e.2 := by
  have hm' := sorted_insert hm k v
  have hn' := sorted_insert hn k v
  refine ext (sorted_filter hn' _) (sorted_filter hm' _) ?_
  intro j
  rw [get?_filter hn', get?_filter hm']
  by_cases hj : j = k
  · rw [hj, get?_insert_self, get?_insert_self]
  · rw [get?_insert_of_ne _ _ hj, get?_insert_of_ne _ _ hj, ← get?_filter hn, ← get?_filter hm, h]

theorem filter_erase_congr {p : α → Bool}
    (h : (n.filter fun e => p e.2) = m.filter fun e => p e.2) (k : κ) :
    ((erase n k).filter fun e => p e.2) = (erase m k).filter fun e => p e.2 := by
  have hcomm (m : SortedMap κ α) :
      ((erase m k).filter fun e => p e.2) = erase (m.filter fun e => p e.2) k := by
    rw [erase, erase, List.filter_filter, List.filter_filter]
    exact List.filter_congr fun e _ => Bool.and_comm ..
  rw [hcomm, hcomm, h]

end SortedMap

/-! ## Mutations -/

namespace Focus

/-- The tables in focus show the same records through a scope, at one version. -/
structure Alike (scope : Scope) (f f' : Focus) : Prop where
  table : f.table.Alike scope f'.table
  version_eq : f'.version = f.version

/-- The results are equal, and the tables are alike. -/
structure Agree {α : Type} (scope : Scope) (p p' : α × Focus) : Prop where
  result_eq : p'.1 = p.1
  alike : p.2.Alike scope p'.2

theorem Agree.map {α β : Type} {scope : Scope} {p p' : α × Focus} (h : Agree scope p p')
    (g : α → β) : Agree scope (g p.1, p.2) (g p'.1, p'.2) := ⟨congrArg g h.result_eq, h.alike⟩

theorem Agree.answer {α : Type} {scope : Scope} {p p' : Except Error α × Focus}
    (h : Agree scope p p') (reply : α → Store.Reply) :
    Agree scope (p.1.map reply, p.2) (p'.1.map reply, p'.2) :=
  h.map fun result => result.map reply

namespace Alike

variable {scope : Scope} {f f' : Focus} {m : Moment}

theorem commit (h : f.Alike scope f') (now : Nat) (verb : Verb) (change : Change)
    {records records' : SortedMap Key Record}
    (hvisible : (records'.filter fun e => scope.contains e.2.object) =
      records.filter fun e => scope.contains e.2.object)
    (hsorted : SortedMap.Sorted records) (hsorted' : SortedMap.Sorted records') :
    (f.commit now verb records change).Alike scope (f'.commit now verb records' change) where
  table := ⟨h.table.definition_eq, h.table.stopped_eq, hvisible, hsorted, hsorted'⟩
  version_eq := congrArg Version.next h.version_eq

theorem replace (h : f.Alike scope f') (verb : Verb) (o : Object) (expected : Option Version)
    (x : Option Subresource) :
    Agree scope (f.replace scope m verb o expected x) (f'.replace scope m verb o expected x) := by
  simp only [Focus.replace, h.table.revision_eq, h.version_eq]
  cases f.table.revision scope o expected x with
  | error e => exact ⟨rfl, h⟩
  | ok p =>
    obtain ⟨key, r, next⟩ := p
    refine ⟨rfl, h.commit m.now verb _ ?_ ?_ ?_⟩
    · exact SortedMap.filter_insert_congr h.table.sorted h.table.sorted'
        (p := fun r : Record => scope.contains r.object) h.table.visible_eq key _
    · exact SortedMap.sorted_insert h.table.sorted _ _
    · exact SortedMap.sorted_insert h.table.sorted' _ _

theorem patched_eq (h : f.Alike scope f') (key : Key) (x : Option Subresource) (p : Patch) :
    f'.patched scope m key x p = f.patched scope m key x p := by
  simp only [patched, h.table.record_eq, h.table.definition_eq]

theorem patch (h : f.Alike scope f') (key : Key) (x : Option Subresource) (p : Patch) :
    Agree scope (f.patch scope m key x p) (f'.patch scope m key x p) := by
  simp only [Focus.patch, h.patched_eq]
  cases f.patched scope m key x p with
  | error e => exact ⟨rfl, h⟩
  | ok q => exact h.replace .patch q.1 (some q.2) x

theorem remove (h : f.Alike scope f') (now : Nat) (key : Key) (r : Record) :
    Agree scope (f.remove now key r) (f'.remove now key r) := by
  simp only [Focus.remove, h.version_eq]
  refine ⟨rfl, h.commit now .delete _ ?_ ?_ ?_⟩
  · exact SortedMap.filter_erase_congr (p := fun r : Record => scope.contains r.object)
      h.table.visible_eq key
  · exact SortedMap.sorted_erase h.table.sorted key
  · exact SortedMap.sorted_erase h.table.sorted' key

theorem delete (h : f.Alike scope f') (key : Key) (precondition : Option Version) :
    Agree scope (f.delete scope m key precondition) (f'.delete scope m key precondition) := by
  simp only [Focus.delete, h.table.removal_eq]
  cases f.table.removal scope key precondition with
  | error e => exact ⟨rfl, h⟩
  | ok r => exact (h.remove m.now key r).map Except.ok

/-- Removing some records, if each of them is there in both tables or in neither. -/
theorem removeAll (h : f.Alike scope f') (now : Nat) {keys : List Key}
    (hkeys : ∀ key ∈ keys,
      SortedMap.get? f'.table.records key = SortedMap.get? f.table.records key) :
    Agree scope (f.removeAll now keys) (f'.removeAll now keys) := by
  induction keys generalizing f f' with
  | nil => exact ⟨rfl, h⟩
  | cons key keys ih =>
    have hkey := hkeys key List.mem_cons_self
    cases hget : SortedMap.get? f.table.records key with
    | none =>
      simp only [Focus.removeAll, hkey, hget]
      exact ih h fun k hk => hkeys k (List.mem_cons_of_mem key hk)
    | some r =>
      simp only [Focus.removeAll, hkey, hget]
      have hone := h.remove now key r
      have hrest : ∀ k ∈ keys, SortedMap.get? (f'.remove now key r).2.table.records k =
          SortedMap.get? (f.remove now key r).2.table.records k := by
        intro k hk
        have hrecords (f : Focus) :
            (f.remove now key r).2.table.records = SortedMap.erase f.table.records key := rfl
        rw [hrecords, hrecords]
        by_cases hkk : k = key
        · rw [hkk, SortedMap.get?_erase_self, SortedMap.get?_erase_self]
        · rw [SortedMap.get?_erase_of_ne _ hkk, SortedMap.get?_erase_of_ne _ hkk]
          exact hkeys k (List.mem_cons_of_mem key hk)
      have hall := ih hone.alike hrest
      rw [hone.result_eq, hall.result_eq]
      exact ⟨rfl, hall.alike⟩

/-- A selected record is there in both tables. -/
theorem get?_selected (h : f.Alike scope f') {criteria : Criteria} {key : Key}
    (hkey : key ∈ (f.table.select ⟨criteria, scope⟩).map (·.1)) :
    SortedMap.get? f'.table.records key = SortedMap.get? f.table.records key := by
  obtain ⟨e, he, rfl⟩ := List.mem_map.mp hkey
  have he' : e ∈ f'.table.select ⟨criteria, scope⟩ := by rwa [h.table.select_eq]
  rw [SortedMap.get?_of_mem h.table.sorted (List.mem_filter.mp he).1,
    SortedMap.get?_of_mem h.table.sorted' (List.mem_filter.mp he').1]

theorem deleteCollection (h : f.Alike scope f') (criteria : Criteria) :
    Agree scope (f.deleteCollection scope m criteria) (f'.deleteCollection scope m criteria) := by
  simp only [Focus.deleteCollection, h.table.removals_eq]
  cases hd : f.table.removals scope criteria with
  | error e => exact ⟨rfl, h⟩
  | ok keys =>
    obtain ⟨-, -, rfl⟩ := Table.removals_eq_ok_iff.mp hd
    exact (h.removeAll m.now fun key hkey => h.get?_selected hkey).map Except.ok

theorem get_eq (h : f.Alike scope f') (key : Key) : f'.get scope key = f.get scope key := by
  rw [get, get, h.table.record_eq]

theorem list_eq (h : f.Alike scope f') (criteria : Criteria) :
    f'.list scope criteria = f.list scope criteria := by
  simp only [list, Table.requireDeclared, h.table.select_eq, h.table.definition_eq, h.version_eq]

end Alike

end Focus

/-! ## Calls -/

namespace Store

/-- The call neither creates an object nor opens a watch. -/
def Work.Discreet : Work → Prop
  | .request (.create _) => False
  | .request (.watch ..) => False
  | _ => True

/-- **A call through a scope does not depend on what the scope hides.** -/
theorem Work.serve_alike {scope : Scope} {f f' : Focus} (h : f.Alike scope f') (m : Moment)
    {w : Work} (hw : w.Discreet) : Focus.Agree scope (w.serve scope m f) (w.serve scope m f') := by
  cases w with
  | writeBack o read x => exact (h.replace .patch o (some read) x).answer Reply.object
  | request r =>
    cases r with
    | create o => exact hw.elim
    | get key =>
      simp only [serve, Store.serve, h.get_eq]
      exact ⟨rfl, h⟩
    | list criteria =>
      simp only [serve, Store.serve, h.list_eq]
      exact ⟨rfl, h⟩
    | watch criteria since timeout => exact hw.elim
    | update o expected subresource =>
      simp only [serve, Store.serve, h.table.definition_eq]
      cases subresource.mapM f.table.definition.subresource with
      | error e => exact ⟨rfl, h⟩
      | ok x => exact (h.replace .update o expected x).answer Reply.object
    | patch key subresource p =>
      simp only [serve, Store.serve, h.table.definition_eq]
      cases subresource.mapM f.table.definition.subresource with
      | error e => exact ⟨rfl, h⟩
      | ok x => exact (h.patch key x p).answer Reply.object
    | delete key precondition => exact (h.delete key precondition).answer Reply.object
    | deleteCollection criteria => exact (h.deleteCollection criteria).answer Reply.tombstones

/-- The stores know the same kinds, are at one version, and show the same records through a scope.
-/
structure Alike (scope : Scope) (s s' : Store) : Prop where
  catalog_eq : s'.catalog = s.catalog
  version_eq : s'.version = s.version
  tables : ∀ i : Nat, Option.Rel (Table.Alike scope) s.tables[i]? s'.tables[i]?

namespace Alike

variable {scope : Scope} {s s' : Store}

theorem definitions_eq (h : s.Alike scope s') : s'.definitions = s.definitions := by
  refine List.ext_getElem? ?_
  intro i
  rw [definitions, definitions, List.getElem?_map, List.getElem?_map]
  have htables := h.tables i
  generalize s.tables[i]? = t?, s'.tables[i]? = t'? at htables ⊢
  cases htables with
  | some ht => exact congrArg some ht.definition_eq
  | none => rfl

theorem absorb (h : s.Alike scope s') {f f' : Focus} (hf : f.Alike scope f') (i : Nat) :
    (s.absorb i f).Alike scope (s'.absorb i f') where
  catalog_eq := h.catalog_eq
  version_eq := hf.version_eq
  tables j := by
    have hlength : s'.tables.length = s.tables.length := by
      simpa [definitions] using congrArg List.length h.definitions_eq
    rw [Store.absorb, Store.absorb, List.getElem?_set, List.getElem?_set, hlength]
    split
    · split
      · exact .some hf.table
      · exact .none
    · exact h.tables j

theorem act (h : s.Alike scope s') (kind : String) (m : Moment) {w : Work} (hw : w.Discreet) :
    (s'.act (.call kind scope m w)).1 = (s.act (.call kind scope m w)).1 ∧
      (s.act (.call kind scope m w)).2.Alike scope (s'.act (.call kind scope m w)).2 := by
  have hfind : s'.find kind = s.find kind := find_congr h.catalog_eq h.definitions_eq kind
  simp only [Store.act, onKind, hfind]
  cases s.find kind with
  | error e => exact ⟨rfl, h⟩
  | ok i =>
    dsimp only
    have htables := h.tables i
    generalize s.tables[i]? = t?, s'.tables[i]? = t'? at htables ⊢
    cases htables with
    | none => exact ⟨rfl, h⟩
    | @some t t' ht =>
      have hfocus : (s.focus t).Alike scope (s'.focus t') := ⟨ht, h.version_eq⟩
      have hagree := Work.serve_alike hfocus m hw
      exact ⟨congrArg Outcome.answer hagree.result_eq, h.absorb hagree.alike i⟩

end Alike

/-- The action is a call through the scope that neither creates an object nor opens a watch. -/
def Action.DiscreetThrough (scope : Scope) : Action → Prop
  | .call _ scope' _ w => scope' = scope ∧ w.Discreet
  | _ => False

theorem Alike.run {scope : Scope} {s s' : Store} (h : s.Alike scope s') {actions : List Action}
    (hactions : ∀ a ∈ actions, a.DiscreetThrough scope) :
    s'.outcomes actions = s.outcomes actions ∧ (s.run actions).Alike scope (s'.run actions) := by
  induction actions generalizing s s' with
  | nil => exact ⟨rfl, h⟩
  | cons a actions ih =>
    have ha := hactions a List.mem_cons_self
    cases a with
    | call kind scope' m w =>
      obtain ⟨rfl, hw⟩ := ha
      obtain ⟨hanswer, halike⟩ := h.act kind m hw
      obtain ⟨hrest, hend⟩ := ih halike fun b hb => hactions b (List.mem_cons_of_mem _ hb)
      refine ⟨?_, hend⟩
      rw [outcomes, outcomes, hanswer, hrest]
    | poll now w => exact ha.elim
    | stopWatch w => exact ha.elim
    | dropWatch w => exact ha.elim
    | shutdown => exact ha.elim

/-- **What a view hides has no effect on what is done through it.** If two stores know the same
kinds, are at one version, are shut down for the same kinds, and show the same records through a
view, then every call through the view that neither creates an object nor opens a watch gets the
same answer from both, and both show the same records through the view afterwards; and so it is for
any number of such calls. -/
theorem hidden_without_effect (v : View) {s s' : Store} (h : s.Alike v.scope s') :
    (∀ kind m w, w.Discreet →
      (s'.act (.call kind v.scope m w)).1 = (s.act (.call kind v.scope m w)).1 ∧
        (s.act (.call kind v.scope m w)).2.Alike v.scope (s'.act (.call kind v.scope m w)).2) ∧
    ∀ actions, (∀ a ∈ actions, a.DiscreetThrough v.scope) →
      s'.outcomes actions = s.outcomes actions ∧
        (s.run actions).Alike v.scope (s'.run actions) := by
  refine ⟨?_, ?_⟩
  · intro kind m w hw
    exact h.act kind m hw
  · intro actions hactions
    exact h.run hactions

/-- A store with a config map in each of two views. -/
def configsOfTwo (name : String) : Store :=
  configStore.run
    [Server.configThrough "a"
      (.create ⟨none, { Metadata.empty with name := some "y", ns := some "default" }, []⟩),
    Server.configThrough "b"
      (.create ⟨none, { Metadata.empty with name := some name, ns := some "default" }, []⟩)]

/-- A config map of the other view is as good as none, whatever version is expected of it. -/
theorem hidden_without_effect_configs :
    ((configsOfTwo "x").act (Server.configThrough "a"
        (.delete ⟨some "default", "x"⟩ (some 7)))).1 =
      .answer (.error (.notFound "ConfigMap" "default/x")) ∧
    ((configsOfTwo "x").act (Server.configThrough "a"
        (.delete ⟨some "default", "x"⟩ (some 7)))).1 =
      ((configsOfTwo "z").act (Server.configThrough "a"
        (.delete ⟨some "default", "x"⟩ (some 7)))).1 := by
  have hsorted (name : String) (t : Table) (ht : (configsOfTwo name).tables[0]? = some t) :
      SortedMap.Sorted t.records :=
    ((follows_reached configCatalog ⟨2, 1000, 2⟩ _).tables 0 t ht).sorted
  have halike : (configsOfTwo "z").Alike (View.derived .standard "a" none).scope
      (configsOfTwo "x") := by
    refine ⟨rfl, rfl, ?_⟩
    intro i
    cases i with
    | zero => exact .some ⟨rfl, rfl, rfl, hsorted "z" _ rfl, hsorted "x" _ rfl⟩
    | succ i => exact .none
  refine ⟨rfl, ?_⟩
  exact ((hidden_without_effect (.derived .standard "a" none) halike).1 "v1/ConfigMap"
    ⟨0, ⟨2024, 1, 1, 0, 0, 0, 0⟩, "uid", "suffix"⟩
    (.request (.delete ⟨some "default", "x"⟩ (some 7))) trivial).1

end Store

end ControlPlane
