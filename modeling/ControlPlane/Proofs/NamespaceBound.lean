import ControlPlane.Proofs.Dropped
import ControlPlane.Proofs.Holdings

/-!
# Requests that are bound to a namespace

A request says in one of three ways which namespace it is about: the object that it carries is in
it, its key is, or its criteria ask for it. A table of a namespaced kind files every object under
its own namespace, so it comes to the same. A patch could say another namespace in its document, but
its result is written in the place of the object that was read.

* `Definition.ns_eq_of_key`: an object of a namespaced kind is in the namespace of its key.
* `Store.Request.BoundTo.answered`: what a bound request is answered with is in its namespace.
* `Store.commits_bound`, `Store.log_bound`: every commit of a bound request, and of a run of them,
  is at a key of the namespace.
* `Store.Follows.untouched`: a key that no commit is about has the record it had.
-/

namespace ControlPlane

/-! ## Keys and namespaces -/

/-- **An object of a namespaced kind is in the namespace of its key.** -/
theorem Definition.ns_eq_of_key {d : Definition} (hd : d.kind.namespaced = true) {o : Object}
    {key : Key} (h : d.key o = .ok key) : o.metadata.ns = key.ns := by
  unfold Definition.key at h
  split at h
  · cases h
  · rw [hd] at h
    cases hns : o.metadata.ns.filter (!·.isEmpty) with
    | none =>
      rw [hns] at h
      cases h
    | some ns =>
      rw [hns] at h
      obtain rfl := Except.ok.inj h
      exact (Option.filter_eq_some_iff.mp hns).1

@[simp] theorem Object.ns_named (o : Object) (suffix : String) :
    (o.named suffix).metadata.ns = o.metadata.ns := by
  unfold named
  split
  · split <;> rfl
  · rfl

@[simp] theorem Scope.ns_mark (s : Scope) (o : Object) :
    (s.mark o).metadata.ns = o.metadata.ns := by
  cases s <;> rfl

theorem Criteria.ns_of_matches {criteria : Criteria} {ns : String} (hns : criteria.ns = some ns)
    {x : Subject} (h : criteria.matches x = true) : x.ns = some ns := by
  simp only [Criteria.matches, hns, Bool.and_eq_true, Option.all_some, beq_iff_eq] at h
  exact h.1.1.2

/-- What criteria of a namespace select is in it. -/
theorem Selection.ns_of_selects {x : Selection} {ns : String} (hns : x.criteria.ns = some ns)
    {d : Definition} {o : Object} (h : x.selects d o = true) : o.metadata.ns = some ns :=
  Criteria.ns_of_matches hns (Bool.and_eq_true_iff.mp h).2

/-! ## One request -/

namespace Focus

variable {f : Focus} {scope : Scope} {m : Moment} {key : Key} {o new : Object}

theorem ns_create (h : (f.create scope m o).1 = .ok new) : new.metadata.ns = o.metadata.ns := by
  obtain ⟨key, o', hd, rfl⟩ := create_eq_ok_iff.mp h
  obtain ⟨-, -, -, rfl, -⟩ := Table.creation_eq_ok_iff.mp hd
  show (scope.mark ((o.typedAs f.table.definition).named m.suffix)).metadata.ns = o.metadata.ns
  rw [Scope.ns_mark, Object.ns_named]
  rfl

variable (hf : Filed f.table.definition f.table.records)
  (hd : f.table.definition.kind.namespaced = true)

include hf hd

theorem ns_record {r : Record} (h : f.table.record scope key = .ok r) :
    r.object.metadata.ns = key.ns :=
  Definition.ns_eq_of_key hd (hf key r (Table.record_eq_ok_iff.mp h).1).key_eq

theorem ns_replace {verb : Verb} {expected : Option Version} {x : Option Subresource}
    (h : (f.replace scope m verb o expected x).1 = .ok new) :
    new.metadata.ns = o.metadata.ns := by
  obtain ⟨key, r, next, hrevision, rfl⟩ := replace_eq_ok_iff.mp h
  obtain ⟨f', -, hc⟩ := replace_accepted 0 hf verb (m := m) hrevision
  obtain ⟨-, hkey, -⟩ := Table.revision_eq_ok_iff.mp hrevision
  rw [Definition.key_typedAs] at hkey
  rw [Definition.ns_eq_of_key hd hkey]
  exact Definition.ns_eq_of_key hd hc.legal.1.placed.key_eq

/-- **A patch leaves the object in the namespace of its key**, whatever its document says. -/
theorem ns_patch (hdistinct : f.table.Distinct) {x : Option Subresource} {p : Patch}
    (h : (f.patch scope m key x p).1 = .ok new) : new.metadata.ns = key.ns := by
  obtain ⟨o, read, hpatched, hreplace⟩ := patch_eq_ok_iff.mp h
  obtain ⟨r, hr, rfl, -⟩ := patched_eq_ok hpatched
  obtain ⟨key', r', -, hr', hversion, hkey, -⟩ := replaced hf rfl hreplace
  -- The record that is replaced is at the version that was read, so it is the one that was read.
  obtain rfl : key = key' := hdistinct key key' r r' (Table.record_eq_ok_iff.mp hr).1
    (Table.record_eq_ok_iff.mp hr').1 hversion.symm
  exact Definition.ns_eq_of_key hd hkey

end Focus

namespace Store

/-- The request is about objects of the namespace alone. -/
def Request.BoundTo (ns : String) : Request → Prop
  | .create o => o.metadata.ns = some ns
  | .get key => key.ns = some ns
  | .list criteria => criteria.ns = some ns
  | .watch criteria _ _ => criteria.ns = some ns
  | .update o _ _ => o.metadata.ns = some ns
  | .patch key _ _ => key.ns = some ns
  | .delete key _ => key.ns = some ns
  | .deleteCollection criteria => criteria.ns = some ns

/-- **What a bound request is answered with is in its namespace.** -/
theorem Request.BoundTo.answered {ns : String} {r : Request} (hr : r.BoundTo ns) {f : Focus}
    (hf : ControlPlane.Filed f.table.definition f.table.records)
    (hsorted : SortedMap.Sorted f.table.records) (hdistinct : f.table.Distinct)
    (hd : f.table.definition.kind.namespaced = true) {scope : Scope} {m : Moment} {reply : Reply}
    (h : (serve scope m r f).1 = .ok reply) : ∀ o ∈ reply.objects, o.metadata.ns = some ns := by
  cases r with
  | create o =>
    exact Reply.forall_object h fun new hnew => (Focus.ns_create hnew).trans hr
  | get key =>
    refine Reply.forall_object h fun o ho => ?_
    obtain ⟨r, hrecord, rfl⟩ := map_eq_ok_iff.mp ho
    exact (Focus.ns_record hf hd hrecord).trans hr
  | list criteria =>
    obtain ⟨l, hl, rfl⟩ := map_eq_ok_iff.mp h
    obtain ⟨-, rfl⟩ := list_eq_ok_iff.mp hl
    intro o ho
    obtain ⟨e, he, rfl⟩ := List.mem_map.mp ho
    exact Selection.ns_of_selects (x := ⟨criteria, scope⟩) hr (List.mem_filter.mp he).2
  | watch criteria since timeout =>
    obtain ⟨_, -, rfl⟩ := map_eq_ok_iff.mp h
    intro o ho
    cases ho
  | update o expected subresource =>
    obtain ⟨x, -, hx⟩ := Work.serve_update_ok h
    exact Reply.forall_object hx fun new hnew => (Focus.ns_replace hf hd hnew).trans hr
  | patch key subresource p =>
    obtain ⟨x, -, hx⟩ := Work.serve_patch_ok h
    exact Reply.forall_object hx fun new hnew => (Focus.ns_patch hf hd hdistinct hnew).trans hr
  | delete key precondition =>
    refine Reply.forall_object h fun tombstone ho => ?_
    obtain ⟨r, hremoval, rfl⟩ := Focus.delete_eq_ok_iff.mp ho
    obtain ⟨-, hget, -, -⟩ := Table.removal_eq_ok_iff.mp hremoval
    exact (Definition.ns_eq_of_key hd (hf key r hget).key_eq).trans hr
  | deleteCollection criteria =>
    obtain ⟨tombstones, ho, rfl⟩ := map_eq_ok_iff.mp h
    intro o hmem
    obtain ⟨e, he, v, rfl⟩ := Focus.mem_deleteCollection hsorted ho o hmem
    exact Selection.ns_of_selects (x := ⟨criteria, scope⟩) hr (List.mem_filter.mp he).2

/-- What a call changes, it answers with. -/
theorem Work.object_of_changes {t : Table} {w : Work} {reply : Reply} {c : Change}
    (h : c ∈ w.changes t reply) : c.object ∈ reply.objects := by
  have hput {o : Object} (hc : c ∈ [t.put o]) : c.object ∈ [o] := by
    obtain rfl := List.mem_singleton.mp hc
    unfold Table.put
    split <;> exact List.mem_cons_self
  unfold Work.changes at h
  split at h
  · exact hput h
  · exact hput h
  · exact hput h
  · obtain rfl := List.mem_singleton.mp h
    exact List.mem_cons_self
  · obtain ⟨o, ho, rfl⟩ := List.mem_map.mp h
    exact ho
  · exact hput h
  · cases h

end Store

/-! ## Commits -/

/-- The commit is at a key of the namespace in the table at the position. -/
structure Commit.In (i : Nat) (ns : String) (c : Commit) : Prop where
  table_eq : c.table = i
  ns_eq : c.key.ns = some ns

namespace Store

/-- The name leads to the table at the position, and its kind is namespaced. -/
structure Namespaced (s : Store) (kind : String) (i : Nat) (d : Definition) : Prop where
  find_eq : s.find kind = .ok i
  definition_eq : s.definitions[i]? = some d
  namespaced : d.kind.namespaced = true

/-- The action is a request for the kind that is bound to the namespace, or is about a watch. -/
def Action.BoundTo (kind ns : String) : Action → Prop
  | .call kind' _ _ (.request r) => kind' = kind ∧ r.BoundTo ns
  | .call _ _ _ (.writeBack ..) => False
  | .shutdown => False
  | _ => True

variable {s s' : Store} {log later : List Commit} {kind ns : String} {i : Nat} {d : Definition}
  {scope : Scope} {m : Moment} {r : Request}

namespace Namespaced

theorem congr (h : s.Namespaced kind i d) (hkinds : s.SameKinds s') : s'.Namespaced kind i d where
  find_eq := (hkinds.find_eq kind).trans h.find_eq
  definition_eq := hkinds.definitions_eq ▸ h.definition_eq
  namespaced := h.namespaced

theorem table (h : s.Namespaced kind i d) : ∃ t, s.tables[i]? = some t ∧ t.definition = d := by
  have hd := h.definition_eq
  rwa [definitions, List.getElem?_map, Option.map_eq_some_iff] at hd

theorem answered (h : s.Namespaced kind i d) (hs : s.Follows log) (hr : r.BoundTo ns)
    {reply : Reply} (hreply : (s.perform kind scope m r).1 = .ok reply) :
    ∀ o ∈ reply.objects, o.metadata.ns = some ns := by
  obtain ⟨t, ht, rfl⟩ := h.table
  obtain ⟨i', t', hfind, ht', hserve, -⟩ :=
    act_answered (w := .request r) (congrArg Outcome.answer hreply)
  obtain rfl := Except.ok.inj (h.find_eq.symm.trans hfind)
  obtain rfl := Option.some.inj (ht.symm.trans ht')
  have htable := hs.tables i t ht
  exact hr.answered (f := s.focus t) htable.filed htable.sorted (hs.distinct ht) h.namespaced hserve

/-- **Every commit of a bound request is in its namespace.** -/
theorem commits_in (h : s.Namespaced kind i d) (hs : s.Follows log) (hr : r.BoundTo ns) :
    ∀ c ∈ s.commits (.call kind scope m (.request r)), c.In i ns := by
  intro c hc
  obtain ⟨t, ht, rfl⟩ := h.table
  cases hreply : (s.perform kind scope m r).1 with
  | error e =>
    rw [commits_call_error (w := .request r) hreply] at hc
    cases hc
  | ok reply =>
    have hactions := List.mem_append_right log hc
    rw [commits_call_ok (w := .request r) hreply h.find_eq ht] at hc
    have htable := Commit.table_of_mem_number hc
    refine ⟨htable, ?_⟩
    have hobject := h.answered hs hr hreply _ (Work.object_of_changes (Commit.mem_number hc))
    obtain ⟨t', ht', hplaced⟩ := (hs.act _).disciplined.stamped c hactions
    rw [htable] at ht'
    rw [(sameKinds_act hs _).definition_eq ht ht'] at hplaced
    exact (Definition.ns_eq_of_key h.namespaced hplaced.key_eq).symm.trans hobject

/-- **Every commit of a run of bound requests is in their namespace.** -/
theorem log_in (h : s.Namespaced kind i d) (hs : s.Follows log) {actions : List Action}
    (hactions : ∀ a ∈ actions, a.BoundTo kind ns) : ∀ c ∈ s.log actions, c.In i ns := by
  induction actions generalizing s log with
  | nil =>
    intro c hc
    cases hc
  | cons a actions ih =>
    rw [List.forall_mem_cons] at hactions
    intro c hc
    rcases List.mem_append.mp hc with hc | hc
    · cases a with
      | call kind' scope m w =>
        cases w with
        | request r =>
          obtain ⟨⟨rfl, hr⟩, -⟩ := hactions
          exact h.commits_in hs hr c hc
        | writeBack o read x => exact hactions.1.elim
      | _ => cases hc
    · exact ih (h.congr (sameKinds_act hs a)) (hs.act a) hactions.2 c hc

end Namespaced

/-- **A key that no later commit is about has the record it had.** -/
theorem Follows.untouched (hs : s.Follows log) (hs' : s'.Follows (log ++ later)) {j : Nat}
    {t t' : Table} (ht : s.tables[j]? = some t) (ht' : s'.tables[j]? = some t') {key : Key}
    (hlater : ∀ c ∈ later, c.table = j → c.key ≠ key) :
    SortedMap.get? t'.records key = SortedMap.get? t.records key := by
  have hnone : ofKey j key later = [] := by
    apply List.eq_nil_iff_forall_not_mem.mpr
    intro c hc
    obtain ⟨hmem, htable, hkey⟩ := mem_ofKey.mp hc
    exact hlater c hmem htable hkey
  rw [hs.get?_later hs' ht ht', hnone]
  rfl

/-- **A run of bound requests leaves what is outside of their namespace**, in every table. -/
theorem Namespaced.untouched (h : s.Namespaced kind i d) (hs : s.Follows log)
    {actions : List Action} (hactions : ∀ a ∈ actions, a.BoundTo kind ns) {j : Nat} {t t' : Table}
    (ht : s.tables[j]? = some t) (ht' : (s.run actions).tables[j]? = some t') {key : Key}
    (houtside : j ≠ i ∨ key.ns ≠ some ns) :
    SortedMap.get? t'.records key = SortedMap.get? t.records key := by
  apply hs.untouched (follows_run hs actions) ht ht'
  intro c hc htable hkey
  have hin := h.log_in hs hactions c hc
  rcases houtside with hj | hns
  · exact hj (htable.symm.trans hin.table_eq)
  · exact hns (hkey ▸ hin.ns_eq)

/-! ## Watches -/

/-- **What is taken from a watch later shows what the watch selects**, and has the property that
everything in the store has. -/
theorem Watches.taken {P : Definition → Object → Prop} (hs : s.Follows log) {h : WatchHandle}
    {t : Table} {w : Watch} (hw : s.Watches i h t w) {actions : List Action}
    (hholds : (s.run actions).Holds P) {now : Nat} {e : Event}
    (hpoll : ((s.run actions).poll now h).1 = .event e) :
    w.selection.Presents t.definition (P t.definition) e := by
  rcases hw.run hs actions with ⟨t', hdropped⟩ | ⟨t', inputs, hw'⟩
  · cases (hdropped.poll now).symm.trans hpoll
  · obtain ⟨i₁, t₁, w₁, hw₁, hpresents⟩ := hholds.taken hpoll
    obtain rfl := Option.some.inj (hw'.position_eq.symm.trans hw₁.position_eq)
    obtain rfl := Option.some.inj (hw'.table_eq.symm.trans hw₁.table_eq)
    obtain rfl := Option.some.inj (hw'.watch_eq.symm.trans hw₁.watch_eq)
    rw [Watch.after_selection,
      (sameKinds_run hs actions).definition_eq hw.table_eq hw'.table_eq] at hpresents
    exact hpresents

end Store

end ControlPlane
