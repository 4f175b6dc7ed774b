import ControlPlane.Proofs.Confinement
import ControlPlane.Proofs.Watchers

/-!
# Scopes that have no object in common

A call through a scope leaves alone whatever is seen through a scope that has no object in common
with it: the records there are the same, and no watch that was opened through it gets an event. And
a watch never gets an event that shows an object outside its scope.

* `Store.call_confined`: a call is confined to its scope, in every table.
* `Store.watchesWithin_run`: what watches hold lies in their scopes, after every run.
-/

namespace ControlPlane

/-! ## Watches -/

/-- The events that the watches opened through a scope hold, with the numbers of the watches. -/
def Table.heldThrough (t : Table) (scope : Scope) : List (Nat × List Event) :=
  (t.watches.filter fun w => w.selection.scope = scope).map fun w => (w.id, w.held)

namespace Selection

variable {x : Selection} {d : Definition} {version : Version} {c : Change}

/-- A change is not seen through a scope that has no object in common with it. -/
theorem event?_eq_none {a : Scope} (hin : c.Within a) (hdisjoint : a.Disjoint x.scope) :
    x.event? d version c = none := by
  have hselects (o : Object) (ho : a.contains o = true) : x.selects d o = false := by
    rw [selects, hdisjoint o ho, Bool.false_and]
  cases c with
  | created new => rw [event?_created, hselects new hin]; rfl
  | updated old new => rw [event?_updated, hselects old hin.1, hselects new hin.2]
  | deleted tombstone => rw [event?_deleted, hselects tombstone hin]; rfl

/-- An event shows an object of the scope. -/
theorem contains_of_event? {e : Event} (h : x.event? d version c = some e) :
    x.scope.contains e.object = true := by
  cases c with
  | created new =>
    rw [event?_created] at h
    split at h
    · next hnew =>
      cases h
      exact contains_of_selects hnew
    · cases h
  | updated old new =>
    rw [event?_updated] at h
    split at h
    · next hnew =>
      cases h
      exact contains_of_selects hnew
    · next hnew =>
      cases h
      exact contains_of_selects hnew
    · next hold _ =>
      cases h
      exact (Scope.contains_stamped ..).trans (contains_of_selects hold)
    · cases h
  | deleted tombstone =>
    rw [event?_deleted] at h
    split at h
    · next htombstone =>
      cases h
      exact contains_of_selects htombstone
    · cases h

end Selection

namespace Watch

variable {d : Definition} {capacity now : Nat} {version : Version} {c : Change}

/-- The watch holds no event that shows an object outside its scope. -/
def Within (w : Watch) : Prop := ∀ e ∈ w.held, w.selection.scope.contains e.object = true

theorem stable_within (d : Definition) (capacity : Nat) :
    Stable d capacity Within fun _ => True where
  close w reason hw := by
    intro e he
    rw [close_held] at he
    rw [close_selection]
    exact hw e he
  receive w now version c _ hw := by
    intro e he
    rw [receive_selection]
    rcases w.receive_held d capacity now version c with hheld | ⟨e', he', hheld⟩
    · exact hw e (hheld ▸ he)
    · rw [hheld] at he
      rcases List.mem_append.mp he with he | he
      · exact hw e he
      · obtain rfl := List.mem_singleton.mp he
        exact Selection.contains_of_event? he'
  take w hw := by
    intro e he
    obtain ⟨hselection, hheld⟩ := w.take_keeps
    rw [hselection]
    exact hw e (hheld.subset he)

end Watch

theorem Table.heldThrough_map {t t' : Table} {scope : Scope} {g : Watch → Watch}
    (hwatches : t'.watches = t.watches.map g) (hid : ∀ w, (g w).id = w.id)
    (hselection : ∀ w, (g w).selection = w.selection)
    (hheld : ∀ w, w.selection.scope = scope → (g w).held = w.held) :
    t'.heldThrough scope = t.heldThrough scope := by
  rw [heldThrough, heldThrough, hwatches, List.filter_map, List.map_map]
  simp only [Function.comp_def, hselection, hid]
  refine List.map_congr_left ?_
  intro w hw
  rw [hheld w (by simpa using (List.mem_filter.mp hw).2)]

namespace Focus

variable {f f' : Focus} {a b : Scope}

theorem Commits.heldThrough_eq {i now : Nat} {verb : Verb} {log : List Commit}
    (h : Commits i now verb f log f') (hin : ∀ c ∈ log, c.change.Within a) (hab : a.Disjoint b) :
    f'.table.heldThrough b = f.table.heldThrough b := by
  induction h with
  | nil => rfl
  | cons _ _ _ _ ih =>
    rw [ih fun c' hc' => hin c' (List.mem_cons_of_mem _ hc')]
    refine Table.heldThrough_map (enter_watches ..) (fun w => w.receive_id ..)
      (fun w => w.receive_selection ..) ?_
    rintro w rfl
    rcases w.receive_held .. with hheld | ⟨e, he, -⟩
    · exact hheld
    · rw [Selection.event?_eq_none (hin _ List.mem_cons_self) hab] at he
      cases he

theorem heldThrough_enlist (f : Focus) {w : Watch} (hw : w.selection.scope ≠ b) :
    (f.enlist w).table.heldThrough b = f.table.heldThrough b := by
  simp only [Table.heldThrough, enlist, List.filter_append]
  rw [List.filter_cons_of_neg (by simpa using hw), List.filter_nil, List.append_nil]

end Focus

/-! ## Calls -/

/-- The records of the table differ only in what lies in the scope, and a scope that has no object
in common with it sees the same records and gets no event. -/
structure Table.ConfinedTo (scope : Scope) (t t' : Table) : Prop where
  confined : Confined scope t.records t'.records
  visible_eq : ∀ b, scope.Disjoint b → t'.visible b = t.visible b
  heldThrough_eq : ∀ b, scope.Disjoint b → t'.heldThrough b = t.heldThrough b

theorem Table.ConfinedTo.refl (scope : Scope) (t : Table) : t.ConfinedTo scope t :=
  ⟨.refl scope t.records, fun _ _ => rfl, fun _ _ => rfl⟩

namespace Store

variable {s : Store} {log : List Commit}

theorem Work.serve_confined {f : Focus}
    (hf : ControlPlane.Filed f.table.definition f.table.records)
    (hsorted : SortedMap.Sorted f.table.records) (scope : Scope) (m : Moment) (w : Work) :
    f.table.ConfinedTo scope (w.serve scope m f).2.table := by
  have hserved : Served 0 scope m f w (w.serve scope m f) := serve_spec 0 hf w
  have hwithin (reply : Reply) (h : (w.serve scope m f).1 = .ok reply) :
      w.Within scope f.table reply := serve_within hf hsorted h
  generalize w.serve scope m f = p at hserved hwithin ⊢
  cases hserved with
  | still _ => exact .refl scope f.table
  | @mutated _ reply verb f' hc =>
    have hin : ∀ c ∈ Commit.number 0 f.table.definition f.version (w.changes f.table reply),
        c.change.Within scope := by
      intro c hc'
      exact (hwithin reply rfl).2 c.change (Commit.mem_number hc')
    have hconfined : Confined scope f.table.records f'.table.records := by
      rw [hc.records_eq]
      exact .replay hc.legal hin
    have hsorted' : SortedMap.Sorted f'.table.records := by
      rw [hc.records_eq]
      exact sorted_replay hsorted _
    exact ⟨hconfined, fun b hb => hconfined.visible_eq hb hsorted hsorted',
      fun b hb => hc.heldThrough_eq hin hb⟩
  | opened _ =>
    exact ⟨.refl scope f.table.records, fun _ _ => rfl,
      fun b hb => f.heldThrough_enlist hb.ne⟩

/-- **A call through a scope is confined to it, in every table.** -/
theorem call_confined (hs : s.Follows log) {kind : String} {scope : Scope} {m : Moment} {w : Work}
    {i : Nat} {t t' : Table} (ht : s.tables[i]? = some t)
    (ht' : (s.act (.call kind scope m w)).2.tables[i]? = some t') : t.ConfinedTo scope t' := by
  rcases onKind_cases s kind (w.serve scope m) with ⟨e, hkind⟩ | ⟨j, t₀, hfind, ht₀, hkind⟩
  · have hsame : (s.act (.call kind scope m w)).2 = s := congrArg Prod.snd hkind
    rw [hsame, ht] at ht'
    obtain rfl := Option.some.inj ht'
    exact .refl scope t
  · rw [act_call hfind ht₀] at ht'
    rcases tables_absorb ht₀ ht' with ⟨rfl, rfl⟩ | ⟨-, ht'⟩
    · obtain rfl := Option.some.inj (ht₀.symm.trans ht)
      have htable := hs.tables j t₀ ht₀
      exact Work.serve_confined (f := s.focus t₀) htable.filed htable.sorted scope m w
    · rw [ht] at ht'
      obtain rfl := Option.some.inj ht'
      exact .refl scope t

/-- What a call answers lies in its scope. -/
theorem call_within (hs : s.Follows log) {kind : String} {scope : Scope} {m : Moment} {w : Work}
    {reply : Reply} (h : (s.act (.call kind scope m w)).1 = .answer (.ok reply)) :
    ∀ o ∈ reply.objects, scope.contains o = true := by
  obtain ⟨i, t, -, ht, hserve, -⟩ := act_answered h
  have htable := hs.tables i t ht
  exact (Work.serve_within (f := s.focus t) htable.filed htable.sorted hserve).1

end Store

/-! ## What watches hold -/

/-- No watch of the table holds an event that shows an object outside its scope. -/
def Table.WatchesWithin (t : Table) : Prop := ∀ w ∈ t.watches, w.Within

/-- The events that a watch begins with show objects of its scope. -/
theorem Table.contains_of_opening {t : Table} {x : Selection} {since : Option Version}
    {events : List Event} (h : t.opening x since = .ok events) :
    ∀ e ∈ events, x.scope.contains e.object = true := by
  obtain ⟨-, -, hinitial⟩ := Store.opening_eq_ok_iff.mp h
  intro e he
  cases since with
  | none =>
    obtain rfl := Except.ok.inj hinitial
    obtain ⟨r, hr, rfl⟩ := List.mem_map.mp ((Store.snapshot_perm t x).mem_iff.mp he)
    exact Selection.contains_of_selects (List.mem_filter.mp hr).2
  | some since =>
    simp only [initialEvents, History.replay?] at hinitial
    by_cases hold : since < t.history.oldest
    · rw [if_pos hold] at hinitial
      cases hinitial
    · rw [if_neg hold] at hinitial
      obtain rfl := Except.ok.inj hinitial
      obtain ⟨c, -, hc⟩ := List.mem_filterMap.mp he
      exact Selection.contains_of_event? hc

namespace Store

variable {s : Store} {log : List Commit}

/-- No watch of any table holds an event that shows an object outside its scope. -/
def WatchesWithin (s : Store) : Prop :=
  ∀ (i : Nat) (t : Table), s.tables[i]? = some t → t.WatchesWithin

/-- **What watches hold lies in their scopes, after every run.** -/
theorem watchesWithin_run (hfollows : s.Follows log) (hs : s.WatchesWithin)
    (actions : List Action) : (s.run actions).WatchesWithin := by
  induction actions generalizing s log with
  | nil => exact hs
  | cons a actions ih =>
    apply ih (hfollows.act a)
    apply EachWatch.act hfollows (fun d => Watch.stable_within d _) hs
    · intro i t scope m criteria since timeout events _ ho e he
      exact Table.contains_of_opening ho e (by simpa [Watch.held, Focus.newWatch] using he)
    · intro c _ t _
      trivial

theorem watchesWithin_empty (catalog : Catalog) (limits : WatchLimits) :
    (empty catalog limits).WatchesWithin := eachWatch_empty (fun _ => Watch.Within) catalog limits

end Store

end ControlPlane
