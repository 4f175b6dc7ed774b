import ControlPlane.Proofs.Ledger

/-!
# A store without its watches

Nothing that a call answers, and nothing that it makes of the objects, depends on who watches: a
call that opens no watch does the same to a store as to the store without its watches. What only
concerns watches, on the other hand, leaves the store as it is apart from them.

* `Table.bare`, `Store.bare`: what is left without watches, and without what is counted.
* `Focus.Blind`: the operation does not depend on watches.
* `Store.act_bare`: a call that opens no watch does not depend on watches.
* `Store.bare_onWatch`, `Store.bare_watch`: what concerns a watch leaves the rest as it is.
-/

namespace ControlPlane

/-- The table without its watches. -/
def Table.bare (t : Table) : Table := { t with watches := [], nextWatch := 0 }

/-- The focus without watches, and without what is counted. -/
def Focus.bare (f : Focus) : Focus := { f with table := f.table.bare, counters := [] }

/-- The store without watches, and without what is counted. -/
def Store.bare (s : Store) : Store := { s with tables := s.tables.map Table.bare, counters := [] }

/-! ## Operations on a table -/

namespace Focus

/-- The operation gives the same back, and leaves the same apart from watches, whether or not there
are watches. -/
def Blind {α : Type} (operation : Focus → α × Focus) : Prop :=
  ∀ f, (operation f.bare).1 = (operation f).1 ∧
    (operation f.bare).2.bare = (operation f).2.bare

variable {scope : Scope} {m : Moment}

/-- What differs in watches only is the same to a blind operation. -/
theorem Blind.congr {α : Type} {operation : Focus → α × Focus} (h : Blind operation)
    {f f' : Focus} (hf : f'.bare = f.bare) :
    (operation f').1 = (operation f).1 ∧ (operation f').2.bare = (operation f).2.bare := by
  have h' := h f'
  rw [hf] at h'
  exact ⟨h'.1.symm.trans (h f).1, h'.2.symm.trans (h f).2⟩

/-- What a blind operation gives back may be rewritten. -/
theorem Blind.map {α β : Type} {operation : Focus → α × Focus} (h : Blind operation) (g : α → β) :
    Blind fun f => (g (operation f).1, (operation f).2) := by
  intro f
  exact ⟨congrArg g (h f).1, (h f).2⟩

theorem Still.bare_eq {f f' : Focus} (h : f.Still f') : f'.bare = f.bare := by
  have htable : f'.table.bare = f.table.bare := by
    simp only [Table.bare, h.definition_eq, h.records_eq, h.history_eq, h.stopped_eq]
  simp only [bare, htable, h.version_eq, h.limits_eq]

theorem blind_create (o : Object) : Blind (·.create scope m o) := by
  intro f
  have hcreation : f.bare.table.creation scope m.suffix o = f.table.creation scope m.suffix o := rfl
  simp only [create, hcreation]
  cases f.table.creation scope m.suffix o with
  | error e => exact ⟨rfl, rfl⟩
  | ok p => exact ⟨rfl, rfl⟩

theorem blind_replace (verb : Verb) (o : Object) (expected : Option Version)
    (x : Option Subresource) : Blind (·.replace scope m verb o expected x) := by
  intro f
  have hrevision : f.bare.table.revision scope o expected x = f.table.revision scope o expected x :=
    rfl
  simp only [replace, hrevision]
  cases f.table.revision scope o expected x with
  | error e => exact ⟨rfl, rfl⟩
  | ok p => exact ⟨rfl, rfl⟩

theorem blind_patch (key : Key) (x : Option Subresource) (p : Patch) :
    Blind (·.patch scope m key x p) := by
  intro f
  have hpatched : f.bare.patched scope m key x p = f.patched scope m key x p := rfl
  simp only [patch, hpatched]
  cases f.patched scope m key x p with
  | error e => exact ⟨rfl, rfl⟩
  | ok q => exact blind_replace .patch q.1 (some q.2) x f

theorem blind_delete (key : Key) (precondition : Option Version) :
    Blind (·.delete scope m key precondition) := by
  intro f
  have hremoval : f.bare.table.removal scope key precondition =
    f.table.removal scope key precondition := rfl
  simp only [delete, hremoval]
  cases f.table.removal scope key precondition with
  | error e => exact ⟨rfl, rfl⟩
  | ok r => exact ⟨rfl, rfl⟩

theorem blind_removeAll (now : Nat) (keys : List Key) : Blind (·.removeAll now keys) := by
  induction keys with
  | nil =>
    intro f
    exact ⟨rfl, rfl⟩
  | cons key keys ih =>
    intro f
    have hget : SortedMap.get? f.bare.table.records key = SortedMap.get? f.table.records key := rfl
    simp only [removeAll, hget]
    cases SortedMap.get? f.table.records key with
    | none => exact ih f
    | some r =>
      have hsame : (f.bare.remove now key r).2.bare = (f.remove now key r).2.bare := rfl
      have hrest := ih.congr hsame
      exact ⟨congrArg ((f.remove now key r).1 :: ·) hrest.1, hrest.2⟩

theorem blind_deleteCollection (criteria : Criteria) :
    Blind (·.deleteCollection scope m criteria) := by
  intro f
  have hremovals : f.bare.table.removals scope criteria = f.table.removals scope criteria := rfl
  simp only [deleteCollection, hremovals]
  cases f.table.removals scope criteria with
  | error e => exact ⟨rfl, rfl⟩
  | ok keys => exact (blind_removeAll m.now keys).map Except.ok f

end Focus

namespace Store

/-- The call opens a watch. -/
def Work.isWatch : Work → Bool
  | .request (.watch ..) => true
  | _ => false

/-- **A call that opens no watch does not depend on watches.** -/
theorem Work.serve_blind (scope : Scope) (m : Moment) {w : Work} (hw : w.isWatch = false) :
    Focus.Blind (w.serve scope m) := by
  cases w with
  | writeBack o read x => exact (Focus.blind_replace .patch o (some read) x).map _
  | request r =>
    cases r with
    | create o => exact (Focus.blind_create o).map _
    | get key => exact fun f => ⟨rfl, rfl⟩
    | list criteria => exact fun f => ⟨rfl, rfl⟩
    | watch criteria since timeout => cases hw
    | update o expected subresource =>
      intro f
      have hsame : f.bare.table.definition = f.table.definition := rfl
      simp only [serve, Store.serve, hsame]
      cases subresource.mapM f.table.definition.subresource with
      | error e => exact ⟨rfl, rfl⟩
      | ok x => exact (Focus.blind_replace .update o expected x).map _ f
    | patch key subresource p =>
      intro f
      have hsame : f.bare.table.definition = f.table.definition := rfl
      simp only [serve, Store.serve, hsame]
      cases subresource.mapM f.table.definition.subresource with
      | error e => exact ⟨rfl, rfl⟩
      | ok x => exact (Focus.blind_patch key x p).map _ f
    | delete key precondition => exact (Focus.blind_delete key precondition).map _
    | deleteCollection criteria => exact (Focus.blind_deleteCollection criteria).map _

/-! ## Actions -/

variable {s s' : Store} {i : Nat} {t : Table}

theorem bare_bare (s : Store) : s.bare.bare = s.bare := by
  rw [bare, bare, List.map_map]
  rfl

theorem getElem?_bare (s : Store) (i : Nat) :
    s.bare.tables[i]? = s.tables[i]?.map Table.bare := List.getElem?_map

theorem definitions_bare (s : Store) : s.bare.definitions = s.definitions := by
  rw [definitions, bare, List.map_map]
  rfl

theorem find_bare (s : Store) (kind : String) : s.bare.find kind = s.find kind := by
  have hcatalog : s.bare.catalog = s.catalog := rfl
  exact find_congr hcatalog s.definitions_bare kind

/-! ### Stores that differ in watches only -/

theorem limits_of_bare (hbare : s'.bare = s.bare) : s'.limits = s.limits :=
  show s'.bare.limits = s.bare.limits from congrArg Store.limits hbare

theorem find_of_bare (hbare : s'.bare = s.bare) (kind : String) : s'.find kind = s.find kind := by
  rw [← find_bare, hbare, find_bare]

theorem table_of_bare (hbare : s'.bare = s.bare) (i : Nat) :
    s'.tables[i]?.map Table.bare = s.tables[i]?.map Table.bare := by
  rw [← getElem?_bare, ← getElem?_bare, hbare]

theorem exists_table_of_bare (hbare : s'.bare = s.bare) (ht : s.tables[i]? = some t) :
    ∃ t', s'.tables[i]? = some t' ∧ t'.bare = t.bare := by
  have htables := table_of_bare hbare i
  rw [ht] at htables
  exact Option.map_eq_some_iff.mp htables

/-! ### Calls -/

theorem bare_absorb (s : Store) (i : Nat) (f : Focus) :
    (s.absorb i f).bare = s.bare.absorb i f.bare := by
  rw [absorb, bare, List.map_set]
  rfl

/-- **A call that opens no watch does to a store what it does to the store without watches.** -/
theorem act_bare (s : Store) (kind : String) (scope : Scope) (m : Moment) {w : Work}
    (hw : w.isWatch = false) :
    (s.bare.act (.call kind scope m w)).1 = (s.act (.call kind scope m w)).1 ∧
      (s.bare.act (.call kind scope m w)).2.bare = (s.act (.call kind scope m w)).2.bare := by
  simp only [act, onKind, find_bare, getElem?_bare]
  cases s.find kind with
  | error e => exact ⟨rfl, s.bare_bare⟩
  | ok i =>
    dsimp only
    cases s.tables[i]? with
    | none => exact ⟨rfl, s.bare_bare⟩
    | some t =>
      have hserve := Work.serve_blind scope m hw (s.focus t)
      refine ⟨congrArg Outcome.answer hserve.1, ?_⟩
      simp only [Option.map_some, bare_absorb, bare_bare]
      exact congrArg (s.bare.absorb i) hserve.2

theorem shutdown_bare (s : Store) : s.bare.shutdown.bare = s.shutdown.bare := by
  simp only [shutdown, bare, List.map_map]
  rfl

theorem Work.changes_bare (w : Work) (t : Table) (reply : Reply) :
    w.changes t.bare reply = w.changes t reply := by
  cases w with
  | writeBack o read x => rfl
  | request r => cases r <;> cases reply <;> rfl

/-- The commits of a call that opens no watch do not depend on watches. -/
theorem commits_bare (s : Store) (kind : String) (scope : Scope) (m : Moment) {w : Work}
    (hw : w.isWatch = false) :
    s.bare.commits (.call kind scope m w) = s.commits (.call kind scope m w) := by
  have hanswer : (s.bare.onKind kind (w.serve scope m)).1 = (s.onKind kind (w.serve scope m)).1 :=
    Outcome.answer.inj (s.act_bare kind scope m hw).1
  cases hresult : (s.onKind kind (w.serve scope m)).1 with
  | error e => rw [commits_call_error hresult, commits_call_error (hanswer.trans hresult)]
  | ok reply =>
    rcases onKind_cases s kind (w.serve scope m) with ⟨e, h⟩ | ⟨i, t, hfind, ht, -⟩
    · rw [h] at hresult
      cases hresult
    · have hfind' : s.bare.find kind = .ok i := (s.find_bare kind).trans hfind
      have ht' : s.bare.tables[i]? = some t.bare := by
        rw [getElem?_bare, ht]
        rfl
      rw [commits_call_ok hresult hfind ht, commits_call_ok (hanswer.trans hresult) hfind' ht']
      exact congrArg (Commit.number i t.definition s.version) (w.changes_bare t reply)

/-! ## What concerns a watch -/

/-- A table that differs in watches only leaves the store as it is apart from them. -/
theorem bare_absorb_still (ht : s.tables[i]? = some t) {f : Focus} (h : (s.focus t).Still f) :
    (s.absorb i f).bare = s.bare := by
  rw [bare_absorb, h.bare_eq, ← bare_absorb, absorb_focus ht]

theorem bare_onWatch {α : Type} (s : Store) (h : WatchHandle) {operation : Focus → α × Focus}
    (hstill : ∀ f : Focus, f.Still (operation f).2) : (s.onWatch h operation).2.bare = s.bare := by
  unfold onWatch
  split
  · rfl
  · split
    · rfl
    · next ht => exact bare_absorb_still ht (hstill _)

theorem Work.eq_watch {w : Work} (hw : w.isWatch = true) :
    ∃ criteria since timeout, w = .request (.watch criteria since timeout) := by
  cases w with
  | writeBack o read x => cases hw
  | request r =>
    cases r with
    | watch criteria since timeout => exact ⟨criteria, since, timeout, rfl⟩
    | _ => cases hw

theorem Work.still_of_isWatch (scope : Scope) (m : Moment) {w : Work} (hw : w.isWatch = true)
    (f : Focus) : f.Still (w.serve scope m f).2 := by
  obtain ⟨criteria, since, timeout, rfl⟩ := Work.eq_watch hw
  simp only [serve, Store.serve]
  generalize hwatch : f.watch scope m criteria since timeout = p
  obtain ⟨result, f'⟩ := p
  rcases Focus.watch_spec hwatch with ⟨e, -, -, rfl⟩ | ⟨events, -, -, rfl⟩
  · exact f'.still_refl
  · exact f.still_enlist _ rfl

theorem commits_watch (s : Store) (kind : String) (scope : Scope) (m : Moment) {w : Work}
    (hw : w.isWatch = true) : s.commits (.call kind scope m w) = [] := by
  obtain ⟨criteria, since, timeout, rfl⟩ := Work.eq_watch hw
  exact commits_call_nil fun t reply => by cases reply <;> rfl

/-- **Opening a watch leaves the store as it is apart from watches.** -/
theorem bare_watch (s : Store) (kind : String) (scope : Scope) (m : Moment) {w : Work}
    (hw : w.isWatch = true) : (s.act (.call kind scope m w)).2.bare = s.bare := by
  rcases onKind_cases s kind (w.serve scope m) with ⟨e, h⟩ | ⟨i, t, -, ht, h⟩
  · simp only [act, h]
  · simp only [act, h]
    exact bare_absorb_still ht (w.still_of_isWatch scope m hw _)

end Store

end ControlPlane
