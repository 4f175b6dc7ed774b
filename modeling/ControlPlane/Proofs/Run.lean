import ControlPlane.Proofs.Mutation
import ControlPlane.Store.Basic

/-!
# Runs of a store

A run is a list of actions: calls of clients through any scopes, polls of watches, watches that are
stopped or dropped, and the shutdown of the store. The two halves of a patch may be calls of their
own, so that anything can happen between reading the object and writing the result back.

The log of a run is what its answers tell: a call that was answered made the mutations its answer
shows, and a call that was refused made none.

* `Store.act`, `Store.run`, `Store.outcomes`: the store after one action and after some, and what
  the actions give back.
* `Store.commits`, `Store.log`: the mutations of one action, and of some.
* `Work.serve_spec`: a call of a kind does nothing, enters the commits its answer tells of, or opens
  a watch.
-/

namespace ControlPlane

/-! ## Commits by their changes -/

/-- The key of an object; the empty key if it has none that suits the kind. -/
def Definition.keyOf (d : Definition) (o : Object) : Key := (d.key o).toOption.getD default

theorem Definition.keyOf_eq {d : Definition} {o : Object} {key : Key} (h : d.key o = .ok key) :
    d.keyOf o = key := by
  rw [keyOf, h]
  rfl

/-- The commits of some changes of a table, from the version before the first. -/
def Commit.number (i : Nat) (d : Definition) : Version → List Change → List Commit
  | _, [] => []
  | v, c :: changes => ⟨i, d.keyOf c.object, v.next, c⟩ :: number i d v.next changes

theorem Focus.Commits.eq_number {i now : Nat} {verb : Verb} {f f' : Focus} {log : List Commit}
    (h : Focus.Commits i now verb f log f') :
    log = Commit.number i f.table.definition f.version (log.map (·.change)) := by
  induction h with
  | nil => rfl
  | @cons f f' c log htable hversion hfits hrest ih =>
    obtain ⟨table, key, version, change⟩ := c
    obtain rfl : table = i := htable
    obtain rfl : version = f.version.next := hversion
    rw [List.map_cons, Commit.number, Definition.keyOf_eq hfits.placed.key_eq,
      ← Focus.enter_version, ← Focus.enter_definition]
    exact congrArg _ ih

theorem Focus.Commits.number {i now : Nat} {verb : Verb} {f f' : Focus} {log : List Commit}
    {changes : List Change} (h : Focus.Commits i now verb f log f')
    (hchanges : log.map (·.change) = changes) :
    Focus.Commits i now verb f (Commit.number i f.table.definition f.version changes) f' := by
  rw [← hchanges, ← h.eq_number]
  exact h

/-- The change that puts an object in its place: it replaces what is there, if there is anything. -/
def Table.put (t : Table) (o : Object) : Change :=
  match SortedMap.get? t.records (t.definition.keyOf o) with
  | some r => .updated r.object o
  | none => .created o

namespace Store

/-! ## Actions -/

/-- What a client asks of the table of a kind in one go. -/
inductive Work where
  | request (r : Request)
  /-- The second half of a patch: an object that a patch made of the one at version `read`. -/
  | writeBack (o : Object) (read : Version) (subresource : Option Subresource)

/-- What happens to a store. -/
inductive Action where
  | call (kind : String) (scope : Scope) (m : Moment) (w : Work)
  | poll (now : Nat) (w : WatchHandle)
  | stopWatch (w : WatchHandle)
  | dropWatch (w : WatchHandle)
  | shutdown

/-- What an action gives back. -/
inductive Outcome where
  | answer (result : Except Error Reply)
  | item (i : Watch.Item)
  | silent

/-- What a call does to the table in focus. -/
def Work.serve (scope : Scope) (m : Moment) : Work → Focus → Except Error Reply × Focus
  | .request r, f => Store.serve scope m r f
  | .writeBack o read subresource, f =>
    let (result, f) := f.replace scope m .patch o (some read) subresource
    (result.map .object, f)

/-- What an action gives back, and the store after it. -/
def act (s : Store) : Action → Outcome × Store
  | .call kind scope m w =>
    let (result, s) := s.onKind kind (w.serve scope m)
    (.answer result, s)
  | .poll now w =>
    let (item, s) := s.poll now w
    (.item item, s)
  | .stopWatch w => (.silent, s.stopWatch w)
  | .dropWatch w => (.silent, s.dropWatch w)
  | .shutdown => (.silent, s.shutdown)

/-- The store after some actions. -/
def run (s : Store) (actions : List Action) : Store := actions.foldl (fun s a => (s.act a).2) s

/-- What some actions give back. -/
def outcomes (s : Store) : List Action → List Outcome
  | [] => []
  | a :: actions => (s.act a).1 :: (s.act a).2.outcomes actions

/-! ## Logs -/

/-- The changes that an answered call has made, in order. -/
def Work.changes (t : Table) : Work → Reply → List Change
  | .request (.create _), .object o => [t.put o]
  | .request (.update ..), .object o => [t.put o]
  | .request (.patch ..), .object o => [t.put o]
  | .request (.delete ..), .object o => [.deleted o]
  | .request (.deleteCollection _), .tombstones objects => objects.map .deleted
  | .writeBack .., .object o => [t.put o]
  | _, _ => []

/-- The mutations of an action, in order, as its outcome tells them. -/
def commits (s : Store) (a : Action) : List Commit :=
  match a, (s.act a).1 with
  | .call kind _ _ w, .answer (.ok reply) =>
    match s.find kind with
    | .error _ => []
    | .ok i =>
      match s.tables[i]? with
      | none => []
      | some t => Commit.number i t.definition s.version (w.changes t reply)
  | _, _ => []

/-- The mutations of some actions, in order. -/
def log (s : Store) : List Action → List Commit
  | [] => []
  | a :: actions => s.commits a ++ (s.act a).2.log actions

@[simp] theorem run_nil (s : Store) : s.run [] = s := rfl

@[simp] theorem run_cons (s : Store) (a : Action) (actions : List Action) :
    s.run (a :: actions) = (s.act a).2.run actions := rfl

theorem run_append (s : Store) (before after : List Action) :
    s.run (before ++ after) = (s.run before).run after := List.foldl_append ..

theorem log_append (s : Store) (before after : List Action) :
    s.log (before ++ after) = s.log before ++ (s.run before).log after := by
  induction before generalizing s with
  | nil => rfl
  | cons a before ih => simp only [List.cons_append, log, ih, run_cons, List.append_assoc]

end Store

/-! ## What a call does -/

namespace Focus

/-- A new watch of the table, with the events it begins with. -/
def newWatch (f : Focus) (scope : Scope) (m : Moment) (criteria : Criteria) (timeout : Option Nat)
    (events : List Event) : Watch where
  id := f.table.nextWatch
  selection := ⟨criteria, scope⟩
  deadline := m.now + f.limits.grant timeout
  initial := events
  queue := []
  phase := .live
  finished := false

/-- The focus with one watch more. -/
def enlist (f : Focus) (w : Watch) : Focus :=
  { f with table :=
    { f.table with watches := f.table.watches ++ [w], nextWatch := f.table.nextWatch + 1 } }

theorem watch_spec {f f' : Focus} {scope : Scope} {m : Moment} {criteria : Criteria}
    {since : Option Version} {timeout : Option Nat} {result : Except Error Nat}
    (h : f.watch scope m criteria since timeout = (result, f')) :
    (∃ e, f.table.opening ⟨criteria, scope⟩ since = .error e ∧ result = .error e ∧ f' = f) ∨
    ∃ events, f.table.opening ⟨criteria, scope⟩ since = .ok events ∧
      result = .ok f.table.nextWatch ∧
      f' = f.enlist (f.newWatch scope m criteria timeout events) := by
  unfold watch at h
  cases ho : f.table.opening ⟨criteria, scope⟩ since with
  | error e =>
    simp only [ho, Prod.mk.injEq] at h
    exact Or.inl ⟨e, rfl, h.1.symm, h.2.symm⟩
  | ok events =>
    simp only [ho, Prod.mk.injEq] at h
    exact Or.inr ⟨events, rfl, h.1.symm, h.2.symm⟩

end Focus

namespace Store.Work

variable {scope : Scope} {m : Moment} {f f' : Focus}

/-- What a call does: nothing, and then it has no changes; or it enters the commits its answer tells
of; or it opens a watch. -/
inductive Served (i : Nat) (scope : Scope) (m : Moment) (f : Focus) :
    Work → Except Error Reply × Focus → Prop
  | still {w : Work} {result : Except Error Reply} :
      (∀ reply, result = .ok reply → w.changes f.table reply = []) →
      Served i scope m f w (result, f)
  | mutated {w : Work} {reply : Reply} {verb : Verb} {f' : Focus} :
      Focus.Commits i m.now verb f
        (Commit.number i f.table.definition f.version (w.changes f.table reply)) f' →
      Served i scope m f w (.ok reply, f')
  | opened {criteria : Criteria} {since : Option Version} {timeout : Option Nat}
      {events : List Event} : f.table.opening ⟨criteria, scope⟩ since = .ok events →
      Served i scope m f (.request (.watch criteria since timeout))
        (.ok (.watching ⟨f.table.definition.fullName, f.table.nextWatch⟩),
          f.enlist (f.newWatch scope m criteria timeout events))

theorem serve_update {o : Object} {expected : Option Version} {subresource : Option String}
    {x : Option Subresource} (h : subresource.mapM f.table.definition.subresource = .ok x) :
    (serve scope m (.request (.update o expected subresource)) f).1 =
      (f.replace scope m .update o expected x).1.map .object := by
  simp only [serve, Store.serve, h]
  rfl

theorem serve_update_ok {o : Object} {expected : Option Version} {subresource : Option String}
    {reply : Reply}
    (h : (serve scope m (.request (.update o expected subresource)) f).1 = .ok reply) :
    ∃ x, subresource.mapM f.table.definition.subresource = .ok x ∧
      (f.replace scope m .update o expected x).1.map .object = .ok reply := by
  cases hx : subresource.mapM f.table.definition.subresource with
  | error e =>
    simp only [serve, Store.serve, hx] at h
    cases h
  | ok x => exact ⟨x, rfl, (serve_update hx).symm.trans h⟩

theorem serve_patch {key : Key} {subresource : Option String} {p : Patch} {x : Option Subresource}
    (h : subresource.mapM f.table.definition.subresource = .ok x) :
    (serve scope m (.request (.patch key subresource p)) f).1 =
      (f.patch scope m key x p).1.map .object := by
  simp only [serve, Store.serve, h]

theorem serve_patch_ok {key : Key} {subresource : Option String} {p : Patch} {reply : Reply}
    (h : (serve scope m (.request (.patch key subresource p)) f).1 = .ok reply) :
    ∃ x, subresource.mapM f.table.definition.subresource = .ok x ∧
      (f.patch scope m key x p).1.map .object = .ok reply := by
  cases hx : subresource.mapM f.table.definition.subresource with
  | error e =>
    simp only [serve, Store.serve, hx] at h
    cases h
  | ok x => exact ⟨x, rfl, (serve_patch hx).symm.trans h⟩

/-- A mutation whose answer is the object it puts in its place. -/
theorem served_put {i : Nat} {w : Work} {result : Except Error Object} (verb : Verb)
    (hchanges : ∀ o, w.changes f.table (.object o) = [f.table.put o])
    (h : (∃ e, result = .error e ∧ f' = f) ∨
      ∃ new c, result = .ok new ∧ f.table.put new = c.change ∧
        Focus.Commits i m.now verb f [c] f') :
    Served i scope m f w (result.map .object, f') := by
  rcases h with ⟨e, rfl, rfl⟩ | ⟨new, c, rfl, hput, hc⟩
  · exact .still fun reply hreply => by cases hreply
  · refine .mutated (hc.number ?_)
    rw [hchanges, hput]
    rfl

theorem put_eq {i now : Nat} {verb : Verb} {key : Key} {c : Change}
    (hc : Focus.Commits i now verb f [⟨i, key, f.version.next, c⟩] f') :
    f.table.put c.object =
      match SortedMap.get? f.table.records key with
      | some r => .updated r.object c.object
      | none => .created c.object := by
  have hkey : f.table.definition.key c.object = .ok key := hc.legal.1.placed.key_eq
  rw [Table.put, Definition.keyOf_eq hkey]

theorem put_created {i now : Nat} {verb : Verb} {key : Key} {new : Object}
    (hget : SortedMap.get? f.table.records key = none)
    (hc : Focus.Commits i now verb f [⟨i, key, f.version.next, .created new⟩] f') :
    f.table.put new = .created new := by
  have hput := put_eq hc
  rwa [hget] at hput

theorem put_updated {i now : Nat} {verb : Verb} {key : Key} {r : Record} {new : Object}
    (hget : SortedMap.get? f.table.records key = some r)
    (hc : Focus.Commits i now verb f [⟨i, key, f.version.next, .updated r.object new⟩] f') :
    f.table.put new = .updated r.object new := by
  have hput := put_eq hc
  rwa [hget] at hput

theorem served_create (i : Nat) {o : Object} {result : Except Error Object}
    (h : f.create scope m o = (result, f')) :
    Served i scope m f (.request (.create o)) (result.map .object, f') := by
  refine served_put .create (fun _ => rfl) ?_
  rcases Focus.create_spec i h with he | ⟨new, key, hok, hnew, hc⟩
  · exact Or.inl he
  · exact Or.inr ⟨new, _, hok, put_created hnew hc, hc⟩

theorem served_update {i : Nat} {w : Work} {result : Except Error Object} {verb : Verb}
    (hchanges : ∀ o, w.changes f.table (.object o) = [f.table.put o])
    (h : (∃ e, result = .error e ∧ f' = f) ∨
      ∃ new key r, result = .ok new ∧ SortedMap.get? f.table.records key = some r ∧
        Focus.Commits i m.now verb f [⟨i, key, f.version.next, .updated r.object new⟩] f') :
    Served i scope m f w (result.map .object, f') := by
  refine served_put verb hchanges ?_
  rcases h with he | ⟨new, key, r, hok, hget, hc⟩
  · exact Or.inl he
  · exact Or.inr ⟨new, _, hok, put_updated hget hc, hc⟩

theorem served_delete (i : Nat) (hf : Filed f.table.definition f.table.records) {key : Key}
    {precondition : Option Version} {result : Except Error Object}
    (h : f.delete scope m key precondition = (result, f')) :
    Served i scope m f (.request (.delete key precondition)) (result.map .object, f') := by
  rcases Focus.delete_spec i hf h with ⟨e, rfl, rfl⟩ | ⟨tombstone, rfl, hc⟩
  · exact .still fun reply hreply => by cases hreply
  · exact .mutated (hc.number rfl)

theorem served_deleteCollection (i : Nat) (hf : Filed f.table.definition f.table.records)
    {criteria : Criteria} {result : Except Error (List Object)}
    (h : f.deleteCollection scope m criteria = (result, f')) :
    Served i scope m f (.request (.deleteCollection criteria)) (result.map .tombstones, f') := by
  rcases Focus.deleteCollection_spec i hf h with ⟨e, rfl, rfl⟩ | ⟨tombstones, log, rfl, hc, hmap⟩
  · exact .still fun reply hreply => by cases hreply
  · exact .mutated (hc.number hmap)

theorem served_watch (i : Nat) {criteria : Criteria} {since : Option Version}
    {timeout : Option Nat} {result : Except Error Nat}
    (h : f.watch scope m criteria since timeout = (result, f')) :
    Served i scope m f (.request (.watch criteria since timeout))
      (result.map fun id => .watching ⟨f.table.definition.fullName, id⟩, f') := by
  rcases Focus.watch_spec h with ⟨e, -, rfl, rfl⟩ | ⟨events, hopening, rfl, rfl⟩
  · exact .still fun reply hreply => by cases hreply
  · exact .opened hopening

/-- **Every call is served in one of these ways.** -/
theorem serve_spec (i : Nat) (hf : Filed f.table.definition f.table.records) (w : Work) :
    Served i scope m f w (w.serve scope m f) := by
  cases w with
  | writeBack o read subresource =>
    exact served_update (fun _ => rfl) (Focus.replace_spec i hf rfl)
  | request r =>
    cases r with
    | create o => exact served_create i rfl
    | get key => exact .still fun reply _ => by cases reply <;> rfl
    | list criteria => exact .still fun reply _ => by cases reply <;> rfl
    | watch criteria since timeout => exact served_watch i rfl
    | update o expected subresource =>
      simp only [serve, Store.serve]
      cases subresource.mapM f.table.definition.subresource with
      | error e => exact .still fun reply hreply => by cases hreply
      | ok subresource =>
        exact served_update (fun _ => rfl) (Focus.replace_spec i hf rfl)
    | patch key subresource p =>
      simp only [serve, Store.serve]
      cases subresource.mapM f.table.definition.subresource with
      | error e => exact .still fun reply hreply => by cases hreply
      | ok subresource =>
        exact served_update (fun _ => rfl) (Focus.patch_spec i hf rfl)
    | delete key precondition => exact served_delete i hf rfl
    | deleteCollection criteria => exact served_deleteCollection i hf rfl

end Store.Work

end ControlPlane
