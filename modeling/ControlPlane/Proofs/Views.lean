import ControlPlane.Proofs.Separation
import ControlPlane.Server

/-!
# Views are kept apart

The derived views of a server have one label, each with its own name as the value, so no object lies
in two of them. Every call through one of them leaves the others alone, and what it creates,
replaces or removes lies in the view before and after. So no call moves an object into a view or out
of it.

* `Server.run`: a server after some actions, each of which derives a view or acts on the store.
* `Server.formed_run`: every view of a server is derived from its scheme under its own name.
* `Server.views_integral`: calls through a derived view, on every server that can be reached.
-/

namespace ControlPlane

/-! ## Derived views -/

namespace View

theorem derived_scope (x : ViewScheme) (name : String) (namespaces : Option (List String)) :
    (derived x name namespaces).scope =
      .partition ⟨x.label, name, namespaces.map SortedSet.ofMembers⟩ := by
  cases namespaces <;> rfl

/-- Derived views of different names have no object in common. -/
theorem disjoint_derived (x : ViewScheme) {name name' : String} (hne : name ≠ name')
    (namespaces namespaces' : Option (List String)) :
    (derived x name namespaces).scope.Disjoint (derived x name' namespaces').scope := by
  intro o ho
  rw [derived_scope] at ho ⊢
  simp only [Scope.contains, Bool.and_eq_true, beq_iff_eq] at ho
  have hvalue : (SortedMap.get? o.labels x.label == some name') = false := by
    rw [ho.1]
    simpa using hne
  simp only [Scope.contains, hvalue, Bool.false_and]

end View

/-! ## Runs of a server -/

namespace Server

/-- What happens to a server. -/
inductive Action where
  | addView (name : String) (namespaces : Option (List String))
  | store (a : Store.Action)

/-- The server after an action. -/
def act (s : Server) : Action → Server
  | .addView name namespaces => (s.addView name namespaces).2
  | .store a => { s with store := (s.store.act a).2 }

/-- The server after some actions. -/
def run (s : Server) (actions : List Action) : Server := actions.foldl act s

/-- What happens to the store, if anything does. -/
def Action.store? : Action → Option Store.Action
  | addView .. => none
  | store a => some a

theorem addView_of_some {s : Server} {name : String} {v : View} (h : s.view? name = some v)
    (namespaces : Option (List String)) : (s.addView name namespaces).2 = s := by
  simp only [addView, h]

theorem addView_of_none {s : Server} {name : String} (h : s.view? name = none)
    (namespaces : Option (List String)) :
    (s.addView name namespaces).2 =
      { s with views := SortedMap.insert s.views name (.derived s.scheme name namespaces) } := by
  simp only [addView, h]

/-- The store of a server runs by itself. -/
theorem run_store (s : Server) (actions : List Action) :
    (s.run actions).store = s.store.run (actions.filterMap Action.store?) := by
  induction actions generalizing s with
  | nil => rfl
  | cons a actions ih =>
    rw [show s.run (a :: actions) = (s.act a).run actions from rfl, ih]
    cases a with
    | addView name namespaces =>
      have hstore : (s.addView name namespaces).2.store = s.store := by
        cases h : s.view? name with
        | some v => rw [addView_of_some h]
        | none => rw [addView_of_none h]
      rw [act, hstore]
      rfl
    | store a => rfl

/-- Every view of the server is derived from the scheme, under its own name. -/
def Formed (s : Server) : Prop :=
  ∀ name v, s.view? name = some v → ∃ namespaces, v = View.derived s.scheme name namespaces

theorem Formed.addView {s : Server} (hs : s.Formed) (name : String)
    (namespaces : Option (List String)) : (s.addView name namespaces).2.Formed := by
  cases hview : s.view? name with
  | some v =>
    rw [addView_of_some hview]
    exact hs
  | none =>
    rw [addView_of_none hview]
    intro name' v hv
    rw [view?] at hv
    by_cases hname : name' = name
    · subst hname
      rw [SortedMap.get?_insert_self] at hv
      exact ⟨namespaces, (Option.some.inj hv).symm⟩
    · rw [SortedMap.get?_insert_of_ne _ _ hname] at hv
      exact hs name' v hv

/-- **Every view of a server stays derived under its own name.** -/
theorem formed_run {s : Server} (hs : s.Formed) (actions : List Action) :
    (s.run actions).Formed := by
  induction actions generalizing s with
  | nil => exact hs
  | cons a actions ih =>
    cases a with
    | addView name namespaces => exact ih (hs.addView name namespaces)
    | store a => exact ih hs

variable (catalog : Catalog) (limits : WatchLimits) (x : ViewScheme)
  (views : List (String × Option (List String)))

/-- A server starts as one without views that derives its first views. -/
theorem start_eq_run :
    start catalog limits x views =
      run ⟨Store.empty catalog limits, x, []⟩ (views.map fun v => .addView v.1 v.2) := by
  rw [run, List.foldl_map]
  rfl

theorem formed_started (actions : List Action) :
    ((start catalog limits x views).run actions).Formed := by
  rw [start_eq_run]
  exact formed_run (formed_run (fun name v hv => by cases hv) _) _

/-- The store of a server is one that was empty and has run. -/
theorem exists_run_store (actions : List Action) :
    ∃ before, ((start catalog limits x views).run actions).store =
      (Store.empty catalog limits).run before := by
  rw [start_eq_run, run_store, run_store, ← Store.run_append]
  exact ⟨_, rfl⟩

/-- **Calls through a derived view are kept apart from every other derived view.** On every server
that can be reached, a call through the view `a` leaves the records that are visible through `b` as
they were, and gives no event to the watches that were opened through `b`. Whatever it changes is
visible through `a` before, if it is there, and after, if it is still there, and every object it
answers with lies in the view; and no watch ever holds an event of an object outside its view. -/
theorem views_integral (actions : List Action) {s : Server}
    (hs : s = (start catalog limits x views).run actions) {na nb : String} {a b : View}
    (ha : s.view? na = some a) (hb : s.view? nb = some b) (hne : na ≠ nb) (kind : String)
    (m : Moment) (w : Store.Work) :
    (∀ (i : Nat) (t t' : Table), s.store.tables[i]? = some t →
      (s.act (.store (.call kind a.scope m w))).store.tables[i]? = some t' →
      t'.visible b.scope = t.visible b.scope ∧
      t'.heldThrough b.scope = t.heldThrough b.scope ∧
      Confined a.scope t.records t'.records) ∧
    s.store.SameKinds (s.act (.store (.call kind a.scope m w))).store ∧
    (∀ reply, (s.store.act (.call kind a.scope m w)).1 = .answer (.ok reply) →
      ∀ o ∈ reply.objects, a.scope.contains o = true) ∧
    s.store.WatchesWithin := by
  have hformed : s.Formed := hs ▸ formed_started catalog limits x views actions
  obtain ⟨before, hbefore⟩ : ∃ before, s.store = (Store.empty catalog limits).run before :=
    hs ▸ exists_run_store catalog limits x views actions
  have hfollows := Store.follows_reached catalog limits before
  rw [← hbefore] at hfollows
  have hdisjoint : a.scope.Disjoint b.scope := by
    obtain ⟨namespaces, rfl⟩ := hformed na a ha
    obtain ⟨namespaces', rfl⟩ := hformed nb b hb
    exact View.disjoint_derived s.scheme hne namespaces namespaces'
  refine ⟨?_, ?_, ?_, ?_⟩
  · intro i t t' ht ht'
    have hconfined := Store.call_confined hfollows ht ht'
    exact ⟨hconfined.visible_eq _ hdisjoint, hconfined.heldThrough_eq _ hdisjoint,
      hconfined.confined⟩
  · exact Store.sameKinds_act hfollows _
  · intro reply hreply
    exact Store.call_within hfollows hreply
  · rw [hbefore]
    exact Store.watchesWithin_run (Store.follows_empty catalog limits)
      (Store.watchesWithin_empty catalog limits) before

/-- A call for config maps through a derived view. -/
def configThrough (name : String) (r : Store.Request) : Store.Action :=
  .call "v1/ConfigMap" (View.derived .standard name none).scope
    ⟨0, ⟨2024, 1, 1, 0, 0, 0, 0⟩, "uid", "suffix"⟩ (.request r)

/-- A server with two views: one has a config map and is watched, and the other has one too. -/
def configServer : Server :=
  (start Store.configCatalog ⟨2, 1000, 2⟩ .standard [("a", none), ("b", none)]).run
    [.store (configThrough "b"
        (.create ⟨none, { Metadata.empty with name := some "x", ns := some "default" }, []⟩)),
      .store (configThrough "b" (.watch .all (some 0) none)),
      .store (configThrough "a"
        (.create ⟨none, { Metadata.empty with name := some "y", ns := some "default" }, []⟩))]

/-- The other view is emptied. -/
theorem views_integral_configs :
    ∃ t t', configServer.store.tables[0]? = some t ∧
      (configServer.act (.store (configThrough "a" (.deleteCollection .all)))).store.tables[0]? =
        some t' ∧
      t.records.length = 2 ∧ t'.records.length = 1 ∧
      t'.visible (View.derived .standard "b" none).scope =
        t.visible (View.derived .standard "b" none).scope ∧
      t'.heldThrough (View.derived .standard "b" none).scope =
        t.heldThrough (View.derived .standard "b" none).scope ∧
      Confined (View.derived .standard "a" none).scope t.records t'.records := by
  have h := (views_integral Store.configCatalog ⟨2, 1000, 2⟩ .standard
    [("a", none), ("b", none)] _ (s := configServer) rfl (a := .derived .standard "a" none)
    (b := .derived .standard "b" none) rfl rfl (by decide : "a" ≠ "b") "v1/ConfigMap"
    ⟨0, ⟨2024, 1, 1, 0, 0, 0, 0⟩, "uid", "suffix"⟩ (.request (.deleteCollection .all))).1 0
  exact ⟨_, _, rfl, rfl, rfl, rfl, h _ _ rfl rfl⟩

end Server

end ControlPlane
