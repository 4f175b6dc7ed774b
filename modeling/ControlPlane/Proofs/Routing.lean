import ControlPlane.Proofs.Views

/-!
# Which view a path addresses

A path leads to a derived view exactly if it is the path of the view or lies below it, as long as
the name of the view is one that a path can give: not empty, and without a slash. No path at all
leads to a view of any other name, and its own path leads elsewhere, be it to the base view.

* `ViewScheme.viewName?_eq_some_iff`: the name that a path gives.
* `Server.view?_run`: a derived view is there for good.
* `Server.route_exact`: the paths that lead to a derived view.
* `Server.route_astray`: two views that their own paths do not lead to.
-/

namespace ControlPlane

/-! ## Paths below a path -/

/-- A path is another one, or lies below it. -/
def AtOrBelow (root path : String) : Prop := path = root ∨ ∃ text, path = root ++ "/" ++ text

theorem atOrBelow_iff {root path : String} :
    AtOrBelow root path ↔
      ∃ rest, path.toList = root.toList ++ rest ∧ (rest = [] ∨ ∃ text, rest = '/' :: text) := by
  constructor
  · rintro (rfl | ⟨text, rfl⟩)
    · exact ⟨[], (List.append_nil _).symm, Or.inl rfl⟩
    · exact ⟨'/' :: text.toList, by simp, Or.inr ⟨_, rfl⟩⟩
  · rintro ⟨rest, hpath, rfl | ⟨text, rfl⟩⟩
    · exact Or.inl (String.toList_inj.mp (hpath.trans (List.append_nil _)))
    · exact Or.inr ⟨String.ofList text, String.toList_inj.mp (by simp [hpath])⟩

/-! ## Names on paths -/

namespace ViewScheme

variable {x : ViewScheme} {name path : String} {cs : List Char}

/-- The name can be given by a path. -/
def Addressable (name : String) : Prop := name ≠ "" ∧ '/' ∉ name.toList

theorem toList_path (x : ViewScheme) (name : String) :
    (x.path name).toList = x.stem ++ '/' :: name.toList := String.toList_ofList

/-- What stands before the first slash has no slash, and the rest is empty or begins with it. -/
theorem split_at_slash (cs : List Char) :
    '/' ∉ cs.takeWhile (· ≠ '/') ∧
      (cs.dropWhile (· ≠ '/') = [] ∨ ∃ text, cs.dropWhile (· ≠ '/') = '/' :: text) := by
  constructor
  · intro hmem
    simpa using List.all_eq_true.mp List.all_takeWhile _ hmem
  · have hhead := List.head?_dropWhile_not (· ≠ '/') cs
    cases hrest : cs.dropWhile (· ≠ '/') with
    | nil => exact Or.inl rfl
    | cons c text =>
      rw [hrest] at hhead
      have hc : c = '/' := by simpa using hhead
      exact Or.inr ⟨text, by rw [hc]⟩

/-- A name without a slash ends where the path does, or at the next slash. -/
theorem takeWhile_split {rest : List Char} (hcs : '/' ∉ cs)
    (hrest : rest = [] ∨ ∃ text, rest = '/' :: text) :
    (cs ++ rest).takeWhile (· ≠ '/') = cs := by
  have hall : ∀ c ∈ cs, decide (c ≠ '/') = true := by
    intro c hc
    have hne : c ≠ '/' := fun h => hcs (h ▸ hc)
    simpa using hne
  rw [List.takeWhile_append_of_pos hall]
  rcases hrest with rfl | ⟨text, rfl⟩ <;> simp

/-- A path below the root gives the name before its next slash, if there is one. -/
theorem viewName?_below (h : path.toList = x.stem ++ '/' :: cs) :
    x.viewName? path =
      if (cs.takeWhile (· ≠ '/')).isEmpty then none
      else some (String.ofList (cs.takeWhile (· ≠ '/'))) := by
  have hstem : Text.after? x.stem path.toList = some ('/' :: cs) := Text.after?_eq_some_iff.mpr h
  have hslash : Text.after? ['/'] ('/' :: cs) = some cs := Text.after?_eq_some_iff.mpr rfl
  simp only [viewName?, hstem, Option.bind_eq_bind, Option.bind_some, hslash]

/-- Only a path below the root gives a name. -/
theorem below_of_viewName? (h : x.viewName? path = some name) :
    ∃ cs, path.toList = x.stem ++ '/' :: cs := by
  simp only [viewName?, Option.bind_eq_bind, Option.bind_eq_some_iff,
    Text.after?_eq_some_iff] at h
  obtain ⟨_, hpath, cs, rfl, -⟩ := h
  exact ⟨cs, hpath⟩

/-- **A path gives a name exactly if it is the path of the name or lies below it**, and the name is
one that a path can give. -/
theorem viewName?_eq_some_iff :
    x.viewName? path = some name ↔ Addressable name ∧ AtOrBelow (x.path name) path := by
  rw [atOrBelow_iff, toList_path]
  constructor
  · intro h
    obtain ⟨cs, hpath⟩ := below_of_viewName? h
    rw [viewName?_below hpath] at h
    obtain ⟨hslash, hrest⟩ := split_at_slash cs
    split at h
    · cases h
    · next hne =>
      have hname : name.toList = cs.takeWhile (· ≠ '/') := by
        rw [← Option.some.inj h, String.toList_ofList]
      refine ⟨⟨?_, hname ▸ hslash⟩, cs.dropWhile (· ≠ '/'), ?_, hrest⟩
      · rintro rfl
        exact hne (by rw [← hname]; rfl)
      · rw [hpath, hname, List.append_assoc, List.cons_append, List.takeWhile_append_dropWhile]
  · rintro ⟨⟨hne, hslash⟩, rest, hpath, hrest⟩
    rw [List.append_assoc, List.cons_append] at hpath
    have hnil : name.toList.isEmpty = false := by
      cases hcs : name.toList with
      | nil => exact absurd (String.toList_eq_nil_iff.mp hcs) hne
      | cons c cs => rfl
    rw [viewName?_below hpath, takeWhile_split hslash hrest, hnil, String.ofList_toList]
    rfl

end ViewScheme

/-! ## Derived views -/

namespace Server

variable {s : Server} {name path : String} {v : View}

/-- A view that is added is there, whether it is new or was there before. -/
theorem view?_addView (s : Server) (name : String) (namespaces : Option (List String)) :
    (s.addView name namespaces).2.view? name = some (s.addView name namespaces).1 := by
  cases h : s.view? name with
  | some v =>
    rw [addView_of_some h, h]
    simp only [addView, h]
  | none =>
    rw [addView_of_none h, view?, SortedMap.get?_insert_self]
    simp only [addView, h]

theorem view?_act (h : s.view? name = some v) (a : Action) : (s.act a).view? name = some v := by
  cases a with
  | addView name' namespaces =>
    cases h' : s.view? name' with
    | some v' =>
      rw [act, addView_of_some h']
      exact h
    | none =>
      have hne : name ≠ name' := by
        rintro rfl
        rw [h] at h'
        cases h'
      rw [act, addView_of_none h', view?, SortedMap.get?_insert_of_ne _ _ hne]
      exact h
  | store a => exact h

/-- **A derived view is there for good.** -/
theorem view?_run (h : s.view? name = some v) (actions : List Action) :
    (s.run actions).view? name = some v := by
  induction actions generalizing s with
  | nil => exact h
  | cons a actions ih => exact ih (view?_act h a)

/-- Every view that a server is to start with is there. -/
theorem exists_view?_run (s : Server) {namespaces : Option (List String)}
    {views : List (String × Option (List String))} (h : (name, namespaces) ∈ views) :
    ∃ v, (s.run (views.map fun v => .addView v.1 v.2)).view? name = some v := by
  obtain ⟨before, after, rfl⟩ := List.append_of_mem h
  rw [List.map_append, List.map_cons, run, List.foldl_append, List.foldl_cons]
  exact ⟨_, view?_run (view?_addView _ name namespaces) _⟩

/-- A path leads to a derived view exactly if it gives its name. -/
theorem route_eq_iff (hs : s.Formed) (h : s.view? name = some v) :
    s.route path = .ok v ↔ s.scheme.viewName? path = some name := by
  have hname {name' : String} {v' : View} (h' : s.view? name' = some v') :
      v'.name = some name' := by
    obtain ⟨namespaces, rfl⟩ := hs name' v' h'
    rfl
  unfold route
  cases hpath : s.scheme.viewName? path with
  | none =>
    -- The base view has no name.
    refine ⟨fun hbase => ?_, nofun⟩
    have hv := hname h
    rw [← Except.ok.inj hbase] at hv
    cases hv
  | some name' =>
    constructor
    · intro hroute
      cases hv' : s.view? name' with
      | none =>
        simp only [hv'] at hroute
        cases hroute
      | some v' =>
        simp only [hv'] at hroute
        obtain rfl := Except.ok.inj hroute
        exact (hname hv').symm.trans (hname h)
    · rintro hname'
      obtain rfl := Option.some.inj hname'
      simp only [h]

/-- **The paths that lead to a derived view** are its own and those below it, if its name is one
that a path can give, and none at all otherwise. Every derived view that a server starts with, or
that is added, is there for good. -/
theorem route_exact (catalog : Catalog) (limits : WatchLimits) (x : ViewScheme)
    (views : List (String × Option (List String))) (actions : List Action) {s : Server}
    (hs : s = (start catalog limits x views).run actions) :
    (∀ name namespaces, (name, namespaces) ∈ views → ∃ v, s.view? name = some v) ∧
    (∀ name namespaces, (s.addView name namespaces).2.view? name =
      some (s.addView name namespaces).1) ∧
    ∀ name v, s.view? name = some v →
      v.name = some name ∧ (∀ later, (s.run later).view? name = some v) ∧
      ∀ path, s.route path = .ok v ↔
        ViewScheme.Addressable name ∧ AtOrBelow v.path path := by
  have hformed : s.Formed := hs ▸ formed_started catalog limits x views actions
  refine ⟨?_, s.view?_addView, ?_⟩
  · intro name namespaces hmem
    obtain ⟨v, hv⟩ := exists_view?_run ⟨Store.empty catalog limits, x, []⟩ hmem
    rw [← start_eq_run] at hv
    exact ⟨v, hs ▸ view?_run hv actions⟩
  · intro name v hv
    obtain ⟨namespaces, rfl⟩ := hformed name v hv
    refine ⟨rfl, view?_run hv, ?_⟩
    intro path
    rw [route_eq_iff hformed hv, ViewScheme.viewName?_eq_some_iff]
    rfl

/-- A server of config maps with some views. -/
def configViews (x : ViewScheme) (names : List String) : Server :=
  start Store.configCatalog ⟨2, 1000, 2⟩ x (names.map fun name => (name, none))

/-- A path below that of a view, under a root with slashes at its end. -/
theorem route_exact_below :
    ∃ v, (configViews ⟨"/v//", "tenant"⟩ ["a", "ab"]).view? "ab" = some v ∧ v.path = "/v/ab" ∧
      (configViews ⟨"/v//", "tenant"⟩ ["a", "ab"]).route "/v/ab/api/pods" = .ok v := by
  obtain ⟨-, -, hall⟩ := route_exact Store.configCatalog ⟨2, 1000, 2⟩ ⟨"/v//", "tenant"⟩
    [("a", none), ("ab", none)] [] rfl
  refine ⟨_, rfl, rfl, ((hall "ab" _ rfl).2.2 _).mpr ⟨?_, Or.inr ⟨"api/pods", rfl⟩⟩⟩
  exact ⟨by decide, by decide⟩

/-- **Views whose names no path can give are not found at their own paths**: that of a name with a
slash leads to another view, and that of the empty name to the base view. -/
theorem route_astray :
    ∃ v v' w, (configViews .standard ["a", "a/b", ""]).view? "a/b" = some v ∧
      (configViews .standard ["a", "a/b", ""]).route v.path = .ok v' ∧ v' ≠ v ∧
      (configViews .standard ["a", "a/b", ""]).view? "" = some w ∧
      (configViews .standard ["a", "a/b", ""]).route w.path = .ok .base ∧ .base ≠ w :=
  ⟨.derived .standard "a/b" none, .derived .standard "a" none, .derived .standard "" none,
    rfl, rfl, by decide, rfl, rfl, by decide⟩

end Server

end ControlPlane
