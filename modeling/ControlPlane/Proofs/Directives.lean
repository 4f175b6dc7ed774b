import ControlPlane.Proofs.StrategicItems
import ControlPlane.Schema.Kinds

/-!
# Directives in what is merged

A directive is meant for the merge and has no place in what comes of it. Where a strategic patch is
merged, it leaves none: of a map or of an element with a key only members are written whose keys do
not start with a dollar sign. But some values of a patch are not merged: a list at a path without a
strategy takes the place of the one in the target, and an item is added to a set as it is. Nothing
looks into these values, so a directive in them, even the marker that is to start the list from
nothing, is stored with the object.

* `Patch.isDirective`, `Patch.hasDirective`: directives, and values with one at some depth.
* `Patch.takenOver`: the items that a patch has in lists that are not merged.
* `Patch.free_members`, `Patch.free_deletions`, `Patch.free_elements`: what is merged has no
  directives.
* `Patch.free_of_taken`: the only directives are in items that were taken over.
* `Patch.marker_stored`: a marker that is stored.
-/

namespace ControlPlane

namespace Patch

variable {d : Definition} {path key : String} {skip : Bool} {item : Json}
  {items merged target : List Json} {patch members : Json.Members}

/-! ## Directives -/

/-- The key is that of a directive, or deletes values from a set. -/
def isDirective (key : String) : Bool := key == directiveKey || (deletionField? key).isSome

mutual

/-- An object in the value, at whatever depth, has a directive among its members. -/
def hasDirective : Json → Bool
  | .arr items => anyHasDirective items
  | .obj members => anyIsDirective members
  | _ => false

/-- One of the items has. -/
def anyHasDirective : List Json → Bool
  | [] => false
  | item :: items => hasDirective item || anyHasDirective items

/-- One of the members is a directive, or its value has one. -/
def anyIsDirective : List (String × Json) → Bool
  | [] => false
  | (key, value) :: members => isDirective key || hasDirective value || anyIsDirective members

end

theorem free_arr :
    hasDirective (.arr items) = false ↔ ∀ item ∈ items, hasDirective item = false := by
  rw [hasDirective]
  induction items with
  | nil => simp [anyHasDirective]
  | cons item items ih => simp [anyHasDirective, ih]

theorem free_obj : hasDirective (.obj members) = false ↔
    ∀ e ∈ members, isDirective e.1 = false ∧ hasDirective e.2 = false := by
  rw [hasDirective]
  induction members with
  | nil => simp [anyIsDirective]
  | cons e members ih => simp [anyIsDirective, ih]

/-- The keys of directives start with a dollar sign. -/
theorem isDirective_eq_false (h : isDirectiveKey key = false) : isDirective key = false := by
  have hne : key ≠ directiveKey := by
    rintro rfl
    exact absurd h (by decide)
  rw [isDirective, deletionField?_eq_none h, beq_eq_false_iff_ne.mpr hne]
  rfl

/-- Nothing, or a value without directives. -/
def Free (value : Option Json) : Prop := ∀ v, value = some v → hasDirective v = false

theorem free_none : Free none := nofun

theorem free_some {value : Json} : Free (some value) ↔ hasDirective value = false := by
  simp [Free]

theorem free_get? (h : hasDirective (.obj members) = false) (key : String) :
    Free (SortedMap.get? members key) :=
  fun _ hv => (free_obj.mp h _ (SortedMap.mem_of_get? hv)).2

theorem free_insert (h : hasDirective (.obj members) = false) (hkey : isDirective key = false)
    {value : Json} (hvalue : hasDirective value = false) :
    hasDirective (.obj (SortedMap.insert members key value)) = false := by
  refine free_obj.mpr fun e he => ?_
  rcases SortedMap.eq_or_mem_of_mem_insert he with rfl | he
  · exact ⟨hkey, hvalue⟩
  · exact free_obj.mp h e he

theorem free_set (h : hasDirective (.obj members) = false) (hkey : isDirective key = false)
    {value : Option Json} (hvalue : Free value) :
    hasDirective (.obj (SortedMap.set members key value)) = false := by
  cases value with
  | none => exact free_obj.mpr fun e he => free_obj.mp h e (List.mem_filter.mp he).1
  | some value => exact free_insert h hkey (hvalue value rfl)

theorem free_start (action : Directive) {value : Option Json} (h : Free value) :
    hasDirective (.obj (action.start ((value.bind Json.members?).getD []))) = false := by
  rcases start_cases action value with hnil | ⟨members, rfl, hmembers⟩
  · rw [hnil]
    rfl
  · rw [hmembers]
    exact h _ rfl

theorem free_base {value : Option Json} (h : Free value) :
    ∀ e ∈ if skip then [] else (value.bind Json.items?).getD [], hasDirective e = false := by
  split
  · exact List.forall_mem_nil _
  · rcases items_cases value with hnil | ⟨items, rfl, hitems⟩
    · rw [hnil]
      exact List.forall_mem_nil _
    · rw [hitems]
      exact free_arr.mp (h _ rfl)

/-! ## What is taken over -/

mutual

/-- The items that a patch has in lists that are not merged: those at paths without a strategy, and
those that are added to sets. -/
def takenOver (d : Definition) : Json → String → List Json
  | .obj members, path => takenOverByMembers d members path
  | .arr items, path =>
    match d.listStrategy? path with
    | none => items
    | some .set =>
      items.filter fun item => !(items.any isReplaceMarker && isBareDirective item)
    | some (.keyed _) => takenOverByItems d items path
  | _, _ => []
termination_by structural patch => patch

/-- Those that the members of an object at the path have. Values of directives are not merged. -/
def takenOverByMembers (d : Definition) : List (String × Json) → String → List Json
  | [], _ => []
  | (key, value) :: members, path =>
    (if isDirectiveKey key then [] else takenOver d value (joinPath path key)) ++
      takenOverByMembers d members path
termination_by structural members => members

/-- Those that the elements of a list at the path have. -/
def takenOverByItems (d : Definition) : List Json → String → List Json
  | [], _ => []
  | item :: items, path => takenOver d item path ++ takenOverByItems d items path
termination_by structural items => items

end

theorem mem_takenOverByMembers {e : String × Json} (he : e ∈ members)
    (hkey : isDirectiveKey e.1 = false) (h : item ∈ takenOver d e.2 (joinPath path e.1)) :
    item ∈ takenOverByMembers d members path := by
  induction members with
  | nil => cases he
  | cons entry members ih =>
    rw [takenOverByMembers, List.mem_append]
    rcases List.mem_cons.mp he with rfl | he
    · exact Or.inl (by rwa [if_neg (by simp [hkey])])
    · exact Or.inr (ih he)

theorem mem_takenOverByItems {e : Json} (he : e ∈ items) (h : item ∈ takenOver d e path) :
    item ∈ takenOverByItems d items path := by
  induction items with
  | nil => cases he
  | cons first items ih =>
    rw [takenOverByItems, List.mem_append]
    rcases List.mem_cons.mp he with rfl | he
    · exact Or.inl h
    · exact Or.inr (ih he)

/-- All that the patch takes over is without directives. -/
def TakesFree (d : Definition) (path : String) (patch : Json) : Prop :=
  ∀ item ∈ takenOver d patch path, hasDirective item = false

/-- Merging the patch leaves no directives, if there are none in what it takes over. -/
def MergesFree (d : Definition) (patch : Json) : Prop :=
  ∀ (path : String) (target result : Option Json), Free target → TakesFree d path patch →
    strategicValue d patch path target = .ok result → Free result

/-! ## What is merged -/

/-- **Members that are merged have no directives.** -/
theorem free_members {out : Json.Members} (hpatch : ∀ e ∈ patch, MergesFree d e.2)
    (htaken : ∀ e ∈ patch, isDirectiveKey e.1 = false → TakesFree d (joinPath path e.1) e.2)
    (hmembers : hasDirective (.obj members) = false)
    (h : strategicMembers d patch path members = .ok out) : hasDirective (.obj out) = false := by
  induction patch generalizing members with
  | nil =>
    rw [strategicMembers] at h
    obtain rfl := Except.ok.inj h
    exact hmembers
  | cons entry patch ih =>
    obtain ⟨name, value⟩ := entry
    obtain ⟨hvalue, hpatch⟩ := List.forall_mem_cons.mp hpatch
    obtain ⟨hname, htaken⟩ := List.forall_mem_cons.mp htaken
    rw [strategicMembers] at h
    split at h
    · exact ih hpatch htaken hmembers h
    · next hkey =>
      rw [Bool.not_eq_true] at hkey
      obtain ⟨value', hvalue', h⟩ := bind_eq_ok_iff.mp h
      have hfree : Free value' :=
        hvalue _ _ value' (free_get? hmembers name) (hname hkey) hvalue'
      exact ih hpatch htaken (free_set hmembers (isDirective_eq_false hkey) hfree) h

/-- Deleting values from sets leaves no directives. -/
theorem free_deletions {out : Json.Members} (hmembers : hasDirective (.obj members) = false)
    (h : applyDeletions path patch members = .ok out) : hasDirective (.obj out) = false := by
  induction patch generalizing members with
  | nil =>
    rw [applyDeletions] at h
    obtain rfl := Except.ok.inj h
    exact hmembers
  | cons entry patch ih =>
    obtain ⟨name, value⟩ := entry
    rw [applyDeletions] at h
    split at h
    · exact ih hmembers h
    · next field _ =>
      split at h
      · split at h
        · next items hitems =>
          obtain ⟨hfield, hfree⟩ := free_obj.mp hmembers _ (SortedMap.mem_of_get? hitems)
          refine ih (free_insert hmembers hfield (free_arr.mpr fun e he => ?_)) h
          exact free_arr.mp hfree e (List.mem_filter.mp he).1
        · exact ih hmembers h
      · cases h

theorem mergesFree_obj (hpatch : ∀ e ∈ patch, MergesFree d e.2) : MergesFree d (.obj patch) := by
  intro path target result htarget htaken h
  rcases strategicValue_obj_cases h with ⟨-, rfl⟩ | ⟨-, action, merged, out, hmerged, hout, rfl⟩
  · exact free_none
  · refine free_some.mpr
      (free_deletions (free_members hpatch ?_ (free_start action htarget) hmerged) hout)
    intro e he hkey item hitem
    exact htaken item (mem_takenOverByMembers he hkey hitem)

/-- **Elements with keys that are merged have no directives.** -/
theorem free_elements (hitems : ∀ item ∈ items, MergesFree d item)
    (htaken : ∀ item ∈ items, TakesFree d path item)
    (htarget : ∀ e ∈ target, hasDirective e = false)
    (h : strategicElements d items path key skip target = .ok merged) :
    ∀ e ∈ merged, hasDirective e = false := by
  induction items generalizing target with
  | nil =>
    rw [strategicElements] at h
    obtain rfl := Except.ok.inj h
    exact htarget
  | cons item items ih =>
    obtain ⟨hitem, hitems⟩ := List.forall_mem_cons.mp hitems
    obtain ⟨hfirst, htaken⟩ := List.forall_mem_cons.mp htaken
    rcases exists_item h with ⟨-, hrest⟩ | ⟨patch, id, element, -, -, helement, hrest⟩
    · exact ih hitems htaken htarget hrest
    · have hold : Free (target.find? (carries key id)) :=
        fun v hv => htarget v (List.mem_of_find?_eq_some hv)
      have hfree : Free element := hitem _ _ element hold hfirst helement
      refine ih hitems htaken (fun e he => ?_) hrest
      rcases mem_replaceFirst he with he | he
      · exact hfree e he
      · exact htarget e he

theorem mem_mergeSet {e : Json} (h : e ∈ mergeSet skip items target) :
    e ∈ target ∨ e ∈ items ∧ (skip && isBareDirective e) = false := by
  induction items generalizing target with
  | nil => exact Or.inl h
  | cons item items ih =>
    rw [mergeSet, List.foldl_cons, ← mergeSet] at h
    rcases ih h with h | ⟨he, hskip⟩
    · split at h
      · exact Or.inl h
      · next hnew =>
        rcases List.mem_append.mp h with h | h
        · exact Or.inl h
        · obtain rfl := List.mem_singleton.mp h
          simp only [Bool.or_eq_true, not_or, Bool.not_eq_true] at hnew
          exact Or.inr ⟨List.mem_cons_self, hnew.1⟩
    · exact Or.inr ⟨List.mem_cons_of_mem _ he, hskip⟩

theorem mergesFree_arr (hitems : ∀ item ∈ items, MergesFree d item) :
    MergesFree d (.arr items) := by
  intro path target result htarget htaken h
  rw [TakesFree, takenOver] at htaken
  cases hlist : d.listStrategy? path with
  | none =>
    simp only [strategicValue, hlist] at h
    simp only [hlist] at htaken
    obtain rfl := pure_eq_ok_iff.mp h
    exact free_some.mpr (free_arr.mpr htaken)
  | some strategy =>
    cases strategy with
    | set =>
      simp only [strategicValue, hlist] at h
      simp only [hlist] at htaken
      obtain rfl := pure_eq_ok_iff.mp h
      refine free_some.mpr (free_arr.mpr fun e he => ?_)
      rcases mem_mergeSet he with he | ⟨he, hskip⟩
      · exact free_base htarget e he
      · exact htaken e (List.mem_filter.mpr ⟨he, by rw [hskip]; rfl⟩)
    | keyed key =>
      simp only [hlist] at htaken
      obtain ⟨merged, rfl, helements⟩ := strategicValue_keyed hlist h
      refine free_some.mpr (free_arr.mpr
        (free_elements hitems (fun e he item hitem => ?_) (free_base htarget) helements))
      exact htaken item (mem_takenOverByItems he hitem)

/-- **What is merged has no directives.** -/
theorem mergesFree (d : Definition) (patch : Json) : MergesFree d patch := by
  induction patch using Json.induction_parts with
  | scalar json h =>
    intro path target result _ _ hmerge
    cases json with
    | null =>
      obtain rfl := Except.ok.inj hmerge
      exact free_none
    | arr items => exact h.elim
    | obj members => exact h.elim
    | _ =>
      obtain rfl := Except.ok.inj hmerge
      exact free_some.mpr rfl
  | arr items ih => exact mergesFree_arr ih
  | obj members ih => exact mergesFree_obj ih

/-- **The only directives that are stored are in items that were taken over.** If there are none in
what a strategic patch is merged into, and none in the items that the patch has in lists without a
strategy or for sets, then there are none in what comes of it, at whatever depth. -/
theorem free_of_taken {original document result : Json} (horiginal : hasDirective original = false)
    (htaken : ∀ item ∈ takenOver d document "", hasDirective item = false)
    (h : applyStrategic d original document = .ok result) : hasDirective result = false := by
  obtain ⟨value, hvalue, h⟩ := bind_eq_ok_iff.mp h
  have hfree := mergesFree d document "" _ _ (free_some.mpr horiginal) htaken hvalue
  cases value with
  | none => cases h
  | some merged =>
    obtain rfl := pure_eq_ok_iff.mp h
    exact free_some.mp hfree

/-- A pod with some containers and some tolerations. -/
def tolerantPod (containers tolerations : List Json) : Json :=
  .obj [("spec", .obj [("containers", .arr containers), ("tolerations", .arr tolerations)])]

/-- Pods, whose containers are known by their names. Tolerations are not merged. -/
def tolerantKind : Definition :=
  (Definition.ofKind Schema.pod).listAt "spec.containers" (.keyed "name")

/-- A container is deleted, and the tolerations are replaced. -/
theorem free_of_taken_pod :
    hasDirective (tolerantPod [.obj [("name", .str "a")]] []) = false ∧
      hasDirective (tolerantPod [] [.obj [("key", .str "k")]]) = false := by
  have htaken : ∀ item ∈ takenOver tolerantKind
      (tolerantPod [.obj [("$patch", .str "delete"), ("name", .str "a")]]
        [.obj [("key", .str "k")]]) "", hasDirective item = false :=
    List.forall_mem_singleton.mpr rfl
  have hmerge : applyStrategic tolerantKind (tolerantPod [.obj [("name", .str "a")]] [])
      (tolerantPod [.obj [("$patch", .str "delete"), ("name", .str "a")]]
        [.obj [("key", .str "k")]]) = .ok (tolerantPod [] [.obj [("key", .str "k")]]) := rfl
  exact ⟨rfl, free_of_taken rfl htaken hmerge⟩

/-- **A marker is stored.** The patch is to start the tolerations from nothing. They are replaced in
any case, and the marker becomes one of them, also in the object that the whole patch makes. -/
theorem marker_stored :
    let old := tolerantPod [] [.obj [("key", .str "old")]]
    let marked := tolerantPod [] [.obj [("$patch", .str "replace")], .obj [("key", .str "k")]]
    hasDirective old = false ∧ applyStrategic tolerantKind old marked = .ok marked ∧
      hasDirective marked = true ∧
      ∃ o, (strategic marked).applyTo tolerantKind
          ⟨some tolerantKind.typeMeta, { Metadata.empty with name := some "p" }, old.members⟩ none
          ⟨2024, 1, 1, 0, 0, 0, 0⟩ = .ok o ∧ o.data = marked.members :=
  ⟨rfl, rfl, rfl, _, rfl, rfl⟩

end Patch

end ControlPlane
