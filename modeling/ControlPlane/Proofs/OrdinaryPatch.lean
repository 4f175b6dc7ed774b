import ControlPlane.Proofs.StrategicItems
import ControlPlane.Schema.Kinds

/-!
# Strategic patches that are ordinary ones

A strategic patch says more than a JSON merge patch in two ways only: by keys that start with a
dollar sign, and by lists whose paths the kind declares. A patch that does neither is merged alike
by both. Both follow the keys of the patch and nothing else, so the proof follows them too: a `null`
removes its member, an object is merged into what is there, or into nothing if that is no object,
and any other value, a list included, takes the place of what is there. What is inside a list is
never looked at, so it may hold anything.

* `Patch.isOrdinary`: the patch has nothing strategic in it.
* `Patch.strategicValue_ordinary`: it is merged like a JSON merge patch, at every path.
* `Patch.strategic_eq_merge`: the two strategies agree.
-/

namespace ControlPlane

namespace Patch

variable {d : Definition} {path key : String} {patch : Json.Members}

/-! ## Patches with nothing strategic in them -/

mutual

/-- No object that keys lead to in the patch has a key that starts with a dollar sign, and no list
that keys lead to is at a path with a strategy. -/
def isOrdinary (d : Definition) : Json → String → Bool
  | .obj members, path => areOrdinary d members path
  | .arr _, path => (d.listStrategy? path).isNone
  | _, _ => true
termination_by structural patch => patch

/-- The same of every member of an object at the path. -/
def areOrdinary (d : Definition) : List (String × Json) → String → Bool
  | [], _ => true
  | (key, value) :: members, path =>
    !isDirectiveKey key && isOrdinary d value (joinPath path key) && areOrdinary d members path
termination_by structural members => members

end

theorem areOrdinary_iff :
    areOrdinary d patch path = true ↔ ∀ e ∈ patch,
      isDirectiveKey e.1 = false ∧ isOrdinary d e.2 (joinPath path e.1) = true := by
  induction patch with
  | nil => simp [areOrdinary]
  | cons e patch ih =>
    simp only [areOrdinary, Bool.and_eq_true, Bool.not_eq_true', ih, List.forall_mem_cons]

theorem directive_ordinary (h : areOrdinary d patch path = true) :
    directive patch = .ok .merge := by
  have hnone : SortedMap.get? patch directiveKey = none := by
    rw [Option.eq_none_iff_forall_ne_some]
    intro value hvalue
    have hkey : isDirectiveKey directiveKey = false :=
      (areOrdinary_iff.mp h _ (SortedMap.mem_of_get? hvalue)).1
    exact absurd hkey (by decide)
  rw [directive, hnone]

theorem applyDeletions_ordinary (h : areOrdinary d patch path = true) (members : Json.Members) :
    applyDeletions path patch members = .ok members :=
  applyDeletions_eq_self (fun e he => deletionField?_eq_none (areOrdinary_iff.mp h e he).1) members

/-! ## Merging them -/

theorem members_getD (target : Option Json) :
    (target.bind Json.members?).getD [] = (target.getD .null).members := by
  cases target with
  | none => rfl
  | some value => cases value <;> rfl

mutual

/-- **An ordinary patch is merged like a JSON merge patch.** -/
theorem strategicValue_ordinary : (patch : Json) → (path : String) →
    isOrdinary d patch path = true → (target : Option Json) →
    strategicValue d patch path target = .ok (Json.mergeOption (some patch) target)
  | .null, _, _, _ => rfl
  | .bool _, _, _, _ => rfl
  | .num _, _, _, _ => rfl
  | .str _, _, _, _ => rfl
  | .arr items, path, h, target => by
    have hlist : d.listStrategy? path = none := Option.isNone_iff_eq_none.mp h
    simp only [strategicValue, hlist]
    rfl
  | .obj patch, path, h, target => by
    have hstart : Directive.start .merge ((target.bind Json.members?).getD []) =
        (target.getD .null).members := (if_neg nofun).trans (members_getD target)
    have hmembers := strategicMembers_ordinary patch path h (target.getD .null).members
    simp only [strategicValue, directive_ordinary h, hstart, bind, Except.bind, hmembers,
      applyDeletions_ordinary h]
    rfl

theorem strategicMembers_ordinary : (patch : List (String × Json)) → (path : String) →
    areOrdinary d patch path = true → (target : Json.Members) →
    strategicMembers d patch path target = .ok (Json.mergePatchMembers patch target)
  | [], _, _, _ => rfl
  | (key, value) :: patch, path, h, target => by
    obtain ⟨⟨hkey, hvalue⟩, hpatch⟩ := List.forall_mem_cons.mp (areOrdinary_iff.mp h)
    have hmerge := strategicValue_ordinary value (joinPath path key) hvalue
      (SortedMap.get? target key)
    have hrest := strategicMembers_ordinary patch path (areOrdinary_iff.mpr hpatch)
    rw [strategicMembers, if_neg (by simp [hkey]), hmerge, Json.mergePatchMembers]
    simp only [bind, Except.bind, hrest, Json.mergeOption]
    by_cases hnull : value.isNull = true
    · rw [if_pos hnull, if_pos hnull]
      rfl
    · rw [if_neg hnull, if_neg hnull]
      rfl

end

/-- **The two strategies agree where they should.** A patch in which no object that keys lead to has
a key that starts with a dollar sign, and no list that keys lead to is at a path with a strategy, is
merged alike by both, whatever it is merged into. So it makes the same of every object, or is
refused for the same reason. -/
theorem strategic_eq_merge (h : isOrdinary d (.obj patch) "" = true) :
    (∀ original, applyStrategic d original (.obj patch) =
      .ok (Json.mergePatch (.obj patch) original)) ∧
    ∀ current subresource now, (strategic (.obj patch)).applyTo d current subresource now =
      (merge (.obj patch)).applyTo d current subresource now := by
  have hmerge (original : Json) : applyStrategic d original (.obj patch) =
      .ok (Json.mergePatch (.obj patch) original) := by
    rw [applyStrategic, strategicValue_ordinary (.obj patch) "" h]
    rfl
  refine ⟨hmerge, fun current subresource now => ?_⟩
  have hmerged : merged d true current.toJson (.obj patch) =
      merged d false current.toJson (.obj patch) := by
    rw [merged, if_pos rfl, hmerge]
    rfl
  simp only [applyTo, applyDocument, hmerged]

/-- A node with some labels and other members. -/
def labelledNode (labels data : Json.Members) : Json :=
  .obj [("metadata", .obj [("labels", .obj labels), ("name", .str "n")]), ("spec", .obj data)]

/-- A patch that removes a label, adds one, and replaces a list. No node's taints are merged, so the
directive among them is an item like any other. -/
def relabelPatch : Json.Members :=
  [("metadata", .obj [("labels", .obj [("new", .str "1"), ("old", .null)])]),
    ("spec", .obj [("taints", .arr [.obj [("$patch", .str "replace")]])])]

theorem strategic_eq_merge_node :
    isOrdinary (.ofKind Schema.node) (.obj relabelPatch) "" = true ∧
      applyStrategic (.ofKind Schema.node)
          (labelledNode [("old", .str "1")] [("taints", .arr [.str "t"])]) (.obj relabelPatch) =
        .ok (labelledNode [("new", .str "1")]
          [("taints", .arr [.obj [("$patch", .str "replace")]])]) := by
  have hpatch : isOrdinary (.ofKind Schema.node) (.obj relabelPatch) "" = true := rfl
  exact ⟨hpatch, (strategic_eq_merge hpatch).1 _⟩

end Patch

end ControlPlane
