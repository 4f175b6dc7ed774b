import ControlPlane.Json.Basic

/-!
# JSON merge patches

An object merges into its target member by member: `null` removes a member, and any other value is
merged into the member of the same key. A patch that is not an object replaces its target.
-/

namespace ControlPlane.Json

mutual

/-- The target with a merge patch applied. A target that is not an object counts as an empty one if
the patch is an object. -/
def mergePatch : Json → Json → Json
  | .obj patch, target => .obj (mergePatchMembers patch target.members)
  | patch, _ => patch
termination_by structural patch => patch

/-- The members of the target with the members of a patch merged into them. -/
def mergePatchMembers : List (String × Json) → Members → Members
  | [], target => target
  | (key, value) :: patch, target =>
    if value.isNull then mergePatchMembers patch (SortedMap.erase target key)
    else
      mergePatchMembers patch
        (SortedMap.insert target key (mergePatch value ((SortedMap.get? target key).getD .null)))
termination_by structural patch => patch

end

end ControlPlane.Json
