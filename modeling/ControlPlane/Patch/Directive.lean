import ControlPlane.Definition

/-!
# Directives in strategic patches

A strategic patch may hold directives among its members:

* `$patch` in a map or in an element of a keyed list: `merge`, `replace` (start from nothing) or
  `delete`;
* an element with nothing but `"$patch": "replace"`: the list starts from nothing;
* `$deleteFromPrimitiveList/field`: values to remove from the list in `field`.

Every other member whose key starts with a dollar sign is ignored.
-/

namespace ControlPlane.Patch

/-- What a map in a patch does to its target. -/
inductive Directive where
  | merge
  | replace
  | delete
deriving DecidableEq, Repr

/-- The key of directives. -/
def directiveKey : String := "$patch"

/-- The beginning of the keys that delete values from a set. -/
def deletionStart : String := "$deleteFromPrimitiveList/"

/-- The directive in a map; without one the map is merged. -/
def directive (patch : Json.Members) : Except PatchFault Directive :=
  match SortedMap.get? patch directiveKey with
  | none => .ok .merge
  | some (.str "merge") => .ok .merge
  | some (.str "replace") => .ok .replace
  | some (.str "delete") => .ok .delete
  | some value => .error (.unknownDirective value)

/-- What a map is merged into: its target, unless the directive is to start from nothing. -/
def Directive.start (directive : Directive) (target : Json.Members) : Json.Members :=
  if directive = .replace then [] else target

/-- The field whose list a key deletes values from. -/
def deletionField? (key : String) : Option String :=
  (Text.after? deletionStart.toList key.toList).map String.ofList

/-- The key starts with a dollar sign. -/
def isDirectiveKey (key : String) : Bool := key.toList.head? = some '$'

/-- The path of a member. -/
def joinPath (path key : String) : String := if path.isEmpty then key else path ++ "." ++ key

/-- The element is a directive to start the list from nothing. -/
def isReplaceMarker : Json → Bool
  | .obj [(key, .str "replace")] => key = directiveKey
  | _ => false

/-- The element has nothing but a directive. -/
def isBareDirective : Json → Bool
  | .obj [(key, _)] => key = directiveKey
  | _ => false

/-- Removes the values that a patch deletes from sets. The deletions come after everything else. -/
def applyDeletions (path : String) :
    List (String × Json) → Json.Members → Except PatchFault Json.Members
  | [], target => .ok target
  | (key, value) :: patch, target =>
    match deletionField? key with
    | none => applyDeletions path patch target
    | some field =>
      match value with
      | .arr values =>
        match SortedMap.get? target field with
        | some (.arr items) =>
          applyDeletions path patch
            (SortedMap.insert target field (.arr (items.filter fun item => !values.contains item)))
        | _ => applyDeletions path patch target
      | _ => .error (.deletionsNotAList (joinPath path field) field)

end ControlPlane.Patch
