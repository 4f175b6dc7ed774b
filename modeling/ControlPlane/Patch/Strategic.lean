import ControlPlane.Patch.Directive

/-!
# Strategic merge patches

A strategic patch merges like a JSON merge patch, except that it may hold directives, and that a
list whose path the kind declares is merged with the list in the target, as a set or by the key of
its elements. Other lists are replaced.

A path is the dotted sequence of the keys that lead to a value. Elements of lists contribute nothing
to it.
-/

namespace ControlPlane.Patch

/-- The list with the items added that it does not yet contain. `skip` leaves out bare
directives. -/
def mergeSet (skip : Bool) (items target : List Json) : List Json :=
  items.foldl (fun target item =>
    if (skip && isBareDirective item) || target.contains item then target
    else target ++ [item]) target

/-- The position of the first element with a value at a key. -/
def position? (key : String) (id : Json) (target : List Json) : Option Nat :=
  target.findIdx? fun element => (element.member? key).any (· == id)

/-- Puts an element at a position, or at the end. -/
def put (target : List Json) (position : Option Nat) (element : Json) : List Json :=
  match position with
  | some i => target.set i element
  | none => target ++ [element]

mutual

/-- The target with a strategic patch applied, or nothing if the patch removes it. -/
def strategicValue (d : Definition) :
    Json → String → Option Json → Except PatchFault (Option Json)
  | .null, _, _ => .ok none
  | .obj patch, path, target => do
    let directive ← directive patch
    if directive = .delete then return none
    else
      let start := directive.start ((target.bind Json.members?).getD [])
      let merged ← strategicMembers d patch path start
      return some (.obj (← applyDeletions path patch merged))
  | .arr items, path, target => do
    let skip := items.any isReplaceMarker
    let base := if skip then [] else (target.bind Json.items?).getD []
    match d.listStrategy? path with
    | none => return some (.arr items)
    | some .set => return some (.arr (mergeSet skip items base))
    | some (.keyed key) => return some (.arr (← strategicElements d items path key skip base))
  | scalar, _, _ => .ok (some scalar)
termination_by structural patch => patch

/-- The members of the target with those of a patch merged into them, directives aside. -/
def strategicMembers (d : Definition) :
    List (String × Json) → String → Json.Members → Except PatchFault Json.Members
  | [], _, target => .ok target
  | (key, value) :: patch, path, target =>
    if isDirectiveKey key then strategicMembers d patch path target
    else do
      let merged ← strategicValue d value (joinPath path key) (SortedMap.get? target key)
      strategicMembers d patch path (SortedMap.set target key merged)
termination_by structural patch => patch

/-- The elements of a keyed list with those of a patch merged into them. -/
def strategicElements (d : Definition) :
    List Json → String → String → Bool → List Json → Except PatchFault (List Json)
  | [], _, _, _, target => .ok target
  | item :: items, path, key, skip, target =>
    if skip && isBareDirective item then strategicElements d items path key skip target
    else
      match item with
      | .obj patch => do
        match (SortedMap.get? patch key).filter (!·.isNull) with
        | none => .error (.elementWithoutKey path key)
        | some id =>
          let position := position? key id target
          let directive ← directive patch
          if directive = .delete then
            let rest := match position with
              | some i => target.eraseIdx i
              | none => target
            strategicElements d items path key skip rest
          else
            let element := (position.bind (target[·]?)).bind Json.members?
            let merged ← strategicMembers d patch path (directive.start (element.getD []))
            let merged ← applyDeletions path patch merged
            strategicElements d items path key skip (put target position (.obj merged))
      | _ => .error (.elementNotAnObject path key)
termination_by structural items => items

end

/-- The document of an object with a strategic patch applied. -/
def applyStrategic (d : Definition) (target patch : Json) : Except PatchFault Json := do
  match ← strategicValue d patch "" (some target) with
  | some merged => return merged
  | none => .error .deletesObject

end ControlPlane.Patch
