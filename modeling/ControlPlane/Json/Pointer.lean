import ControlPlane.Json.Basic
import ControlPlane.Text.Cut

/-!
# Pointers into JSON values

A pointer is a list of tokens, each of which names a member of an object or the position of an item
in a list. A position is written in decimal without leading zeros.

* `Pointer.ofPath`: the pointer of a dotted path. A slash in the path separates tokens too, and
  `~1` and `~0` stand for a slash and a tilde.
* `Json.at?`, `Json.modifyAt`: the value at a pointer, and the value with that part changed.
-/

namespace ControlPlane

/-- The tokens that lead to a part of a value. -/
abbrev Pointer := List String

namespace Pointer

/-- Replaces every `~1` by a slash. -/
def slashes : List Char → List Char
  | '~' :: '1' :: cs => '/' :: slashes cs
  | c :: cs => c :: slashes cs
  | [] => []

/-- Replaces every `~0` by a tilde. -/
def tildes : List Char → List Char
  | '~' :: '0' :: cs => '~' :: tildes cs
  | c :: cs => c :: tildes cs
  | [] => []

/-- The pointer of a dotted path. -/
def ofPath (path : String) : Pointer :=
  let pieces := (Text.splitAt '.' path.toList).flatMap (Text.splitAt '/')
  pieces.map fun piece => String.ofList (tildes (slashes piece))

/-- The position that a token names. -/
def position? (token : String) : Option Nat :=
  match token.toList with
  | [] => none
  | ['0'] => some 0
  | '0' :: _ => none
  | digits =>
    if digits.all Char.isDigit then
      some (digits.foldl (fun n c => 10 * n + (c.toNat - '0'.toNat)) 0)
    else none

end Pointer

namespace Json

/-- The value at a pointer. -/
def at? : Json → Pointer → Option Json
  | json, [] => some json
  | .obj members, token :: rest => (SortedMap.get? members token).bind (at? · rest)
  | .arr items, token :: rest =>
    ((Pointer.position? token).bind (items[·]?)).bind (at? · rest)
  | _, _ :: _ => none
termination_by structural _ pointer => pointer

/-- The value with the part at a pointer changed; unchanged if there is no such part. -/
def modifyAt (f : Json → Json) : Json → Pointer → Json
  | json, [] => f json
  | .obj members, token :: rest =>
    match SortedMap.get? members token with
    | some value => .obj (SortedMap.insert members token (modifyAt f value rest))
    | none => .obj members
  | .arr items, token :: rest =>
    match Pointer.position? token with
    | some i => .arr (items.modify i (modifyAt f · rest))
    | none => .arr items
  | json, _ :: _ => json
termination_by structural _ pointer => pointer

end Json

end ControlPlane
