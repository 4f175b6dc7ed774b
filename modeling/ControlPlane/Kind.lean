import ControlPlane.Schema.Shape

/-!
# Kinds

A kind is the type of a top-level object: its group, version and name, the plural that names its
collection, whether its objects live in namespaces, and the members they may have.

* `Kind.decode?`: the normal form of an object of the kind.
* `Kind.empty`: the empty object of the kind.
-/

namespace ControlPlane

/-- A kind of top-level objects. -/
structure Kind where
  /-- The API group; empty for the core group. -/
  group : String
  version : String
  name : String
  plural : String
  namespaced : Bool
  /-- The members besides the type. -/
  fields : List (Field × Shape)
deriving Repr, Inhabited

namespace Kind

/-- The version with its group, as objects name it. -/
def apiVersion (k : Kind) : String :=
  if k.group.isEmpty then k.version else k.group ++ "/" ++ k.version

/-- The member, if present, is the text given. -/
def agrees (members : Json.Members) (key text : String) : Bool :=
  match SortedMap.get? members key with
  | none => true
  | some (.str s) => s == text
  | some _ => false

/-- The members of a document in normal form, with the type of the kind. -/
def typed (k : Kind) (members : Json.Members) : Json :=
  .obj (SortedMap.insert (SortedMap.insert members "apiVersion" (.str k.apiVersion)) "kind"
    (.str k.name))

/-- The normal form of a document as an object of the kind. A document of another type is refused;
one without a type is not. -/
def decode? (k : Kind) : Json → Option Json
  | .obj members =>
    if agrees members "apiVersion" k.apiVersion && agrees members "kind" k.name then
      (Shape.decodeFields? k.fields members).map k.typed
    else none
  | _ => none

/-- The empty object of the kind. -/
def empty (k : Kind) : Json := k.typed (Shape.emptyMembers k.fields)

end Kind

end ControlPlane
