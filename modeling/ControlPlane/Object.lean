import ControlPlane.Error
import ControlPlane.Label.Selector
import ControlPlane.Schema.Meta

/-!
# Objects

A stored object has a type, metadata, and any other members. The metadata the store itself reads or
writes are fields of their own; the rest of the metadata is kept in the normal form of its shape.

* `Object.decode`: reads a JSON document as an object.
* `Object.toJson`: the document of an object.
* `Metadata.toMembers`, `Metadata.ofMembers`: the metadata as members and back.
-/

namespace ControlPlane

/-- The type an object names. -/
structure TypeMeta where
  apiVersion : String
  kind : String
deriving DecidableEq, Repr

/-- The metadata of an object. The times among them, that of the creation and those of other
members, are kept as they are shown, to whole seconds: the fraction that an instant in memory has
until it is shown is left out. -/
structure Metadata where
  name : Option String
  ns : Option String
  /-- The beginning of a name that the store completes. -/
  generateName : Option String
  uid : Option String
  resourceVersion : Option String
  creationTimestamp : Option String
  generation : Option Int
  labels : Option Labels
  /-- The other members, in normal form. -/
  rest : Json.Members
deriving Repr

namespace Metadata

/-- Metadata without any member. -/
def empty : Metadata := ⟨none, none, none, none, none, none, none, none, []⟩

instance : Inhabited Metadata := ⟨empty⟩

/-- The members that are fields of their own. -/
def fieldNames : List String :=
  ["name", "namespace", "generateName", "uid", "resourceVersion", "creationTimestamp",
    "generation", "labels"]

/-- A map of labels as a JSON object. -/
def labelsJson (labels : Labels) : Json := .obj (labels.map fun e => (e.1, .str e.2))

/-- The labels that a JSON object holds. -/
def labelsOf? : Json → Option Labels
  | .obj members => members.mapM fun e => e.2.text?.map fun v => (e.1, v)
  | _ => none

/-- The integer that a JSON value holds. -/
def intOf? : Json → Option Int
  | .num (.int n) => some n
  | _ => none

/-- The metadata with the given members, which are in normal form. -/
def ofMembers (members : Json.Members) : Metadata :=
  let text (key : String) := (SortedMap.get? members key).bind Json.text?
  { name := text "name"
    ns := text "namespace"
    generateName := text "generateName"
    uid := text "uid"
    resourceVersion := text "resourceVersion"
    creationTimestamp := text "creationTimestamp"
    generation := (SortedMap.get? members "generation").bind intOf?
    labels := (SortedMap.get? members "labels").bind labelsOf?
    rest := members.filter fun e => !fieldNames.contains e.1 }

/-- The members of the metadata. -/
def toMembers (m : Metadata) : Json.Members :=
  let put (members : Json.Members) (e : String × Option Json) := match e.2 with
    | some value => SortedMap.insert members e.1 value
    | none => members
  [("name", m.name.map Json.str), ("namespace", m.ns.map Json.str),
    ("generateName", m.generateName.map Json.str), ("uid", m.uid.map Json.str),
    ("resourceVersion", m.resourceVersion.map Json.str),
    ("creationTimestamp", m.creationTimestamp.map Json.str),
    ("generation", m.generation.map Json.int), ("labels", m.labels.map labelsJson)].foldl put m.rest

end Metadata

/-- A stored object. -/
structure Object where
  types : Option TypeMeta
  metadata : Metadata
  /-- The members besides the type and the metadata. -/
  data : Json.Members
deriving Repr, Inhabited

namespace Object

/-- The name of an object; empty if it has none. -/
def name (o : Object) : String := o.metadata.name.getD ""

/-- The labels of an object; none if it has no map of labels. -/
def labels (o : Object) : Labels := o.metadata.labels.getD []

/-- The type that a document names, if it names both parts by text. -/
def typesOf? (members : Json.Members) : Option TypeMeta :=
  match SortedMap.get? members "apiVersion", SortedMap.get? members "kind" with
  | some (.str apiVersion), some (.str kind) => some ⟨apiVersion, kind⟩
  | _, _ => none

/-- The member is part of the type or the metadata of a document, not of its data. The version is
read before the kind: if it is there but is not a text, the kind is left among the data. -/
def isHead (members : Json.Members) (key : String) : Bool :=
  match key with
  | "apiVersion" | "metadata" => true
  | "kind" =>
    match SortedMap.get? members "apiVersion" with
    | some (.str _) | none => true
    | some _ => false
  | _ => false

/-- Reads a document as an object. A document without both parts of a type has none, and the part it
has is dropped. -/
def decode : Json → Except Error Object
  | .obj members =>
    let metadata? : Option Json.Members :=
      match SortedMap.get? members "metadata" with
      | none => some []
      | some value => (Schema.objectMeta.decode? value).bind Json.members?
    match metadata? with
    | none => .error (.invalid .undecodable)
    | some metadata =>
      .ok
        { types := typesOf? members
          metadata := .ofMembers metadata
          data := members.filter fun e => !isHead members e.1 }
  | _ => .error (.invalid .notAnObject)

/-- The members with one more, unless there is one of that key. -/
def fill (members : Json.Members) (key : String) (value : Json) : Json.Members :=
  if SortedMap.has members key then members else SortedMap.insert members key value

/-- The members of the document of an object. A member of the data comes before a part of the type
of the same key. -/
def toMembers (o : Object) : Json.Members :=
  let members := fill o.data "metadata" (.obj o.metadata.toMembers)
  match o.types with
  | some types => fill (fill members "kind" (.str types.kind)) "apiVersion" (.str types.apiVersion)
  | none => members

/-- The document of an object. -/
def toJson (o : Object) : Json := .obj o.toMembers

/-- The status of an object. -/
def status (o : Object) : Option Json := SortedMap.get? o.data "status"

/-- Replaces or removes the status. -/
def setStatus (o : Object) (status : Option Json) : Object :=
  { o with data := SortedMap.set o.data "status" status }

/-- The object at another resource version. -/
def stamped (o : Object) (v : Version) : Object :=
  { o with metadata := { o.metadata with resourceVersion := some v.text } }

end Object

end ControlPlane
