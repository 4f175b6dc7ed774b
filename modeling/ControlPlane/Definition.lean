import ControlPlane.Criteria
import ControlPlane.Key
import ControlPlane.Kind
import ControlPlane.Object

/-!
# Definitions

A definition is what a store knows about a kind: the kind itself, whether its status is written
apart, how its lists are merged, which lists hold conditions, and which fields selectors may name.

* `Definition.validate`: an object is well formed for the kind.
* `Definition.key`: the key of an object, whose namespace must suit the kind.
* `Definition.field?`: the text of a declared field.
-/

namespace ControlPlane

/-- How a strategic patch merges a list. -/
inductive ListStrategy where
  /-- The elements are objects known by the value of a key. -/
  | keyed (key : String)
  /-- The elements form a set of values. -/
  | set
deriving DecidableEq, Repr

/-- A field that selectors may name, and the members that lead to its value. -/
structure DeclaredField where
  label : String
  path : List String
deriving DecidableEq, Repr

/-- What a store knows about a kind. -/
structure Definition where
  kind : Kind
  /-- The status is a subresource: it is written apart from the rest. -/
  hasStatus : Bool
  /-- The merged lists, by the dotted path of members that leads to them. Elements of lists
  contribute nothing to a path. -/
  lists : List (String × ListStrategy)
  /-- The dotted paths of the lists of conditions. -/
  conditions : List String
  fields : List DeclaredField
deriving Repr, Inhabited

namespace Definition

/-! ## Building -/

/-- The definition of a kind. The lists of every object's metadata are merged. -/
def ofKind (kind : Kind) : Definition where
  kind := kind
  hasStatus := false
  lists := [("metadata.ownerReferences", .keyed "uid"), ("metadata.finalizers", .set)]
  conditions := []
  fields := []

/-- Makes the status a subresource. -/
def statusApart (d : Definition) : Definition := { d with hasStatus := true }

/-- Declares how the list at a path is merged. -/
def listAt (d : Definition) (path : String) (strategy : ListStrategy) : Definition :=
  { d with lists := d.lists ++ [(path, strategy)] }

/-- Declares a list of conditions, which is merged by the type of the conditions. -/
def conditionsAt (d : Definition) (path : String) : Definition :=
  { d with conditions := d.conditions ++ [path] }.listAt path (.keyed "type")

/-- Declares a field under another name than its path. -/
def fieldNamed (d : Definition) (label path : String) : Definition :=
  let path := (Text.splitAt '.' path.toList).map String.ofList
  { d with fields := d.fields ++ [⟨label, path⟩] }

/-- Declares a field. -/
def fieldAt (d : Definition) (path : String) : Definition := d.fieldNamed path path

/-- Declares some fields. -/
def fieldsAt (d : Definition) (paths : List String) : Definition := paths.foldl fieldAt d

/-! ## Names -/

/-- The name of the kind. -/
def name (d : Definition) : String := d.kind.name

/-- The name of the kind of lists. -/
def listName (d : Definition) : String := d.kind.name ++ "List"

/-- The type of the kind's objects. -/
def typeMeta (d : Definition) : TypeMeta := ⟨d.kind.apiVersion, d.kind.name⟩

/-- The name that no other kind has: group, version and name. -/
def fullName (d : Definition) : String := d.kind.apiVersion ++ "/" ++ d.kind.name

/-! ## Schema -/

/-- How the list at a path is merged, if that is declared. The first declaration counts. -/
def listStrategy? (d : Definition) (path : String) : Option ListStrategy :=
  (d.lists.find? fun e => e.1 == path).map (·.2)

/-- Selectors may name the field. -/
def declares (d : Definition) (label : String) : Bool := d.fields.any (·.label == label)

/-- The text of a value in a field. Values that are not scalars read like a missing field. -/
def fieldText : Json → String
  | .str s => s
  | .bool b => if b then "true" else "false"
  | .num n => n.text
  | _ => ""

/-- The value that some members lead to. -/
def walk? : List String → Json → Option Json
  | [], value => some value
  | key :: path, value => (value.member? key).bind (walk? path)

/-- The text of a field of an object; none if the kind does not declare the field. A declared field
that is missing is empty. -/
def field? (d : Definition) (o : Object) (label : String) : Option String :=
  (d.fields.find? fun f => f.label == label).map fun f =>
    ((walk? f.path (.obj o.data)).map fieldText).getD ""

/-- What criteria look at in an object of the kind. -/
def subject (d : Definition) (o : Object) : Subject where
  name := o.name
  ns := o.metadata.ns
  labels := o.labels
  field? := d.field? o

/-! ## Checks -/

/-- The object is well formed for the kind: it names no other type, and it has the shape of the
kind. -/
def validate (d : Definition) (o : Object) : Except Error Unit :=
  let shaped :=
    if (d.kind.decode? o.toJson).isSome then .ok ()
    else .error (.invalid (.undecodableAs d.name o.name))
  match o.types with
  | some types =>
    if types = d.typeMeta then shaped
    else .error (.invalid (.wrongType d.kind.apiVersion d.name types.apiVersion types.kind))
  | none => shaped

/-- The key of an object. It has a namespace exactly if the kind is namespaced; an empty namespace
is none. -/
def key (d : Definition) (o : Object) : Except Error Key :=
  if o.name.isEmpty then .error (.invalid (.nameMissing d.name))
  else
    match d.kind.namespaced, o.metadata.ns.filter (!·.isEmpty) with
    | true, none => .error (.invalid (.namespaceMissing d.name o.name))
    | false, some ns => .error (.invalid (.namespaceGiven d.name o.name ns))
    | _, ns => .ok ⟨ns, o.name⟩

/-! ## Empty documents -/

/-- The empty object of the kind. -/
def empty (d : Definition) : Except Error Object := Object.decode d.kind.empty

/-- The document of a list of the kind. -/
def listJson (d : Definition) (version : Version) (items : List Json) : Json :=
  .ofMembers [("apiVersion", .str d.kind.apiVersion), ("kind", .str d.listName),
    ("metadata", .obj [("resourceVersion", .str version.text)]), ("items", .arr items)]

/-- The text that identifies a definition in diagnostics. -/
def describe (d : Definition) : String :=
  let word (b : Bool) := if b then "true" else "false"
  "Descriptor \x7b api_version: " ++ Text.quoted d.kind.apiVersion ++ ", kind: " ++
    Text.quoted d.name ++ ", plural: " ++ Text.quoted d.kind.plural ++ ", namespaced: " ++
    word d.kind.namespaced ++ ", status_subresource: " ++ word d.hasStatus ++ " \x7d"

end Definition

end ControlPlane
