import ControlPlane.FieldSelector
import ControlPlane.Label.Parser

/-!
# Selection criteria

Lists and watches select objects by name, namespace, labels and fields. A criterion that is missing
selects everything, and an object is selected if every criterion selects it.

The fields `metadata.name` and `metadata.namespace` resolve for every object; the other fields are
those its kind declares.
-/

namespace ControlPlane

/-- What criteria look at in an object. -/
structure Subject where
  name : String
  ns : Option String
  labels : Labels
  /-- Resolves the fields that the object's kind declares. -/
  field? : String → Option String

namespace Subject

/-- Resolves a field. -/
def resolve (x : Subject) (path : String) : Option String :=
  if path = "metadata.name" then some x.name
  else if path = "metadata.namespace" then some (x.ns.getD "")
  else x.field? path

end Subject

/-- Selection criteria. -/
structure Criteria where
  /-- The object has one of these names. -/
  names : Option (SortedSet String)
  /-- The object is in this namespace. -/
  ns : Option String
  labels : Option LabelSelector
  fields : Option FieldSelector
deriving DecidableEq, Repr

namespace Criteria

/-- The criteria that select every object. -/
def all : Criteria := ⟨none, none, none, none⟩

/-- The criteria of a namespace and the texts of two selectors. The labels are read first. -/
def ofQuery (ns labels fields : Option String) : Except Error Criteria := do
  let labels ← labels.mapM LabelSelector.parse
  let fields ← fields.mapM FieldSelector.parse
  return ⟨none, ns, labels, fields⟩

/-- The field resolves for objects of every kind. -/
def isUniversal (path : String) : Bool :=
  path = "metadata.name" || path = "metadata.namespace"

/-- Refuses a field selector that names a field which is not declared. -/
def requireDeclared (c : Criteria) (declared : String → Bool) : Except Error Unit :=
  let paths := (c.fields.map FieldSelector.paths).getD []
  match paths.find? fun path => !(isUniversal path || declared path) with
  | some path => .error (.invalidSelector (.unknownField path))
  | none => .ok ()

/-- Whether the criteria select an object. -/
def «matches» (c : Criteria) (x : Subject) : Bool :=
  c.names.all (·.contains x.name) && c.ns.all (fun ns => x.ns == some ns) &&
    c.labels.all (·.matches x.labels) && c.fields.all (·.matches x.resolve)

end Criteria

end ControlPlane
