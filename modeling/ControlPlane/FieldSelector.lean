import ControlPlane.Error
import ControlPlane.Text.Blank

/-!
# Field selectors

A field selector compares fields of an object, named by dotted paths, with given values. Its text is
a list of terms `path=value`, `path==value` or `path!=value`, separated by commas. Blanks around
paths and values are ignored, and a blank text has no terms.

* `FieldRequirement.holds`: a field meets a requirement if it resolves to a text that does.
* `FieldSelector.parse`, `FieldSelector.text`: reading a selector, and its text.
-/

namespace ControlPlane

open Text (trim cut? splitAt join)

/-- How a field is compared. -/
inductive FieldOperator where
  | equals
  | differs
deriving DecidableEq, Repr

/-- A requirement on one field. -/
structure FieldRequirement where
  path : String
  operator : FieldOperator
  value : String
deriving DecidableEq, Repr

namespace FieldRequirement

/-- Whether a field meets the requirement. A field that does not resolve never does. -/
def holds (r : FieldRequirement) (field? : String → Option String) : Bool :=
  match field? r.path with
  | some v =>
    match r.operator with
    | .equals => v == r.value
    | .differs => v != r.value
  | none => false

/-- Reads a requirement. The operator that is looked for first wins, wherever it stands. -/
def parse (term : List Char) : Except Error FieldRequirement :=
  let parts? :=
    match cut? ['!', '='] term with
    | some (path, value) => some (path, FieldOperator.differs, value)
    | none =>
      match cut? ['=', '='] term with
      | some (path, value) => some (path, .equals, value)
      | none => (cut? ['='] term).map fun p => (p.1, .equals, p.2)
  match parts? with
  | none => .error (.invalidSelector (.fieldTerm (String.ofList term)))
  | some (path, operator, value) =>
    let path := trim path
    if path.isEmpty ∨ path.head? = some '.' ∨ path.getLast? = some '.' then
      .error (.invalidSelector (.fieldPath (String.ofList term)))
    else .ok ⟨String.ofList path, operator, String.ofList (trim value)⟩

/-- The text of a requirement. -/
def text (r : FieldRequirement) : String :=
  match r.operator with
  | .equals => r.path ++ "=" ++ r.value
  | .differs => r.path ++ "!=" ++ r.value

end FieldRequirement

/-- A selector of objects by their fields: every requirement must hold. -/
structure FieldSelector where
  requirements : List FieldRequirement
deriving DecidableEq, Repr

namespace FieldSelector

/-- The selector has no requirement, so it selects everything. -/
def isEmpty (s : FieldSelector) : Bool := s.requirements.isEmpty

/-- The fields the selector names, in order. -/
def paths (s : FieldSelector) : List String := s.requirements.map (·.path)

/-- Whether the selector selects an object, whose fields resolve as given. -/
def «matches» (s : FieldSelector) (field? : String → Option String) : Bool :=
  s.requirements.all (·.holds field?)

/-- Reads a selector. The first term at fault is reported. -/
def parse (s : String) : Except Error FieldSelector :=
  if (trim s.toList).isEmpty then .ok ⟨[]⟩
  else ((splitAt ',' s.toList).mapM FieldRequirement.parse).map FieldSelector.mk

/-- The text of a selector. -/
def text (s : FieldSelector) : String := join "," (s.requirements.map FieldRequirement.text)

end FieldSelector

end ControlPlane
