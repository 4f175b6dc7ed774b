import ControlPlane.Label.Selector
import ControlPlane.Schema.Meta

/-!
# Structured label selectors

Documents hold label selectors in structured form, with the operators by name. Such a selector
converts to a label selector unless one of its operators is unknown.
-/

namespace ControlPlane

/-- A requirement in structured form. -/
structure StructuredRequirement where
  key : String
  operator : String
  values : Option (List String)
deriving DecidableEq, Repr

/-- A label selector in structured form. -/
structure StructuredSelector where
  matchLabels : Option Labels
  matchExpressions : Option (List StructuredRequirement)
deriving DecidableEq, Repr

/-- The operator of a name. -/
def LabelOperator.ofName? : String → Option LabelOperator
  | "In" => some .oneOf
  | "NotIn" => some .noneOf
  | "Exists" => some .present
  | "DoesNotExist" => some .absent
  | _ => none

/-- The requirement that a structured one stands for. -/
def StructuredRequirement.toRequirement (r : StructuredRequirement) :
    Except Error LabelRequirement :=
  match LabelOperator.ofName? r.operator with
  | some operator => .ok (.of r.key operator (r.values.getD []))
  | none => .error (.invalidSelector (.unknownOperator r.operator r.key))

namespace StructuredSelector

/-- The label selector that a structured one stands for. -/
def toSelector (s : StructuredSelector) : Except Error LabelSelector := do
  let requirements ← (s.matchExpressions.getD []).mapM (·.toRequirement)
  return ⟨s.matchLabels, some requirements⟩

/-- The texts of a list. -/
def texts? : Json → Option (List String)
  | .arr items => items.mapM Json.text?
  | _ => none

/-- The requirement in a document that is in normal form. -/
def requirementOf? (json : Json) : Option StructuredRequirement := do
  let key ← (json.member? "key").bind Json.text?
  let operator ← (json.member? "operator").bind Json.text?
  return ⟨key, operator, (json.member? "values").bind texts?⟩

/-- The structured selector in a document, if it has the shape of one. -/
def ofJson? (json : Json) : Option StructuredSelector := do
  let json ← Schema.labelSelector.decode? json
  let labels := (json.member? "matchLabels").bind fun labels =>
    labels.members.mapM fun e => e.2.text?.map fun v => (e.1, v)
  let requirements := (json.member? "matchExpressions").bind fun requirements =>
    (requirements.items?.getD []).mapM requirementOf?
  return ⟨labels, requirements⟩

end StructuredSelector

end ControlPlane
