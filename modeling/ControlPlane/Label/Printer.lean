import ControlPlane.Label.Selector

/-!
# Writing label selectors

A selector is written with one spelling for each requirement: `key=value` for a label that must be
present, `key in (a,b)` and `key notin (a,b)` with the values in ascending order, `key` and `!key`.
-/

namespace ControlPlane

open Text (join)

/-- The text of a requirement. -/
def LabelRequirement.text (r : LabelRequirement) : String :=
  match r.operator with
  | .oneOf => r.key ++ " in (" ++ join "," r.values ++ ")"
  | .noneOf => r.key ++ " notin (" ++ join "," r.values ++ ")"
  | .present => r.key
  | .absent => "!" ++ r.key

/-- The text of a selector: the labels that must be present, and then the requirements. -/
def LabelSelector.text (s : LabelSelector) : String :=
  join "," ((s.matchLabels.getD []).map (fun e => e.1 ++ "=" ++ e.2) ++
    (s.matchExpressions.getD []).map LabelRequirement.text)

end ControlPlane
