import ControlPlane.Error
import ControlPlane.SortedMap.Basic

/-!
# Label selectors

A label selector is a list of requirements on the labels of an object, all of which must hold. It
keeps labels that must be present with a given value apart from the other requirements, and either
part may be missing.

* `LabelSelector.matches_iff`: a selector selects a label map exactly if every requirement holds.
-/

namespace ControlPlane

/-- The labels of an object. -/
abbrev Labels := SortedMap String String

/-- What a requirement says about the value at its key. -/
inductive LabelOperator where
  /-- The key is present with one of the values. -/
  | oneOf
  /-- The key is absent, or present with none of the values. -/
  | noneOf
  /-- The key is present. -/
  | present
  /-- The key is absent. -/
  | absent
deriving DecidableEq, Repr

/-- A requirement on one label. The values form a set; only `oneOf` and `noneOf` look at them. -/
structure LabelRequirement where
  key : String
  operator : LabelOperator
  values : SortedSet String
deriving DecidableEq, Repr

namespace LabelRequirement

/-- The requirement whose values are those of a list. -/
def of (key : String) (operator : LabelOperator) (values : List String) : LabelRequirement :=
  ⟨key, operator, SortedSet.ofMembers values⟩

/-- Whether the labels meet the requirement. -/
def holds (r : LabelRequirement) (labels : Labels) : Bool :=
  match r.operator with
  | .oneOf => (SortedMap.get? labels r.key).any fun v => r.values.contains v
  | .noneOf => (SortedMap.get? labels r.key).all fun v => !r.values.contains v
  | .present => SortedMap.has labels r.key
  | .absent => !SortedMap.has labels r.key

end LabelRequirement

/-- A selector of label maps. A part that is missing requires nothing, like an empty one, but is not
equal to it. -/
structure LabelSelector where
  /-- Labels that must be present with the value given. -/
  matchLabels : Option Labels
  /-- The other requirements, in the order given. -/
  matchExpressions : Option (List LabelRequirement)
deriving DecidableEq, Repr

namespace LabelSelector

/-- The selector of a list of requirements. -/
def ofRequirements (requirements : List LabelRequirement) : LabelSelector :=
  ⟨none, some requirements⟩

/-- The selector of the label maps that contain a given one. -/
def ofLabels (labels : Labels) : LabelSelector := ⟨some labels, none⟩

/-- The selector has no requirement, so it selects everything. -/
def isEmpty (s : LabelSelector) : Bool :=
  (s.matchLabels.getD []).isEmpty && (s.matchExpressions.getD []).isEmpty

/-- Whether the selector selects a label map. -/
def «matches» (s : LabelSelector) (labels : Labels) : Bool :=
  (s.matchExpressions.getD []).all (·.holds labels) &&
    (s.matchLabels.getD []).all fun e => SortedMap.get? labels e.1 == some e.2

theorem matches_iff (s : LabelSelector) (labels : Labels) :
    s.matches labels ↔
      (∀ r ∈ s.matchExpressions.getD [], r.holds labels) ∧
        ∀ e ∈ s.matchLabels.getD [], SortedMap.get? labels e.1 = some e.2 := by
  simp [«matches»]

end LabelSelector

end ControlPlane
