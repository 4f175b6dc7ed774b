import ControlPlane.Label.Structured
import ControlPlane.Proofs.SelectorText

/-!
# Structured selectors written as text

A structured selector keeps the labels that must be present apart from its other requirements, and
any operator may come with any list of values. Its text is a list of terms like any other, so it is
read again; what is read selects the same labels, but for one thing that a text cannot say. A list
without values is written as `()`, and that is read as a list with one value, the empty one.

* `LabelRequirement.spelled`: the requirement that the text of a requirement spells.
* `LabelSelector.Writable`: keys and values can stand in a text.
* `LabelSelector.parse_text_of_writable`: what is read from the text of a selector.
* `LabelSelector.structured_text`: what that selects.
* `LabelSelector.list_without_values`: a list without values selects something else.
-/

namespace ControlPlane

namespace LabelRequirement

/-- The values in the text of a requirement. Where there should be some, there is one. -/
def spelledValues (r : LabelRequirement) : SortedSet String :=
  match r.operator with
  | .oneOf | .noneOf => if r.values = [] then [""] else r.values
  | .present | .absent => []

/-- The requirement that the text of a requirement spells. -/
def spelled (r : LabelRequirement) : LabelRequirement := { r with values := r.spelledValues }

/-- The requirement should list values, but has none. -/
def ListsNothing (r : LabelRequirement) : Prop :=
  (r.operator = .oneOf ∨ r.operator = .noneOf) ∧ r.values = []

/-- What the text of a requirement spells says the same, except on an empty value that is taken for
the value of a list without any. -/
theorem holds_spelled {r : LabelRequirement} {labels : Labels}
    (h : r.ListsNothing → SortedMap.get? labels r.key ≠ some "") :
    r.spelled.holds labels = r.holds labels := by
  obtain ⟨key, operator, values⟩ := r
  have hempty (hoperator : operator = .oneOf ∨ operator = .noneOf) (hvalues : values = []) :
      ∀ v, SortedMap.get? labels key = some v → v ≠ "" := by
    rintro v hv rfl
    exact h ⟨hoperator, hvalues⟩ hv
  cases operator with
  | oneOf =>
    by_cases hvalues : values = []
    · have hne := hempty (.inl rfl) hvalues
      cases hget : SortedMap.get? labels key with
      | none => simp only [holds, spelled, hget, Option.any_none]
      | some v => simp [holds, spelled, spelledValues, hget, hvalues, hne v hget]
    · simp only [spelled, spelledValues, if_neg hvalues]
  | noneOf =>
    by_cases hvalues : values = []
    · have hne := hempty (.inr rfl) hvalues
      cases hget : SortedMap.get? labels key with
      | none => simp only [holds, spelled, hget, Option.all_none]
      | some v => simp [holds, spelled, spelledValues, hget, hvalues, hne v hget]
    · simp only [spelled, spelledValues, if_neg hvalues]
  | present => rfl
  | absent => rfl

end LabelRequirement

namespace LabelSelector

open Text (join)

/-- The selector with every requirement as its text spells it. -/
def spelled (x : LabelSelector) : LabelSelector :=
  { x with matchExpressions := x.matchExpressions.map (·.map LabelRequirement.spelled) }

theorem matches_spelled_iff (x : LabelSelector) (labels : Labels) :
    x.spelled.matches labels = true ↔
      (∀ r ∈ x.matchExpressions.getD [], r.spelled.holds labels = true) ∧
        ∀ e ∈ x.matchLabels.getD [], SortedMap.get? labels e.1 = some e.2 := by
  have hexpressions : x.spelled.matchExpressions.getD [] =
      (x.matchExpressions.getD []).map LabelRequirement.spelled := by
    unfold spelled
    cases x.matchExpressions <;> rfl
  rw [matches_iff, hexpressions, List.forall_mem_map]
  rfl

/-- The keys and the values of the selector can stand in a text. -/
structure Writable (x : LabelSelector) : Prop where
  labels : ∀ e ∈ x.matchLabels.getD [], IsKey e.1 ∧ IsRun e.2
  requirements : ∀ r ∈ x.matchExpressions.getD [], IsKey r.key ∧ ∀ v ∈ r.values, IsRun v

/-! ## The terms of a selector -/

/-- The term of a label that must be present. -/
def Term.ofLabel (e : String × String) : Term := ⟨e.1, .oneOf, [e.2]⟩

/-- The term that the text of a requirement spells. -/
def Term.ofRequirement (r : LabelRequirement) : Term := ⟨r.key, r.operator, r.spelledValues⟩

/-- The terms that the text of a selector spells. -/
def terms (x : LabelSelector) : List Term :=
  (x.matchLabels.getD []).map Term.ofLabel ++ (x.matchExpressions.getD []).map Term.ofRequirement

/-- The texts that the text of a selector joins. -/
def texts (x : LabelSelector) : List String :=
  (x.matchLabels.getD []).map (fun e => e.1 ++ "=" ++ e.2) ++
    (x.matchExpressions.getD []).map LabelRequirement.text

theorem Term.holds_ofLabel (e : String × String) (labels : Labels) :
    (ofLabel e).Holds labels ↔ SortedMap.get? labels e.1 = some e.2 := by
  simp [ofLabel, Holds]

theorem Term.holds_ofRequirement (r : LabelRequirement) (labels : Labels) :
    (ofRequirement r).Holds labels ↔ r.spelled.holds labels = true := by
  unfold ofRequirement Holds LabelRequirement.holds LabelRequirement.spelled SortedMap.has
  cases r.operator <;> cases SortedMap.get? labels r.key <;> simp

/-- **The terms of a selector say what the selector says**, as far as it can be spelled. -/
theorem forall_terms_iff (x : LabelSelector) (labels : Labels) :
    (∀ t ∈ x.terms, t.Holds labels) ↔ x.spelled.matches labels = true := by
  rw [matches_spelled_iff, terms, List.forall_mem_append, List.forall_mem_map,
    List.forall_mem_map, and_comm]
  simp only [Term.holds_ofLabel, Term.holds_ofRequirement]

section Spelling

variable {e : String × String} {r : LabelRequirement} {x : LabelSelector}

theorem spells_label (hkey : IsKey e.1) (hvalue : IsRun e.2) :
    Spells (e.1 ++ "=" ++ e.2).toList (.ofLabel e) := by
  have hsign : (['='], LabelOperator.oneOf) ∈ signs := by simp [signs]
  rw [String.toList_append, String.toList_append]
  exact .compared hsign (Text.padded_self _) hkey (Text.padded_self _) hvalue

/-- **The text of a requirement spells its term**, also where there are no values to list. -/
theorem spells_requirement (hkey : IsKey r.key) (hvalues : ∀ v ∈ r.values, IsRun v) :
    Spells r.text.toList (.ofRequirement r) := by
  obtain ⟨key, operator, values⟩ := r
  have hlisted (hoperator : operator = .oneOf ∨ operator = .noneOf) :
      Spells (LabelRequirement.text ⟨key, operator, values⟩).toList
        ⟨key, operator, if values = [] then [""] else values⟩ := by
    by_cases hnil : values = []
    · have hempty : ∀ v ∈ [""], IsRun v := List.forall_mem_singleton.mpr nofun
      have htext : LabelRequirement.text ⟨key, operator, [""]⟩ =
          LabelRequirement.text ⟨key, operator, []⟩ := by cases operator <;> rfl
      rw [if_pos hnil, hnil, ← htext]
      exact spells_text_of_values hkey hoperator (List.cons_ne_nil _ _) hempty
    · rw [if_neg hnil]
      exact spells_text_of_values hkey hoperator hnil hvalues
  cases operator with
  | oneOf => exact hlisted (.inl rfl)
  | noneOf => exact hlisted (.inr rfl)
  | present => exact .present (Text.padded_self _) hkey
  | absent =>
    rw [show LabelRequirement.text ⟨key, .absent, values⟩ = "!" ++ key from rfl,
      String.toList_append]
    exact .absent Text.blanks_nil (Text.padded_self _) hkey

/-- The texts of some terms, joined, are a text of the terms. -/
theorem written_join {texts : List String} {terms : List Term}
    (h : List.Forall₂ (fun text t => Spells text.toList t) texts terms) :
    Written (join "," texts).toList terms := by
  by_cases hnil : texts = []
  · subst hnil
    exact Or.inl ⟨Text.blanks_nil, List.forall₂_nil_left_iff.mp h⟩
  · have hclosed : ∀ text ∈ texts, Closed text.toList :=
      ((List.forall₂_and_left _ _).mp
        (h.imp fun _ _ hspells => ⟨closed_of_encloses hspells.encloses, hspells⟩)).1
    refine Or.inr ⟨texts.map String.toList, by simpa using hnil, Text.toList_join .., ?_, ?_⟩
    · exact List.forall_mem_map.mpr hclosed
    · rwa [List.forall₂_map_left_iff]

end Spelling

/-- **What is read from the text of a selector**: its terms. -/
theorem parse_text_of_writable {x : LabelSelector} (h : x.Writable) :
    parse x.text = .ok (ofRequirements (x.terms.map Term.requirement)) := by
  have hspells : List.Forall₂ (fun text t => Spells text.toList t) x.texts x.terms := by
    refine List.rel_append ?_ ?_
    · rw [List.forall₂_map_left_iff, List.forall₂_map_right_iff, List.forall₂_same]
      exact fun e he => spells_label (h.labels e he).1 (h.labels e he).2
    · rw [List.forall₂_map_left_iff, List.forall₂_map_right_iff, List.forall₂_same]
      exact fun r hr => spells_requirement (h.requirements r hr).1 (h.requirements r hr).2
  exact parse_eq_ok_iff.mpr ⟨x.terms, written_join hspells, rfl⟩

end LabelSelector

/-! ## Structured selectors -/

namespace StructuredSelector

open LabelSelector (IsKey IsRun)

/-- The keys and the values of the structured selector can stand in a text. -/
structure Writable (s : StructuredSelector) : Prop where
  labels : ∀ e ∈ s.matchLabels.getD [], IsKey e.1 ∧ IsRun e.2
  requirements : ∀ r ∈ s.matchExpressions.getD [], IsKey r.key ∧ ∀ v ∈ r.values.getD [], IsRun v

theorem toRequirement_eq_ok {r : StructuredRequirement} {r' : LabelRequirement}
    (h : r.toRequirement = .ok r') : ∃ operator, r' = .of r.key operator (r.values.getD []) := by
  unfold StructuredRequirement.toRequirement at h
  split at h
  · next operator _ => exact ⟨operator, (Except.ok.inj h).symm⟩
  · cases h

/-- The selector of a structured one whose keys and values can stand in a text is one, too. -/
theorem Writable.toSelector {s : StructuredSelector} {x : LabelSelector} (hs : s.Writable)
    (h : s.toSelector = .ok x) : x.Writable := by
  obtain ⟨requirements, hrequirements, hx⟩ := bind_eq_ok_iff.mp h
  obtain rfl := pure_eq_ok_iff.mp hx
  refine ⟨hs.labels, fun r' hr' => ?_⟩
  obtain ⟨r, hr, hr'⟩ := exists_of_mem_mapM_ok hrequirements r' hr'
  obtain ⟨operator, rfl⟩ := toRequirement_eq_ok hr'
  obtain ⟨hkey, hvalues⟩ := hs.requirements r hr
  exact ⟨hkey, fun v hv => hvalues v (SortedSet.mem_ofMembers.mp hv)⟩

end StructuredSelector

namespace LabelSelector

/-- **A structured selector is read again from its text**, and what is read selects the same labels,
unless a list without values meets a label that is empty. -/
theorem structured_text {s : StructuredSelector} {x : LabelSelector} (hs : s.Writable)
    (h : s.toSelector = .ok x) :
    ∃ y, parse x.text = .ok y ∧
      (∀ labels, y.matches labels = x.spelled.matches labels) ∧
      ∀ labels, (∀ r ∈ x.matchExpressions.getD [], r.ListsNothing →
          SortedMap.get? labels r.key ≠ some "") →
        y.matches labels = x.matches labels := by
  have hspelled (labels : Labels) :
      (ofRequirements (x.terms.map Term.requirement)).matches labels =
        x.spelled.matches labels := by
    rw [Bool.eq_iff_iff, matches_ofRequirements, forall_terms_iff]
  refine ⟨_, parse_text_of_writable (hs.toSelector h), hspelled, fun labels hlabels => ?_⟩
  rw [hspelled, Bool.eq_iff_iff, matches_spelled_iff, matches_iff]
  refine and_congr_left' (forall₂_congr fun r hr => ?_)
  rw [LabelRequirement.holds_spelled (hlabels r hr)]

/-- A structured selector with every kind of requirement, one of them without values. -/
def frontends : StructuredSelector where
  matchLabels := some [("app", "web")]
  matchExpressions := some [⟨"env", "In", some ["b", "a", ""]⟩, ⟨"tier", "NotIn", none⟩,
    ⟨"owner", "Exists", some []⟩, ⟨"old", "DoesNotExist", some ["x"]⟩]

theorem structured_text_frontends :
    ∃ x y, frontends.toSelector = .ok x ∧
      x.text = "app=web,env in (,a,b),tier notin (),owner,!old" ∧ parse x.text = .ok y ∧
      ∀ labels, SortedMap.get? labels "tier" ≠ some "" → y.matches labels = x.matches labels := by
  have hwritable : frontends.Writable := by
    constructor
    · simp [frontends, IsKey, IsRun]
    · simp [frontends, IsKey, IsRun]
  have hselector : frontends.toSelector = .ok ⟨some [("app", "web")],
      some [⟨"env", .oneOf, ["", "a", "b"]⟩, ⟨"tier", .noneOf, []⟩, ⟨"owner", .present, []⟩,
        ⟨"old", .absent, ["x"]⟩]⟩ := rfl
  obtain ⟨y, hparse, -, hmatches⟩ := structured_text hwritable hselector
  refine ⟨_, y, hselector, rfl, hparse, fun labels htier => hmatches labels ?_⟩
  simp [LabelRequirement.ListsNothing, htier]

/-- A list without values has no member, but what is read from its text has the empty value. -/
theorem list_without_values :
    ∃ (s : StructuredSelector) (x y : LabelSelector), s.Writable ∧ s.toSelector = .ok x ∧
      parse x.text = .ok y ∧ x.matches [("a", "")] = false ∧ y.matches [("a", "")] = true := by
  refine ⟨⟨none, some [⟨"a", "In", some []⟩]⟩, _, _, ?_, rfl, rfl, rfl, rfl⟩
  constructor
  · exact List.forall_mem_nil _
  · simp [IsKey, IsRun]

end LabelSelector

end ControlPlane
