import ControlPlane.Label.Printer
import ControlPlane.Proofs.SelectorReading

/-!
# Selectors written and read again

A selector is written with one spelling for each requirement, in which a comparison with one value
has become a list and the values stand in order, each once. A selector that was read from a text
comes back from the text it is written as, since that is again a text of the grammar, for terms that
make the same requirements. A requirement without values would come back with the empty value; none
is read from a text.

* `LabelSelector.Term.settled`: a term with its values in order, each once.
* `LabelSelector.spells_text`: the text of a requirement that was read spells the settled term.
* `LabelSelector.parse_text`: what was read is read again from what is written.
-/

namespace ControlPlane.LabelSelector

open Text (join Blanks Padded)

/-- The term with its values in order, each once. -/
def Term.settled (t : Term) : Term := { t with values := t.requirement.values }

@[simp] theorem Term.requirement_settled (t : Term) : t.settled.requirement = t.requirement := by
  have hvalues := SortedSet.ofMembers_eq_self (SortedSet.sorted_ofMembers t.values)
  simp only [requirement, settled, LabelRequirement.of, hvalues]

/-- The text of a requirement with values spells the term of the values. -/
theorem spells_text_of_values {key : String} {operator : LabelOperator} {values : List String}
    (hkey : IsKey key) (hoperator : operator = .oneOf ∨ operator = .noneOf) (hne : values ≠ [])
    (hvalues : ∀ v ∈ values, IsRun v) :
    Spells (LabelRequirement.text ⟨key, operator, values⟩).toList ⟨key, operator, values⟩ := by
  have hspace : Blanks [' '] := List.forall_mem_singleton.mpr rfl
  have htexts : List.Forall₂ (fun text value => Padded text value.toList ∧ IsRun value)
      (values.map String.toList) values := by
    rw [List.forall₂_map_left_iff, List.forall₂_same]
    exact fun v hv => ⟨Text.padded_self _, hvalues v hv⟩
  have hspells {word : List Char} (hword : (word, operator) ∈ listWords) :=
    Spells.listed Text.blanks_nil hkey (List.cons_ne_nil _ _) hspace hword hspace
      (by simpa using hne) htexts Text.blanks_nil
  rcases hoperator with rfl | rfl
  · simpa [LabelRequirement.text, Text.toList_join] using hspells List.mem_cons_self
  · simpa [LabelRequirement.text, Text.toList_join] using
      hspells (List.mem_cons_of_mem _ List.mem_cons_self)

/-- Values that are settled are still some, and still runs. -/
theorem settled_values {values : List String} (hne : values ≠ [])
    (hvalues : ∀ v ∈ values, IsRun v) :
    SortedSet.ofMembers values ≠ [] ∧ ∀ v ∈ SortedSet.ofMembers values, IsRun v := by
  refine ⟨?_, fun v hv => hvalues v (SortedSet.mem_ofMembers.mp hv)⟩
  obtain ⟨v, rest, rfl⟩ := List.exists_cons_of_ne_nil hne
  exact List.ne_nil_of_mem (SortedSet.mem_ofMembers.mpr List.mem_cons_self)

/-- **The text of the requirement that a term makes spells the term**, settled. -/
theorem spells_text {piece : List Char} {t : Term} (h : Spells piece t) :
    Spells t.requirement.text.toList t.settled := by
  cases h with
  | present _ hkey => exact .present (Text.padded_self _) hkey
  | @absent _ _ key _ _ hkey =>
    have hspells : Spells ([] ++ ['!'] ++ key.toList) ⟨key, .absent, []⟩ :=
      .absent Text.blanks_nil (Text.padded_self _) hkey
    change Spells ("!" ++ key).toList ⟨key, .absent, []⟩
    rw [String.toList_append]
    exact hspells
  | compared hsign _ hkey _ hvalue =>
    obtain ⟨hne, hvalues⟩ := settled_values (List.cons_ne_nil _ [])
      (List.forall_mem_singleton.mpr hvalue)
    exact spells_text_of_values hkey (of_mem_signs hsign).1 hne hvalues
  | @listed _ _ _ _ _ _ _ texts values _ hkey _ _ hword _ htexts hvalues _ =>
    have hne : values ≠ [] := by
      rintro rfl
      exact htexts (List.forall₂_nil_right_iff.mp hvalues)
    have hruns : ∀ v ∈ values, IsRun v := by
      intro v hv
      obtain ⟨_, _, _, hrun⟩ := exists_of_mem_forall₂ hvalues v hv
      exact hrun
    obtain ⟨hne, hvalues⟩ := settled_values hne hruns
    exact spells_text_of_values hkey (of_mem_listWords hword).1 hne hvalues

/-- **What was read from a text is read again from the text it is written as.** -/
theorem parse_text {s : String} {x : LabelSelector} (h : parse s = .ok x) :
    parse x.text = .ok x := by
  obtain ⟨terms, hwritten, rfl⟩ := parse_eq_ok_iff.mp h
  refine parse_eq_ok_iff.mpr ⟨terms.map Term.settled, ?_, by simp [Function.comp_def]⟩
  have htext : (ofRequirements (terms.map Term.requirement)).text.toList =
      [','].intercalate (terms.map fun t => t.requirement.text.toList) := by
    simp [text, ofRequirements, Text.toList_join, Function.comp_def]
  rw [htext]
  rcases hwritten with ⟨-, rfl⟩ | ⟨pieces, hne, -, -, hspells⟩
  · exact Or.inl ⟨Text.blanks_nil, rfl⟩
  · have hterms : ∀ t ∈ terms, Spells t.requirement.text.toList t.settled := by
      intro t ht
      obtain ⟨_, _, hspelled⟩ := exists_of_mem_forall₂ hspells t ht
      exact spells_text hspelled
    refine Or.inr ⟨_, ?_, rfl, ?_, ?_⟩
    · rintro hnil
      rw [List.map_eq_nil_iff.mp hnil] at hspells
      exact hne (List.forall₂_nil_right_iff.mp hspells)
    · exact List.forall_mem_map.mpr fun t ht => closed_of_encloses (hterms t ht).encloses
    · rw [List.forall₂_map_left_iff, List.forall₂_map_right_iff, List.forall₂_same]
      exact hterms

theorem parse_text_spellings :
    ∃ x, parse "a==b, c notin (d,e, ,d), !f,g" = .ok x ∧ x.text = "a in (b),c notin (,d,e),!f,g" ∧
      parse "a in (b),c notin (,d,e),!f,g" = .ok x := by
  have h : parse "a==b, c notin (d,e, ,d), !f,g" = .ok (ofRequirements [.of "a" .oneOf ["b"],
      .of "c" .noneOf ["d", "e", "", "d"], .of "f" .absent [], .of "g" .present []]) := rfl
  exact ⟨_, h, rfl, parse_text h⟩

end ControlPlane.LabelSelector
