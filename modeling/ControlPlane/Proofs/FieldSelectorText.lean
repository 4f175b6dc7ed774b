import ControlPlane.FieldSelector
import ControlPlane.Proofs.Attempt
import ControlPlane.Text.Lemmas

/-!
# Field selectors written and read again

The value in a field selector may be any text without a comma, and the text of a requirement does
not mark where its operator ends. It is read by looking for one operator after another, each of them
anywhere in the text. So a requirement that a field differs is always read again, since its operator
is looked for first and no path holds any of it; a requirement that a field equals a value is read
again exactly if the value neither begins with an equals sign nor holds an operator.

* `FieldRequirement.Cut`: where a text is cut, and which operator it is cut at.
* `FieldRequirement.parse_eq_ok_iff`: what is read from the text of a requirement.
* `FieldRequirement.parse_text_iff`: which requirements are read again.
* `FieldSelector.read_again_iff`: which selectors are read again; `FieldSelector.value_cut` is one
  that was itself read and is not.
-/

namespace ControlPlane

open Text (trim cut? splitAt)

/-- The text is the path of a field: there are no blanks around it, no dot at its ends, and in it no
character of an operator and no comma. -/
structure IsFieldPath (path : List Char) : Prop where
  trim_eq : trim path = path
  ne_nil : path ≠ []
  head_ne : path.head? ≠ some '.'
  last_ne : path.getLast? ≠ some '.'
  equals_notMem : '=' ∉ path
  mark_notMem : '!' ∉ path
  comma_notMem : ',' ∉ path

/-- The text is the value of a field: there are no blanks around it and no comma in it. -/
structure IsFieldValue (value : List Char) : Prop where
  trim_eq : trim value = value
  comma_notMem : ',' ∉ value

namespace FieldRequirement

/-- The path and the value of the requirement can stand in a text. -/
structure Writable (r : FieldRequirement) : Prop where
  path : IsFieldPath r.path.toList
  value : IsFieldValue r.value.toList

/-- The value of the requirement leaves its operator where it is found first. -/
def Unambiguous (r : FieldRequirement) : Prop :=
  r.operator = .equals →
    ¬ ['='] <+: r.value.toList ∧ ¬ ['=', '='] <:+: r.value.toList ∧
      ¬ ['!', '='] <:+: r.value.toList

/-! ## Reading a requirement -/

/-- Where a text is cut: at the first `!=`, else at the first `==`, else at the first `=`. -/
inductive Cut (term : List Char) : List Char → FieldOperator → List Char → Prop
  | differs {left right : List Char} : cut? ['!', '='] term = some (left, right) →
      Cut term left .differs right
  | doubled {left right : List Char} : cut? ['!', '='] term = none →
      cut? ['=', '='] term = some (left, right) → Cut term left .equals right
  | equals {left right : List Char} : cut? ['!', '='] term = none →
      cut? ['=', '='] term = none → cut? ['='] term = some (left, right) →
      Cut term left .equals right

section Cut

variable {term left right : List Char} {operator : FieldOperator} {r : FieldRequirement}

/-- What a text is cut into is a part of it. -/
theorem Cut.eq_append (h : Cut term left operator right) :
    ∃ sign, term = left ++ sign ++ right := by
  cases h with
  | differs hcut => exact ⟨_, Text.eq_append_of_cut? hcut⟩
  | doubled _ hcut => exact ⟨_, Text.eq_append_of_cut? hcut⟩
  | equals _ _ hcut => exact ⟨_, Text.eq_append_of_cut? hcut⟩

/-- What is read where a text is cut. -/
theorem parse_of_cut (h : Cut term left operator right) :
    parse term =
      if (trim left).isEmpty ∨ (trim left).head? = some '.' ∨ (trim left).getLast? = some '.' then
        .error (.invalidSelector (.fieldPath (String.ofList term)))
      else .ok ⟨String.ofList (trim left), operator, String.ofList (trim right)⟩ := by
  cases h with
  | differs hcut => simp only [parse, hcut]
  | doubled hnone hcut => simp only [parse, hnone, hcut]
  | equals hnone hnone' hcut => simp only [parse, hnone, hnone', hcut, Option.map_some]

theorem exists_cut_of_parse (h : parse term = .ok r) :
    ∃ left operator right, Cut term left operator right := by
  cases hdiffers : cut? ['!', '='] term with
  | some parts => exact ⟨_, _, _, .differs hdiffers⟩
  | none =>
    cases hdoubled : cut? ['=', '='] term with
    | some parts => exact ⟨_, _, _, .doubled hdiffers hdoubled⟩
    | none =>
      cases hequals : cut? ['='] term with
      | some parts => exact ⟨_, _, _, .equals hdiffers hdoubled hequals⟩
      | none =>
        simp only [parse, hdiffers, hdoubled, hequals, Option.map_none] at h
        cases h

/-- **What is read from the text of a requirement.** -/
theorem parse_eq_ok_iff :
    parse term = .ok r ↔
      ∃ left right, Cut term left r.operator right ∧ r.path.toList = trim left ∧
        r.value.toList = trim right ∧ trim left ≠ [] ∧ (trim left).head? ≠ some '.' ∧
        (trim left).getLast? ≠ some '.' := by
  constructor
  · intro h
    obtain ⟨left, operator, right, hcut⟩ := exists_cut_of_parse h
    rw [parse_of_cut hcut] at h
    split at h
    · cases h
    · next hpath =>
      obtain rfl := Except.ok.inj h
      rw [List.isEmpty_iff, not_or, not_or] at hpath
      exact ⟨left, right, hcut, String.toList_ofList, String.toList_ofList, hpath⟩
  · rintro ⟨left, right, hcut, hpath, hvalue, hne, hhead, hlast⟩
    have hfault : ¬ ((trim left).isEmpty ∨ (trim left).head? = some '.' ∨
        (trim left).getLast? = some '.') := by
      rw [List.isEmpty_iff, not_or, not_or]
      exact ⟨hne, hhead, hlast⟩
    rw [parse_of_cut hcut, if_neg hfault, ← hpath, ← hvalue, String.ofList_toList,
      String.ofList_toList]

end Cut

/-! ## Reading what was written -/

section Written

variable {path value left right : List Char} {r : FieldRequirement}

/-- The text that a field equals a value is cut after the field exactly if no operator is found
before that: none in the value, and none of which the equals sign is a part. -/
theorem cut?_equals_iff (hpath : IsFieldPath path) :
    cut? ['!', '='] (path ++ ['='] ++ value) = none ∧
        cut? ['=', '='] (path ++ ['='] ++ value) = none ↔
      ¬ ['='] <+: value ∧ ¬ ['=', '='] <:+: value ∧ ¬ ['!', '='] <:+: value := by
  rw [List.append_assoc, Text.cut?_append_of_notMem hpath.mark_notMem,
    Text.cut?_append_of_notMem hpath.equals_notMem, Option.map_eq_none_iff,
    Option.map_eq_none_iff, Text.cut?_eq_none_iff (List.cons_ne_nil _ _),
    Text.cut?_eq_none_iff (List.cons_ne_nil _ _), List.singleton_append, List.infix_cons_iff,
    List.infix_cons_iff, List.cons_prefix_cons, List.cons_prefix_cons]
  have hne : '!' ≠ '=' := by decide
  simp only [hne, false_and, false_or, true_and, not_or]
  exact and_comm.trans and_assoc

/-- A text that is cut at two equals signs is not cut between its path and its value. -/
theorem not_doubled (hpath : IsFieldPath path)
    (hcut : cut? ['=', '='] (path ++ ['='] ++ value) = some (left, right))
    (hleft : path = trim left) : value ≠ trim right := by
  rw [List.append_assoc, Text.cut?_append_of_notMem hpath.equals_notMem, List.singleton_append,
    cut?] at hcut
  obtain ⟨parts, hparts, heq⟩ := Option.map_eq_some_iff.mp hcut
  obtain ⟨rfl, rfl⟩ := Prod.mk.inj heq
  split at hparts
  · next hstart =>
    -- the value begins with the second sign, which is not left in it
    obtain rfl := Option.some.inj hparts
    obtain ⟨rest, hrest⟩ := List.isPrefixOf_iff_prefix.mp hstart
    obtain rfl : '=' :: rest = value := (List.cons.inj hrest).2
    intro heq
    have hlength := (Text.trim_infix rest).length_le
    rw [show trim rest = '=' :: rest from heq.symm, List.length_cons] at hlength
    omega
  · -- the sign after the path is left in what stands before the cut
    obtain ⟨later, -, rfl⟩ := Option.map_eq_some_iff.mp hparts
    have hsign : '=' ∈ trim (path ++ '=' :: later.1) := Text.mem_trim (by simp) rfl
    exact absurd (hleft ▸ hsign) hpath.equals_notMem

/-- **A requirement is read again exactly if its value leaves its operator where it is found
first.** -/
theorem parse_text_iff (hr : r.Writable) : parse r.text.toList = .ok r ↔ r.Unambiguous := by
  obtain ⟨path, operator, value⟩ := r
  have hpath : IsFieldPath path.toList := hr.path
  have hvalue : IsFieldValue value.toList := hr.value
  have hread {term : List Char} (hcut : Cut term path.toList operator value.toList) :
      parse term = .ok ⟨path, operator, value⟩ := by
    refine parse_eq_ok_iff.mpr ⟨_, _, hcut, hpath.trim_eq.symm, hvalue.trim_eq.symm, ?_⟩
    rw [hpath.trim_eq]
    exact ⟨hpath.ne_nil, hpath.head_ne, hpath.last_ne⟩
  cases operator with
  | differs =>
    have htext : (text ⟨path, .differs, value⟩).toList =
        path.toList ++ ['!', '='] ++ value.toList := by
      simp [text]
    rw [htext]
    exact ⟨fun _ h => (by cases h),
      fun _ => hread (.differs (Text.cut?_append hpath.mark_notMem _ _))⟩
  | equals =>
    have htext : (text ⟨path, .equals, value⟩).toList = path.toList ++ ['='] ++ value.toList := by
      simp [text]
    rw [htext]
    constructor
    · intro h _
      obtain ⟨left, right, hcut, hleft, hright, -⟩ := parse_eq_ok_iff.mp h
      cases hcut with
      | doubled _ hcut => exact absurd hright (not_doubled hpath hcut hleft)
      | equals hdiffers hdoubled _ => exact (cut?_equals_iff hpath).mp ⟨hdiffers, hdoubled⟩
    · intro h
      obtain ⟨hdiffers, hdoubled⟩ := (cut?_equals_iff hpath).mpr (h rfl)
      exact hread (.equals hdiffers hdoubled (Text.cut?_append hpath.equals_notMem _ _))

theorem comma_notMem_text (hr : r.Writable) : ',' ∉ r.text.toList := by
  have hpath := hr.path.comma_notMem
  have hvalue := hr.value.comma_notMem
  unfold text
  split <;> simp [hpath, hvalue]

theorem equals_mem_text (r : FieldRequirement) : '=' ∈ r.text.toList := by
  unfold text
  split <;> simp

end Written

end FieldRequirement

/-! ## Selectors -/

namespace FieldSelector

variable {s : FieldSelector} {query : String}

/-- A selector is read as it was written exactly if each of its requirements is. -/
theorem parse_text_iff_forall (hs : ∀ r ∈ s.requirements, r.Writable) :
    parse s.text = .ok s ↔
      ∀ r ∈ s.requirements, FieldRequirement.parse r.text.toList = .ok r := by
  obtain ⟨requirements⟩ := s
  cases requirements with
  | nil => exact ⟨fun _ => List.forall_mem_nil _, fun _ => rfl⟩
  | cons first rest =>
    have htext : (text ⟨first :: rest⟩).toList =
        [','].intercalate ((first :: rest).map fun r => r.text.toList) := by
      rw [text, Text.toList_join, List.map_map]
      rfl
    have hcomma : ∀ piece ∈ (first :: rest).map (fun r => r.text.toList), ',' ∉ piece :=
      List.forall_mem_map.mpr fun r hr => FieldRequirement.comma_notMem_text (hs r hr)
    have hsign : '=' ∈ (text ⟨first :: rest⟩).toList := by
      rw [htext]
      exact (Text.prefix_intercalate ',' _ _).subset first.equals_mem_text
    have hblank : ¬ (trim (text ⟨first :: rest⟩).toList).isEmpty = true := by
      rw [List.isEmpty_iff]
      exact List.ne_nil_of_mem (Text.mem_trim hsign rfl)
    have hpieces : splitAt ',' (text ⟨first :: rest⟩).toList =
        (first :: rest).map fun r => r.text.toList := by
      rw [htext]
      exact Text.splitAt_intercalate (List.cons_ne_nil _ _) hcomma
    rw [parse, if_neg hblank, hpieces, map_eq_ok_iff]
    simp only [mapM_eq_ok_iff, mk.injEq, exists_eq_right, List.forall₂_map_left_iff,
      List.forall₂_same]

/-- The value of a requirement that was read can stand in a text. -/
theorem isFieldValue_of_parse (h : parse query = .ok s) :
    ∀ r ∈ s.requirements, IsFieldValue r.value.toList := by
  rw [parse] at h
  split at h
  · obtain rfl := Except.ok.inj h
    exact List.forall_mem_nil _
  · obtain ⟨requirements, hrequirements, rfl⟩ := map_eq_ok_iff.mp h
    intro r hr
    obtain ⟨piece, hpiece, hr⟩ := exists_of_mem_mapM_ok hrequirements r hr
    obtain ⟨left, right, hcut, -, hvalue, -⟩ := FieldRequirement.parse_eq_ok_iff.mp hr
    obtain ⟨sign, rfl⟩ := hcut.eq_append
    have hcomma : ',' ∉ trim right := fun hmem =>
      Text.notMem_splitAt ',' _ _ hpiece
        (List.mem_append_right _ ((Text.trim_infix right).subset hmem))
    rw [hvalue]
    exact ⟨Text.trim_trim right, hcomma⟩

/-- **A field selector is read again from its text exactly if no value takes the place of an
operator**, be it put together or read from a text itself. -/
theorem read_again_iff (s : FieldSelector) :
    ((∀ r ∈ s.requirements, r.Writable) →
      (parse s.text = .ok s ↔ ∀ r ∈ s.requirements, r.Unambiguous)) ∧
    ∀ query, parse query = .ok s → (∀ r ∈ s.requirements, IsFieldPath r.path.toList) →
      (parse s.text = .ok s ↔ ∀ r ∈ s.requirements, r.Unambiguous) := by
  have hwritable (hs : ∀ r ∈ s.requirements, r.Writable) :
      parse s.text = .ok s ↔ ∀ r ∈ s.requirements, r.Unambiguous := by
    rw [parse_text_iff_forall hs]
    exact forall₂_congr fun r hr => FieldRequirement.parse_text_iff (hs r hr)
  refine ⟨hwritable, fun query hparse hpaths => hwritable fun r hr => ?_⟩
  exact ⟨hpaths r hr, isFieldValue_of_parse hparse r hr⟩

/-- A selector with signs in its values, none of which is taken for an operator. -/
def signed : FieldSelector :=
  ⟨[⟨"spec.nodeName", .differs, "=a==b!=c"⟩, ⟨"metadata.name", .equals, "x = y"⟩]⟩

theorem read_again_iff_signed :
    signed.text = "spec.nodeName!==a==b!=c,metadata.name=x = y" ∧ parse signed.text = .ok signed ∧
      ∃ s, parse "a = b, c==d==e" = .ok s ∧ parse s.text ≠ .ok s := by
  have hwritable : ∀ r ∈ signed.requirements, r.Writable := by
    simp only [signed, List.forall_mem_cons]
    exact ⟨⟨by constructor <;> decide, by constructor <;> decide⟩,
      ⟨by constructor <;> decide, by constructor <;> decide⟩, List.forall_mem_nil _⟩
  have hunambiguous : ∀ r ∈ signed.requirements, r.Unambiguous := by
    simp only [signed, List.forall_mem_cons]
    exact ⟨nofun, fun _ => by decide, List.forall_mem_nil _⟩
  have hparse : parse "a = b, c==d==e" = .ok ⟨[⟨"a", .equals, "b"⟩, ⟨"c", .equals, "d==e"⟩]⟩ := rfl
  have hpaths : ∀ r ∈ [(⟨"a", .equals, "b"⟩ : FieldRequirement), ⟨"c", .equals, "d==e"⟩],
      IsFieldPath r.path.toList := by
    simp only [List.forall_mem_cons]
    exact ⟨by constructor <;> decide, by constructor <;> decide, List.forall_mem_nil _⟩
  refine ⟨rfl, ((read_again_iff signed).1 hwritable).mpr hunambiguous, _, hparse, fun hread => ?_⟩
  have hagain := ((read_again_iff _).2 _ hparse hpaths).mp hread
  have hdoubled := (hagain ⟨"c", .equals, "d==e"⟩ (by simp) rfl).2.1
  exact absurd hdoubled (by decide)

/-- A value that begins with an equals sign is read, but not read again: its sign becomes a part of
the operator. -/
theorem value_cut :
    ∃ s t : FieldSelector, parse "a===b" = .ok s ∧ (∀ r ∈ s.requirements, r.Writable) ∧
      parse s.text = .ok t ∧ t ≠ s := by
  refine ⟨⟨[⟨"a", .equals, "=b"⟩]⟩, ⟨[⟨"a", .equals, "b"⟩]⟩, rfl, ?_, rfl, by decide⟩
  refine List.forall_mem_singleton.mpr ⟨?_, ?_⟩
  · constructor <;> decide
  · constructor <;> decide

end FieldSelector

end ControlPlane
