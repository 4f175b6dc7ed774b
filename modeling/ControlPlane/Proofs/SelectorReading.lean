import ControlPlane.Proofs.SelectorGrammar

/-!
# Reading label selectors

The terms of a selector are found by the depth of the parentheses: a comma separates them where none
is open. No text of a term has such a comma, so the pieces are the texts of the terms, and what is
read is what the grammar describes.

* `LabelSelector.Encloses`: the parentheses of a piece have partners, and enclose its commas.
* `LabelSelector.termsFrom?_eq_some_iff`, `LabelSelector.Spells.encloses`: a text is split into such
  pieces, and the texts of terms are such.
* `LabelSelector.parse_eq_ok_iff`: a selector is read exactly from the texts of its terms.
* `LabelSelector.parse_exact`: the texts that are read, and what is made of them.
-/

namespace ControlPlane.LabelSelector

open Text (trim Blanks Padded)

/-! ## Splitting a text into its terms -/

/-- Where `depth` parentheses are open, the text closes them and all that it opens, and no other;
every comma is inside of one. -/
def Encloses (depth : Nat) : List Char → Prop
  | [] => depth = 0
  | c :: cs => (depth = 0 → c ≠ ',' ∧ c ≠ ')') ∧
      Encloses (if c = '(' then depth + 1 else if c = ')' then depth - 1 else depth) cs

section Split

variable {depth : Nat} {c : Char} {cs piece left right : List Char} {pieces : List (List Char)}
  {t : Term}

/-- **A text is split into the pieces between its commas outside parentheses**, if its parentheses
have partners. -/
theorem termsFrom?_eq_some_iff : termsFrom? depth cs = some (piece, pieces) ↔
    cs = [','].intercalate (piece :: pieces) ∧ Encloses depth piece ∧
      ∀ p ∈ pieces, Encloses 0 p := by
  induction cs generalizing depth piece pieces with
  | nil =>
    rw [termsFrom?]
    constructor
    · intro h
      split at h
      · next hdepth =>
        obtain ⟨rfl, rfl⟩ := Prod.mk.inj (Option.some.inj h)
        exact ⟨rfl, hdepth, List.forall_mem_nil _⟩
      · cases h
    · rintro ⟨h, henc, -⟩
      cases pieces with
      | nil =>
        rw [List.intercalate_singleton] at h
        subst h
        exact if_pos henc
      | cons next rest => simp [List.intercalate_cons_cons] at h
  | cons c cs ih =>
    rw [termsFrom?, Text.cons_eq_intercalate_iff]
    split
    · next hcomma =>
      obtain ⟨rfl, rfl⟩ := hcomma
      rw [Option.map_eq_some_iff]
      constructor
      · rintro ⟨⟨next, rest⟩, hterms, heq⟩
        obtain ⟨rfl, rfl⟩ := Prod.mk.inj heq
        obtain ⟨hcs, hnext⟩ := ih.mp hterms
        exact ⟨Or.inl ⟨rfl, rfl, next, rest, rfl, hcs⟩, rfl, List.forall_mem_cons.mpr hnext⟩
      · rintro ⟨⟨rfl, -, next, rest, rfl, hcs⟩ | ⟨piece', rfl, -⟩, henc, hpieces⟩
        · exact ⟨(next, rest), ih.mpr ⟨hcs, List.forall_mem_cons.mp hpieces⟩, rfl⟩
        · exact absurd rfl (henc.1 rfl).1
    · next hcomma =>
      split
      · next hclose =>
        obtain ⟨rfl, rfl⟩ := hclose
        constructor
        · nofun
        · rintro ⟨⟨-, hc, -⟩ | ⟨piece', rfl, -⟩, henc, -⟩
          · cases hc
          · exact absurd rfl (henc.1 rfl).2
      · next hclose =>
        rw [Option.map_eq_some_iff]
        constructor
        · rintro ⟨⟨piece', rest⟩, hterms, heq⟩
          obtain ⟨rfl, rfl⟩ := Prod.mk.inj heq
          obtain ⟨hcs, henc, hrest⟩ := ih.mp hterms
          exact ⟨Or.inr ⟨piece', rfl, hcs⟩, ⟨fun hdepth => ⟨fun hc => hcomma ⟨hc, hdepth⟩,
            fun hc => hclose ⟨hc, hdepth⟩⟩, henc⟩, hrest⟩
        · rintro ⟨⟨rfl, rfl, -⟩ | ⟨piece', rfl, hcs⟩, henc, hpieces⟩
          · exact absurd ⟨rfl, henc⟩ hcomma
          · exact ⟨(piece', pieces), ih.mpr ⟨hcs, henc.2, hpieces⟩, rfl⟩

/-- Counted from `depth` open parentheses on, a piece closes all, and a comma has one open. -/
theorem count_of_encloses (h : Encloses depth piece) :
    piece.count ')' = depth + piece.count '(' ∧
      ∀ left right, piece = left ++ [','] ++ right → left.count ')' < depth + left.count '(' := by
  induction piece generalizing depth with
  | nil => exact ⟨by simpa using h.symm, fun left right h => by simp at h⟩
  | cons c cs ih =>
    obtain ⟨hsigns, hrest⟩ := h
    obtain ⟨hcount, hcommas⟩ := ih hrest
    have hcons (x : Char) (l : List Char) : (c :: l).count x = [c].count x + l.count x := by
      rw [← List.singleton_append, List.count_append]
    -- How many are open after the first character, whichever it is.
    have hnext : (if c = '(' then depth + 1 else if c = ')' then depth - 1 else depth) +
        [c].count ')' = depth + [c].count '(' := by
      by_cases hopen : c = '('
      · subst hopen
        rfl
      · rw [if_neg hopen]
        by_cases hclose : c = ')'
        · subst hclose
          have hdepth : depth ≠ 0 := fun h => (hsigns h).2 rfl
          exact Nat.sub_add_cancel (Nat.pos_of_ne_zero hdepth)
        · simp [hopen, hclose]
    refine ⟨by rw [hcons ')' cs, hcons '(' cs]; omega, fun left right h => ?_⟩
    cases left with
    | nil =>
      obtain ⟨rfl, -⟩ := List.cons.inj h
      have hdepth : depth ≠ 0 := fun h => (hsigns h).1 rfl
      simpa using Nat.pos_of_ne_zero hdepth
    | cons d left =>
      obtain ⟨rfl, hcs⟩ := List.cons.inj h
      have hleft := hcommas left right hcs
      rw [hcons ')' left, hcons '(' left]
      omega

theorem closed_of_encloses (h : Encloses 0 piece) : Closed piece where
  balanced := by simpa using (count_of_encloses h).1.symm
  inside := by simpa using (count_of_encloses h).2

/-- Without parentheses, and without commas where none may stand, a text makes no difference. -/
theorem encloses_append (h : ∀ c ∈ left, c ≠ '(' ∧ c ≠ ')' ∧ (c = ',' → depth ≠ 0)) :
    Encloses depth (left ++ right) ↔ Encloses depth right := by
  induction left with
  | nil => rfl
  | cons c left ih =>
    obtain ⟨⟨hopen, hclose, hcomma⟩, hleft⟩ := List.forall_mem_cons.mp h
    rw [List.cons_append, Encloses, if_neg hopen, if_neg hclose, ih hleft]
    exact and_iff_right fun hdepth => ⟨fun hc => hcomma hc hdepth, hclose⟩

theorem Flat.encloses (h : Flat piece) : Encloses 0 piece := by
  have henc : Encloses 0 (piece ++ []) :=
    (encloses_append fun c hc => ⟨(h c hc).1, (h c hc).2.1, fun heq => absurd heq (h c hc).2.2⟩).mpr
      rfl
  rwa [List.append_nil] at henc

/-- **The texts of terms have no commas outside parentheses**, and their parentheses have partners.
-/
theorem Spells.encloses (h : Spells piece t) : Encloses 0 piece := by
  cases h with
  | present hpadded hkey => exact (plain_of_padded hpadded hkey.2.plain).flat.encloses
  | absent hleft hpadded hkey =>
    refine Flat.encloses (flat_append.mpr ⟨flat_append.mpr ⟨?_, ?_⟩, ?_⟩)
    · exact (plain_of_blanks hleft).flat
    · exact List.forall_mem_singleton.mpr (by decide)
    · exact (plain_of_padded hpadded hkey.2.plain).flat
  | compared hsign hleft hkey hright hvalue =>
    refine Flat.encloses (flat_append.mpr ⟨flat_append.mpr ⟨?_, (of_mem_signs hsign).2.2.2⟩, ?_⟩)
    · exact (plain_of_padded hleft hkey.2.plain).flat
    · exact (plain_of_padded hright hvalue.plain).flat
  | @listed b₀ b₁ b₂ b₃ word operator key texts values hb₀ hkey hne hb₁ hword hb₂ htexts hvalues
      hb₃ =>
    have hhead : Flat (b₀ ++ key.toList ++ b₁ ++ word ++ b₂) := by
      refine Plain.flat ?_
      simp only [plain_append]
      exact ⟨⟨⟨⟨plain_of_blanks hb₀, hkey.2.plain⟩, plain_of_blanks hb₁⟩,
        (of_mem_listWords hword).2.2⟩, plain_of_blanks hb₂⟩
    have hlist : ∀ c ∈ [','].intercalate texts, c ≠ '(' ∧ c ≠ ')' ∧ (c = ',' → 1 ≠ 0) := by
      intro c hc
      rcases Text.mem_of_mem_intercalate hc with rfl | ⟨text, htext, hc⟩
      · decide
      · obtain ⟨hopen, hclose, -⟩ := (plain_of_values hvalues text htext).flat c hc
        exact ⟨hopen, hclose, fun _ => by decide⟩
    have htail : Encloses 0 (['('] ++ ([','].intercalate texts ++ ([')'] ++ b₃))) :=
      ⟨fun _ => by decide, (encloses_append hlist).mpr
        ⟨fun h => absurd h (by decide), (plain_of_blanks hb₃).flat.encloses⟩⟩
    have henc := (encloses_append fun c hc => ⟨(hhead c hc).1, (hhead c hc).2.1,
      fun heq => absurd heq (hhead c hc).2.2⟩).mpr htail
    simpa only [List.append_assoc] using henc

/-- **The terms of a text** are none if it is blank, and else the pieces between its commas outside
parentheses. -/
theorem terms?_eq_some_iff : terms? cs = some pieces ↔
    (Blanks cs ∧ pieces = []) ∨
      ¬ Blanks cs ∧ pieces ≠ [] ∧ cs = [','].intercalate pieces ∧ ∀ p ∈ pieces, Encloses 0 p := by
  by_cases hblanks : Blanks cs
  · have hterms : termsFrom? 0 cs = some (cs, []) :=
      termsFrom?_eq_some_iff.mpr ⟨List.intercalate_singleton.symm,
        (plain_of_blanks hblanks).flat.encloses, List.forall_mem_nil _⟩
    have hnone : terms? cs = some [] := by
      rw [terms?, hterms, Option.map_some, Text.trim_eq_nil_iff.mpr hblanks]
      rfl
    rw [hnone]
    simp [hblanks, eq_comm]
  · have hkept {piece : List Char} {rest : List (List Char)}
        (hcs : cs = [','].intercalate (piece :: rest)) :
        (rest.isEmpty && (trim piece).isEmpty) = false := by
      cases rest with
      | nil =>
        rw [List.intercalate_singleton] at hcs
        subst hcs
        simpa [Text.trim_eq_nil_iff] using hblanks
      | cons next rest => rfl
    simp only [terms?, Option.map_eq_some_iff, Prod.exists, termsFrom?_eq_some_iff, hblanks,
      false_and, false_or, not_false_eq_true, true_and]
    constructor
    · rintro ⟨piece, rest, ⟨hcs, henc⟩, rfl⟩
      simp only [hkept hcs, Bool.false_eq_true, if_false]
      exact ⟨List.cons_ne_nil _ _, hcs, List.forall_mem_cons.mpr henc⟩
    · rintro ⟨hne, hcs, henc⟩
      obtain ⟨piece, rest, rfl⟩ := List.exists_cons_of_ne_nil hne
      refine ⟨piece, rest, ⟨hcs, List.forall_mem_cons.mp henc⟩, ?_⟩
      simp only [hkept hcs, Bool.false_eq_true, if_false]

end Split

/-! ## Reading a selector -/

theorem forall₂_parseTerm {pieces : List (List Char)} {rs : List LabelRequirement} :
    List.Forall₂ (fun piece r => parseTerm piece = .ok r) pieces rs ↔
      ∃ terms, List.Forall₂ Spells pieces terms ∧ terms.map Term.requirement = rs := by
  induction pieces generalizing rs with
  | nil => simp [eq_comm]
  | cons piece pieces ih =>
    simp only [List.forall₂_cons_left_iff, ih]
    constructor
    · rintro ⟨r, _, hr, ⟨terms, hterms, rfl⟩, rfl⟩
      obtain ⟨t, hspells, rfl⟩ := parseTerm_eq_ok_iff.mp hr
      exact ⟨t :: terms, ⟨t, terms, hspells, hterms, rfl⟩, rfl⟩
    · rintro ⟨_, ⟨t, terms, hspells, hterms, rfl⟩, rfl⟩
      exact ⟨_, _, parseTerm_eq_ok_iff.mpr ⟨t, hspells, rfl⟩, ⟨terms, hterms, rfl⟩, rfl⟩

/-- **A selector is read exactly from the texts of its terms.** -/
theorem parse_eq_ok_iff {s : String} {x : LabelSelector} : parse s = .ok x ↔
    ∃ terms, Written s.toList terms ∧ x = ofRequirements (terms.map Term.requirement) := by
  have hparse {pieces : List (List Char)} (hterms : terms? s.toList = some pieces) :
      parse s = .ok x ↔ ∃ terms, List.Forall₂ Spells pieces terms ∧
        x = ofRequirements (terms.map Term.requirement) := by
    simp only [parse, hterms, map_eq_ok_iff, mapM_eq_ok_iff, forall₂_parseTerm]
    constructor
    · rintro ⟨_, ⟨terms, hspells, rfl⟩, rfl⟩
      exact ⟨terms, hspells, rfl⟩
    · rintro ⟨terms, hspells, rfl⟩
      exact ⟨_, ⟨terms, hspells, rfl⟩, rfl⟩
  constructor
  · intro h
    cases hterms : terms? s.toList with
    | none =>
      simp only [parse, hterms] at h
      cases h
    | some pieces =>
      obtain ⟨terms, hspells, rfl⟩ := (hparse hterms).mp h
      refine ⟨terms, ?_, rfl⟩
      rcases terms?_eq_some_iff.mp hterms with ⟨hblanks, rfl⟩ | ⟨-, hne, hcs, henc⟩
      · exact Or.inl ⟨hblanks, List.forall₂_nil_left_iff.mp hspells⟩
      · exact Or.inr ⟨pieces, hne, hcs, fun p hp => closed_of_encloses (henc p hp), hspells⟩
  · rintro ⟨terms, ⟨hblanks, rfl⟩ | ⟨pieces, hne, hcs, -, hspells⟩, rfl⟩
    · exact (hparse (terms?_eq_some_iff.mpr (Or.inl ⟨hblanks, rfl⟩))).mpr ⟨[], .nil, rfl⟩
    · refine (hparse (terms?_eq_some_iff.mpr (Or.inr ⟨?_, hne, hcs, ?_⟩))).mpr ⟨terms, hspells, rfl⟩
      · obtain ⟨piece, rest, rfl⟩ := List.exists_cons_of_ne_nil hne
        obtain ⟨t, _, hfirst, -, -⟩ := List.forall₂_cons_left_iff.mp hspells
        intro hblanks
        rw [hcs] at hblanks
        exact hfirst.not_blanks fun c hc =>
          hblanks c ((Text.prefix_intercalate ',' piece rest).subset hc)
      · exact ((List.forall₂_and_left _ _).mp (hspells.imp fun _ _ h => ⟨h.encloses, h⟩)).1

theorem matches_ofRequirements (terms : List Term) (labels : Labels) :
    (ofRequirements (terms.map Term.requirement)).matches labels = true ↔
      ∀ t ∈ terms, t.Holds labels := by
  simp [matches_iff, ofRequirements, Term.holds_requirement]

/-- **The texts that are read as label selectors are those of the grammar**, and the selector of
such a text selects the labels for which all its terms hold. -/
theorem parse_exact (s : String) :
    ((∃ x, parse s = .ok x) ↔ ∃ terms, Written s.toList terms) ∧
      ∀ terms, Written s.toList terms → ∃ x, parse s = .ok x ∧
        ∀ labels, x.matches labels = true ↔ ∀ t ∈ terms, t.Holds labels := by
  have hwritten {terms : List Term} (h : Written s.toList terms) :
      parse s = .ok (ofRequirements (terms.map Term.requirement)) :=
    parse_eq_ok_iff.mpr ⟨terms, h, rfl⟩
  refine ⟨⟨?_, ?_⟩, ?_⟩
  · rintro ⟨x, hx⟩
    obtain ⟨terms, h, -⟩ := parse_eq_ok_iff.mp hx
    exact ⟨terms, h⟩
  · rintro ⟨terms, h⟩
    exact ⟨_, hwritten h⟩
  · intro terms h
    exact ⟨_, hwritten h, matches_ofRequirements terms⟩

/-- A value in a list may be missing, the parenthesis that closes it may not. -/
theorem parse_exact_spellings :
    (∃ terms, Written "a in (b, ) ,!c".toList terms) ∧
      ¬ ∃ terms, Written "a in (b, ,!c".toList terms := by
  refine ⟨(parse_exact _).1.mp ⟨_, rfl⟩, fun h => ?_⟩
  obtain ⟨x, hx⟩ := (parse_exact _).1.mpr h
  cases hx

end ControlPlane.LabelSelector
