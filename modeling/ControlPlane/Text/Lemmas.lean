import ControlPlane.Text.Blank
import ControlPlane.Text.Cut
import Mathlib.Data.List.DropRight
import Mathlib.Data.List.TakeWhile

/-!
# Laws of blanks and cuts

What trimming, cutting and joining make of a text that is put together from parts of which it is
known where they have blanks and separators.

* `Padded`: a text and the blanks around it; `trim_eq_of_padded`: they are what is trimmed.
* `words_pair_iff`: a text of two words.
* `cut?_append`, `splitAt_intercalate`: what is joined is cut where it was joined.
* `append_cons_inj_left`, `append_cons_inj_right`: a separator tells what stands before it and
  what stands after it.
-/

namespace ControlPlane.Text

/-- All characters of the text are blank. -/
def Blanks (cs : List Char) : Prop := ∀ c ∈ cs, isBlank c = true

/-- No character of the text is blank. -/
def Solid (cs : List Char) : Prop := ∀ c ∈ cs, isBlank c = false

/-- The text is another one with blanks around it. -/
def Padded (text inner : List Char) : Prop :=
  ∃ left right, Blanks left ∧ Blanks right ∧ text = left ++ inner ++ right

/-- The visible characters of ASCII are not blank. -/
theorem isBlank_of_visible {c : Char} (h : 0x20 < c.toNat) (h' : c.toNat < 0x80) :
    isBlank c = false := by
  simp only [isBlank, Bool.or_eq_false_iff, Bool.and_eq_false_iff, decide_eq_false_iff_not,
    beq_eq_false_iff_ne]
  omega

/-! ## Trimming -/

section Trim

variable {b cs w text inner left right : List Char} {c : Char}

theorem blanks_nil : Blanks [] := fun _ h => by cases h

theorem blanks_cons : Blanks (c :: cs) ↔ isBlank c = true ∧ Blanks cs := List.forall_mem_cons

theorem blanks_append : Blanks (left ++ right) ↔ Blanks left ∧ Blanks right :=
  List.forall_mem_append

theorem blanks_reverse : Blanks cs.reverse ↔ Blanks cs := by simp [Blanks]

theorem solid_cons : Solid (c :: cs) ↔ isBlank c = false ∧ Solid cs := List.forall_mem_cons

theorem solid_append : Solid (left ++ right) ↔ Solid left ∧ Solid right :=
  List.forall_mem_append

theorem trimStart_eq_nil_iff : trimStart cs = [] ↔ Blanks cs := List.dropWhile_eq_nil_iff

theorem trimEnd_eq (cs : List Char) : trimEnd cs = (trimStart cs.reverse).reverse := rfl

theorem trimEnd_eq_nil_iff : trimEnd cs = [] ↔ Blanks cs := by
  rw [trimEnd_eq, List.reverse_eq_nil_iff, trimStart_eq_nil_iff, blanks_reverse]

/-- The blanks at the start end before a character that is not blank. -/
theorem trimStart_append_cons (hc : isBlank c = false) (left right : List Char) :
    trimStart (left ++ c :: right) = trimStart left ++ c :: right := by
  induction left with
  | nil => exact List.dropWhile_cons_of_neg (by simp [hc])
  | cons d left ih =>
    by_cases hd : isBlank d = true
    · simpa [trimStart, List.dropWhile_cons_of_pos hd] using ih
    · simp [trimStart, List.dropWhile_cons_of_neg hd]

theorem trimStart_append_solid (hw : Solid w) (hne : w ≠ []) (left right : List Char) :
    trimStart (left ++ w ++ right) = trimStart left ++ w ++ right := by
  obtain ⟨c, w, rfl⟩ := List.exists_cons_of_ne_nil hne
  simpa using trimStart_append_cons (solid_cons.mp hw).1 left (w ++ right)

theorem trimEnd_append_solid (hw : Solid w) (hne : w ≠ []) (left right : List Char) :
    trimEnd (left ++ w ++ right) = left ++ w ++ trimEnd right := by
  have hw' : Solid w.reverse := fun c hc => hw c (List.mem_reverse.mp hc)
  have hstart := trimStart_append_solid hw' (by simpa using hne) right.reverse left.reverse
  rw [trimEnd_eq, trimEnd_eq, List.reverse_append, List.reverse_append, ← List.append_assoc, hstart]
  simp only [List.reverse_append, List.reverse_reverse, List.append_assoc]

/-- Only the text on the two sides of what is not blank is trimmed. -/
theorem trim_append_solid (hw : Solid w) (hne : w ≠ []) (left right : List Char) :
    trim (left ++ w ++ right) = trimStart left ++ w ++ trimEnd right := by
  rw [trim, trimStart_append_solid hw hne, trimEnd_append_solid hw hne]

theorem padded_self (cs : List Char) : Padded cs cs :=
  ⟨[], [], blanks_nil, blanks_nil, (List.append_nil _).symm⟩

/-- More blanks around a text are blanks around it. -/
theorem Padded.trans {outer : List Char} (h : Padded outer text) (h' : Padded text inner) :
    Padded outer inner := by
  obtain ⟨left, right, hleft, hright, rfl⟩ := h
  obtain ⟨left', right', hleft', hright', rfl⟩ := h'
  exact ⟨left ++ left', right' ++ right, blanks_append.mpr ⟨hleft, hleft'⟩,
    blanks_append.mpr ⟨hright', hright⟩, by simp only [List.append_assoc]⟩

theorem Padded.append_left (h : Padded text inner) (hb : Blanks b) : Padded (b ++ text) inner :=
  Padded.trans ⟨b, [], hb, blanks_nil, (List.append_nil _).symm⟩ h

theorem Padded.append_right (h : Padded text inner) (hb : Blanks b) : Padded (text ++ b) inner :=
  Padded.trans ⟨[], b, blanks_nil, hb, rfl⟩ h

theorem trimStart_of_padded (h : Padded text inner) (hinner : Solid inner) :
    ∃ right, Blanks right ∧ trimStart text = inner ++ right := by
  obtain ⟨left, right, hleft, hright, rfl⟩ := h
  by_cases hne : inner = []
  · subst hne
    rw [List.append_nil]
    exact ⟨[], blanks_nil, trimStart_eq_nil_iff.mpr (blanks_append.mpr ⟨hleft, hright⟩)⟩
  · refine ⟨right, hright, ?_⟩
    rw [trimStart_append_solid hinner hne, trimStart_eq_nil_iff.mpr hleft, List.nil_append]

theorem trimEnd_of_padded (h : Padded text inner) (hinner : Solid inner) :
    ∃ left, Blanks left ∧ trimEnd text = left ++ inner := by
  obtain ⟨left, right, hleft, hright, rfl⟩ := h
  by_cases hne : inner = []
  · subst hne
    rw [List.append_nil]
    exact ⟨[], blanks_nil, trimEnd_eq_nil_iff.mpr (blanks_append.mpr ⟨hleft, hright⟩)⟩
  · refine ⟨left, hleft, ?_⟩
    rw [trimEnd_append_solid hinner hne, trimEnd_eq_nil_iff.mpr hright, List.append_nil]

/-- **The blanks around a text are what is trimmed.** -/
theorem trim_eq_of_padded (h : Padded text inner) (hinner : Solid inner) : trim text = inner := by
  obtain ⟨right, hright, hstart⟩ := trimStart_of_padded h hinner
  rw [trim, hstart]
  by_cases hne : inner = []
  · subst hne
    exact trimEnd_eq_nil_iff.mpr hright
  · have hend := trimEnd_append_solid hinner hne [] right
    rwa [List.nil_append, trimEnd_eq_nil_iff.mpr hright, List.append_nil] at hend

theorem padded_trim (cs : List Char) : Padded cs (trim cs) := by
  have hstart : cs = cs.takeWhile isBlank ++ trimStart cs := List.takeWhile_append_dropWhile.symm
  have hend : trimStart cs =
      trim cs ++ ((trimStart cs).reverse.takeWhile isBlank).reverse := by
    rw [trim, trimEnd, ← List.reverse_append, List.takeWhile_append_dropWhile, List.reverse_reverse]
  refine ⟨cs.takeWhile isBlank, ((trimStart cs).reverse.takeWhile isBlank).reverse,
    fun c => List.mem_takeWhile_imp, blanks_reverse.mpr fun c => List.mem_takeWhile_imp, ?_⟩
  rw [List.append_assoc, ← hend, ← hstart]

/-- Nothing but blanks is trimmed. -/
theorem mem_trim (h : c ∈ cs) (hc : isBlank c = false) : c ∈ trim cs := by
  obtain ⟨left, right, hleft, hright, hcs⟩ := padded_trim cs
  have hsolid {side : List Char} (hside : Blanks side) : c ∉ side := fun hmem =>
    Bool.false_ne_true (hc.symm.trans (hside c hmem))
  rw [hcs, List.mem_append, List.mem_append] at h
  rcases h with (h | h) | h
  · exact absurd h (hsolid hleft)
  · exact h
  · exact absurd h (hsolid hright)

theorem trim_infix (cs : List Char) : trim cs <:+: cs := by
  obtain ⟨left, right, -, -, hcs⟩ := padded_trim cs
  exact ⟨left, right, hcs.symm⟩

/-- What was trimmed is not trimmed again. -/
theorem trim_trim (cs : List Char) : trim (trim cs) = trim cs := by
  have hstart : trimStart (trim cs) = trim cs := by
    cases hcs : trim cs with
    | nil => rfl
    | cons c rest =>
      obtain ⟨tail, htail⟩ : trim cs <+: trimStart cs := List.rdropWhile_prefix isBlank _
      have hfirst : (trimStart cs).head? = some c := by
        rw [← htail, hcs]
        rfl
      have hc := List.head?_dropWhile_not isBlank cs
      rw [trimStart] at hfirst
      rw [hfirst] at hc
      exact List.dropWhile_cons_of_neg (Bool.eq_false_iff.mp hc)
  rw [trim, hstart]
  exact List.rdropWhile_idempotent isBlank (trimStart cs)

theorem trim_eq_nil_iff : trim cs = [] ↔ Blanks cs := by
  constructor
  · intro h
    obtain ⟨left, right, hleft, hright, hcs⟩ := padded_trim cs
    rw [h, List.append_nil] at hcs
    exact hcs ▸ blanks_append.mpr ⟨hleft, hright⟩
  · intro h
    exact trim_eq_of_padded ⟨cs, [], h, blanks_nil, by simp⟩ nofun

end Trim

/-! ## Words -/

section Words

variable {cs word w rest : List Char} {ws : List (List Char)} {c : Char}

theorem wordsFrom_solid (hw : Solid w) (word rest : List Char) :
    wordsFrom word (w ++ rest) = wordsFrom (word ++ w) rest := by
  induction w generalizing word with
  | nil => rw [List.nil_append, List.append_nil]
  | cons c w ih =>
    obtain ⟨hc, hw⟩ := solid_cons.mp hw
    rw [List.cons_append, wordsFrom, if_neg (by simp [hc]), ih hw, List.append_assoc]
    rfl

theorem words_append (hb : Blanks w) (cs : List Char) : words (w ++ cs) = words cs := by
  induction w with
  | nil => rfl
  | cons c w ih =>
    obtain ⟨hc, hb⟩ := blanks_cons.mp hb
    rw [List.cons_append, words, wordsFrom, if_pos hc]
    exact ih hb

/-- A word ends at the first blank after it. -/
theorem words_solid_append (hw : Solid w) (hne : w ≠ [])
    (hrest : ∀ c ∈ rest.head?, isBlank c = true) : words (w ++ rest) = w :: words rest := by
  rw [words, wordsFrom_solid hw, List.nil_append]
  cases rest with
  | nil => simp [wordsFrom, words, hne]
  | cons c rest =>
    have hc : isBlank c = true := hrest c rfl
    simp [wordsFrom, words, hc, hne]

/-- The first of the words that follow the beginning of one. -/
theorem eq_of_wordsFrom_cons (hword : Solid word) (h : wordsFrom word cs = w :: ws) :
    ∃ b w' rest, Blanks b ∧ (word ≠ [] → b = []) ∧ w = word ++ w' ∧ w ≠ [] ∧ Solid w ∧
      (∀ c ∈ rest.head?, isBlank c = true) ∧ cs = b ++ w' ++ rest ∧ words rest = ws := by
  induction cs generalizing word with
  | nil =>
    rw [wordsFrom] at h
    split at h
    · cases h
    · next hne =>
      obtain ⟨rfl, rfl⟩ := List.cons.inj h
      exact ⟨[], [], [], blanks_nil, fun _ => rfl, (List.append_nil _).symm, by simpa using hne,
        hword, nofun, rfl, rfl⟩
  | cons c cs ih =>
    rw [wordsFrom] at h
    split at h
    · next hc =>
      split at h
      · next hempty =>
        obtain rfl := List.isEmpty_iff.mp hempty
        obtain ⟨b, w', rest, hb, -, hw, hne, hsolid, hrest, rfl, hws⟩ := ih hword h
        exact ⟨c :: b, w', rest, blanks_cons.mpr ⟨hc, hb⟩, fun h => absurd rfl h, hw, hne, hsolid,
          hrest, rfl, hws⟩
      · next hne =>
        obtain ⟨rfl, rfl⟩ := List.cons.inj h
        refine ⟨[], [], c :: cs, blanks_nil, fun _ => rfl, (List.append_nil _).symm,
          by simpa using hne, hword, ?_, rfl, ?_⟩
        · rintro _ ⟨⟩
          exact hc
        · exact words_append (w := [c]) (blanks_cons.mpr ⟨hc, blanks_nil⟩) cs
    · next hc =>
      have hc : isBlank c = false := by simpa using hc
      have hword' : Solid (word ++ [c]) :=
        solid_append.mpr ⟨hword, solid_cons.mpr ⟨hc, nofun⟩⟩
      obtain ⟨b, w', rest, -, hb, hw, hne, hsolid, hrest, rfl, hws⟩ := ih hword' h
      obtain rfl := hb (by simp)
      exact ⟨[], c :: w', rest, blanks_nil, fun _ => rfl, by simpa using hw, hne, hsolid, hrest,
        rfl, hws⟩

theorem words_eq_cons_iff : words cs = w :: ws ↔
    ∃ b rest, Blanks b ∧ w ≠ [] ∧ Solid w ∧ (∀ c ∈ rest.head?, isBlank c = true) ∧
      cs = b ++ w ++ rest ∧ words rest = ws := by
  have hnil : Solid [] := nofun
  constructor
  · intro h
    obtain ⟨b, w', rest, hb, -, rfl, hne, hsolid, hrest, hcs, hws⟩ :=
      eq_of_wordsFrom_cons hnil h
    exact ⟨b, rest, hb, hne, hsolid, hrest, hcs, hws⟩
  · rintro ⟨b, rest, hb, hne, hsolid, hrest, rfl, rfl⟩
    rw [List.append_assoc, words_append hb, words_solid_append hsolid hne hrest]

/-- A word that has begun is one of the words. -/
theorem wordsFrom_ne_nil (hne : word ≠ []) (cs : List Char) : wordsFrom word cs ≠ [] := by
  induction cs generalizing word with
  | nil => simp [wordsFrom, hne]
  | cons c cs ih =>
    rw [wordsFrom]
    split
    · simp [hne]
    · exact ih (by simp)

theorem words_eq_nil_iff : words cs = [] ↔ Blanks cs := by
  constructor
  · intro h
    induction cs with
    | nil => exact blanks_nil
    | cons c cs ih =>
      rw [words, wordsFrom] at h
      split at h
      · next hc => exact blanks_cons.mpr ⟨hc, ih h⟩
      · exact absurd h (wordsFrom_ne_nil (by simp) cs)
  · intro h
    have hwords := words_append h []
    rwa [List.append_nil] at hwords

/-- **A text of two words** is the words with blanks around them and between them. -/
theorem words_pair_iff {first second : List Char} : words cs = [first, second] ↔
    (first ≠ [] ∧ Solid first) ∧ (second ≠ [] ∧ Solid second) ∧
      ∃ b₀ b₁ b₂, Blanks b₀ ∧ (b₁ ≠ [] ∧ Blanks b₁) ∧ Blanks b₂ ∧
        cs = b₀ ++ first ++ b₁ ++ second ++ b₂ := by
  simp only [words_eq_cons_iff, words_eq_nil_iff]
  constructor
  · rintro ⟨b₀, rest, hb₀, hne, hfirst, hhead, rfl, b₁, b₂, hb₁, hne', hsecond, -, rfl, hb₂⟩
    refine ⟨⟨hne, hfirst⟩, ⟨hne', hsecond⟩, b₀, b₁, b₂, hb₀, ⟨?_, hb₁⟩, hb₂, ?_⟩
    · -- Without blanks between them the second word would begin with one.
      rintro rfl
      obtain ⟨c, w, rfl⟩ := List.exists_cons_of_ne_nil hne'
      exact Bool.false_ne_true ((solid_cons.mp hsecond).1.symm.trans (hhead c rfl))
    · simp only [List.append_assoc]
  · rintro ⟨⟨hne, hfirst⟩, ⟨hne', hsecond⟩, b₀, b₁, b₂, hb₀, ⟨hb₁ne, hb₁⟩, hb₂, rfl⟩
    have hhead {b : List Char} (hb : Blanks b) : ∀ c ∈ b.head?, isBlank c = true :=
      fun c hc => hb c (List.mem_of_mem_head? hc)
    refine ⟨b₀, b₁ ++ second ++ b₂, hb₀, hne, hfirst, ?_, by simp only [List.append_assoc], b₁, b₂,
      hb₁, hne', hsecond, hhead hb₂, rfl, hb₂⟩
    obtain ⟨c, b, rfl⟩ := List.exists_cons_of_ne_nil hb₁ne
    rintro _ ⟨⟩
    exact (blanks_cons.mp hb₁).1

end Words

/-! ## Cutting -/

section Cut

variable {sep c : Char} {cs left right : List Char}

/-- A separator whose first character is nowhere in the beginning of a text cuts what follows. -/
theorem cut?_append_of_notMem (hleft : c ∉ left) (rest right : List Char) :
    cut? (c :: rest) (left ++ right) =
      (cut? (c :: rest) right).map fun parts => (left ++ parts.1, parts.2) := by
  induction left with
  | nil =>
    rw [List.nil_append]
    exact Option.map_id.symm ▸ rfl
  | cons d left ih =>
    rw [List.mem_cons, not_or] at hleft
    have hstart : ¬ (c :: rest).isPrefixOf (d :: (left ++ right)) = true := by
      simp [List.isPrefixOf, hleft.1]
    rw [List.cons_append, cut?, if_neg hstart, ih hleft.2, Option.map_map]
    rfl

/-- A text is cut at a separator whose first character is nowhere before it. -/
theorem cut?_append (hleft : c ∉ left) (rest right : List Char) :
    cut? (c :: rest) (left ++ (c :: rest) ++ right) = some (left, right) := by
  have hstart : (c :: rest).isPrefixOf (c :: rest ++ right) = true :=
    List.isPrefixOf_iff_prefix.mpr (List.prefix_append ..)
  rw [List.append_assoc, cut?_append_of_notMem hleft, List.cons_append, cut?, ← List.cons_append,
    if_pos hstart, List.drop_left, Option.map_some, List.append_nil]

/-- A text is cut exactly at a separator that is somewhere in it. -/
theorem cut?_eq_none_iff {sep : List Char} (hsep : sep ≠ []) :
    cut? sep cs = none ↔ ¬ sep <:+: cs := by
  induction cs with
  | nil => simp [cut?, hsep]
  | cons c cs ih =>
    rw [cut?, List.infix_cons_iff, not_or, ← ih, ← List.isPrefixOf_iff_prefix]
    split
    · next hstart => simp [hstart]
    · next hstart => simp [hstart]

/-- A text is not cut at a separator that needs more of a character than there is. -/
theorem cut?_eq_none {sep : List Char} (c : Char) (h : cs.count c < sep.count c) :
    cut? sep cs = none := by
  cases hcut : cut? sep cs with
  | none => rfl
  | some parts =>
    have hcount : sep.count c ≤ cs.count c := by
      rw [eq_append_of_cut? hcut, List.count_append, List.count_append]
      omega
    exact absurd hcount (Nat.not_le.mpr h)

theorem after?_eq_none_iff {start text : List Char} :
    after? start text = none ↔ ¬ start <+: text := by
  simp [after?, List.isPrefixOf_iff_prefix]

theorem before?_eq_some_iff {text rest : List Char} :
    before? c text = some rest ↔ text = rest ++ [c] := by
  unfold before?
  constructor
  · intro h
    split at h
    · next hlast =>
      obtain ⟨init, rfl⟩ := List.getLast?_eq_some_iff.mp hlast
      rw [List.dropLast_concat] at h
      rw [Option.some.inj h]
    · cases h
  · rintro rfl
    rw [if_pos (by simp), List.dropLast_concat]

theorem splitAt_of_notMem (h : sep ∉ cs) : splitAt sep cs = [cs] := by
  induction cs with
  | nil => rfl
  | cons c cs ih =>
    rw [List.mem_cons, not_or] at h
    rw [splitAt, if_neg (Ne.symm h.1), ih h.2]

/-- The separator is in none of the pieces. -/
theorem notMem_splitAt (sep : Char) (cs : List Char) : ∀ piece ∈ splitAt sep cs, sep ∉ piece := by
  induction cs with
  | nil => exact List.forall_mem_singleton.mpr List.not_mem_nil
  | cons c cs ih =>
    rw [splitAt]
    split
    · exact List.forall_mem_cons.mpr ⟨List.not_mem_nil, ih⟩
    · next hc =>
      cases hpieces : splitAt sep cs with
      | nil => exact absurd hpieces (splitAt_ne_nil sep cs)
      | cons piece pieces =>
        obtain ⟨hpiece, hrest⟩ := List.forall_mem_cons.mp (hpieces ▸ ih)
        refine List.forall_mem_cons.mpr ⟨?_, hrest⟩
        rw [List.mem_cons, not_or]
        exact ⟨Ne.symm hc, hpiece⟩

theorem splitAt_append (h : sep ∉ left) (right : List Char) :
    splitAt sep (left ++ sep :: right) = left :: splitAt sep right := by
  induction left with
  | nil => rw [List.nil_append, splitAt, if_pos rfl]
  | cons c left ih =>
    rw [List.mem_cons, not_or] at h
    rw [List.cons_append, splitAt, if_neg (Ne.symm h.1), ih h.2]

/-- What stands before and after the first separator of a text. -/
theorem append_cons_inj_left {left right left' right' : List Char} (h : sep ∉ left)
    (h' : sep ∉ left') :
    left ++ sep :: right = left' ++ sep :: right' ↔ left = left' ∧ right = right' := by
  constructor
  · intro heq
    have hpieces := congrArg (splitAt sep) heq
    rw [splitAt_append h, splitAt_append h'] at hpieces
    obtain rfl := (List.cons.inj hpieces).1
    exact ⟨rfl, (List.cons.inj (List.append_cancel_left heq)).2⟩
  · rintro ⟨rfl, rfl⟩
    rfl

/-- What stands before and after the last separator of a text. -/
theorem append_cons_inj_right {left right left' right' : List Char} (h : sep ∉ right)
    (h' : sep ∉ right') :
    left ++ sep :: right = left' ++ sep :: right' ↔ left = left' ∧ right = right' := by
  rw [← List.reverse_inj, List.reverse_append, List.reverse_append, List.reverse_cons,
    List.reverse_cons, List.append_assoc, List.append_assoc, List.singleton_append,
    List.singleton_append, append_cons_inj_left (by simpa using h) (by simpa using h'),
    List.reverse_inj, List.reverse_inj, and_comm]

/-- **Pieces that are joined by a separator which is in none of them are cut apart again.** -/
theorem splitAt_intercalate {pieces : List (List Char)} (hne : pieces ≠ [])
    (h : ∀ piece ∈ pieces, sep ∉ piece) : splitAt sep ([sep].intercalate pieces) = pieces := by
  induction pieces with
  | nil => exact absurd rfl hne
  | cons piece pieces ih =>
    obtain ⟨hpiece, hpieces⟩ := List.forall_mem_cons.mp h
    cases pieces with
    | nil => rw [List.intercalate_singleton, splitAt_of_notMem hpiece]
    | cons piece' pieces =>
      rw [List.intercalate_cons_cons, List.append_assoc, List.singleton_append,
        splitAt_append hpiece, ih (List.cons_ne_nil _ _) hpieces]

theorem mem_of_mem_intercalate {pieces : List (List Char)} (h : c ∈ [sep].intercalate pieces) :
    c = sep ∨ ∃ piece ∈ pieces, c ∈ piece := by
  induction pieces with
  | nil => cases h
  | cons piece pieces ih =>
    cases pieces with
    | nil =>
      rw [List.intercalate_singleton] at h
      exact Or.inr ⟨piece, List.mem_cons_self, h⟩
    | cons next rest =>
      rw [List.intercalate_cons_cons, List.mem_append, List.mem_append, List.mem_singleton] at h
      rcases h with (h | h) | h
      · exact Or.inr ⟨piece, List.mem_cons_self, h⟩
      · exact Or.inl h
      · rcases ih h with h | ⟨piece', hpiece', h⟩
        · exact Or.inl h
        · exact Or.inr ⟨piece', List.mem_cons_of_mem _ hpiece', h⟩

theorem prefix_intercalate (sep : Char) (piece : List Char) (pieces : List (List Char)) :
    piece <+: [sep].intercalate (piece :: pieces) := by
  cases pieces with
  | nil => exact ⟨[], by rw [List.append_nil, List.intercalate_singleton]⟩
  | cons next rest =>
    rw [List.intercalate_cons_cons, List.append_assoc]
    exact List.prefix_append ..

/-- The first character of joined pieces: the first piece is empty and the separator follows, or the
character is the first of the first piece. -/
theorem cons_eq_intercalate_iff {piece : List Char} {pieces : List (List Char)} :
    c :: cs = [sep].intercalate (piece :: pieces) ↔
      (piece = [] ∧ c = sep ∧ ∃ next rest, pieces = next :: rest ∧
        cs = [sep].intercalate (next :: rest)) ∨
      ∃ piece', piece = c :: piece' ∧ cs = [sep].intercalate (piece' :: pieces) := by
  cases piece with
  | nil =>
    cases pieces with
    | nil => simp
    | cons next rest =>
      rw [List.intercalate_cons_cons, List.nil_append, List.singleton_append, List.cons.injEq]
      constructor
      · rintro ⟨rfl, rfl⟩
        exact Or.inl ⟨rfl, rfl, next, rest, rfl, rfl⟩
      · rintro (⟨-, rfl, _, _, h, rfl⟩ | ⟨_, h, -⟩)
        · exact ⟨rfl, by rw [h]⟩
        · cases h
  | cons d piece =>
    have hcons : [sep].intercalate ((d :: piece) :: pieces) =
        d :: [sep].intercalate (piece :: pieces) := by
      cases pieces with
      | nil => simp only [List.intercalate_singleton]
      | cons next rest => simp only [List.intercalate_cons_cons, List.cons_append]
    rw [hcons, List.cons.injEq]
    constructor
    · rintro ⟨rfl, rfl⟩
      exact Or.inr ⟨piece, rfl, rfl⟩
    · rintro (⟨h, -⟩ | ⟨_, h, rfl⟩)
      · cases h
      · obtain ⟨rfl, rfl⟩ := List.cons.inj h
        exact ⟨rfl, rfl⟩

theorem toList_join (sep : String) (texts : List String) :
    (join sep texts).toList = sep.toList.intercalate (texts.map String.toList) := by
  induction texts with
  | nil => rfl
  | cons text texts ih =>
    cases texts with
    | nil => rw [join, List.map_cons, List.map_nil, List.intercalate_singleton]
    | cons text' texts =>
      rw [join, String.toList_append, String.toList_append, ih]
      · rw [List.map_cons, List.map_cons, List.map_cons, List.intercalate_cons_cons]
      · exact List.cons_ne_nil _ _

end Cut

end ControlPlane.Text
