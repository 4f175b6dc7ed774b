import ControlPlane.Label.Parser
import ControlPlane.Proofs.Attempt
import ControlPlane.SortedMap.Lemmas
import ControlPlane.Text.Lemmas

/-!
# The grammar of label selectors

A selector is a list of terms, and each term has texts that spell it. A term is not read by this
grammar: it is tried for a mark at its start, then for a parenthesis, and then for one comparison
after another. What is read in this way is nevertheless exactly what the grammar describes.

* `LabelSelector.Term`, `LabelSelector.Term.Holds`: the terms, and what they say about labels.
* `LabelSelector.Spells`, `LabelSelector.Written`: the texts of a term, and of a list of terms.
* `LabelSelector.spells_of_term?`, `LabelSelector.Spells.term?_trim`: what is read is spelled, and
  what is spelled is read.
* `LabelSelector.parseTerm_eq_ok_iff`: a term is read exactly from its texts.
-/

namespace ControlPlane.LabelSelector

open Text (trim trimStart trimEnd words cut? splitAt after? before? isBlank Blanks Solid Padded)

/-! ## Terms and their texts -/

/-- A term of a selector, as it is meant. -/
structure Term where
  key : String
  operator : LabelOperator
  values : List String

namespace Term

/-- What a term says about labels. -/
def Holds (t : Term) (labels : Labels) : Prop :=
  match t.operator with
  | .oneOf => ∃ v, SortedMap.get? labels t.key = some v ∧ v ∈ t.values
  | .noneOf => ∀ v, SortedMap.get? labels t.key = some v → v ∉ t.values
  | .present => ∃ v, SortedMap.get? labels t.key = some v
  | .absent => SortedMap.get? labels t.key = none

/-- The requirement that a term makes. -/
def requirement (t : Term) : LabelRequirement := .of t.key t.operator t.values

theorem holds_requirement (t : Term) (labels : Labels) :
    t.requirement.holds labels = true ↔ t.Holds labels := by
  obtain ⟨key, operator, values⟩ := t
  have hmem (v : String) : v ∈ SortedSet.ofMembers values ↔ v ∈ values := SortedSet.mem_ofMembers
  cases h : SortedMap.get? labels key <;> cases operator <;>
    simp [requirement, LabelRequirement.of, LabelRequirement.holds, Holds, SortedMap.has, h, hmem]

end Term

/-- A run of ASCII letters, digits, and the marks `-`, `_`, `.` and `/`. -/
def IsRun (s : String) : Prop := ∀ c ∈ s.toList, c.isAlphanum = true ∨ c ∈ ['-', '_', '.', '/']

/-- A run that is not empty. -/
def IsKey (s : String) : Prop := s ≠ "" ∧ IsRun s

/-- The signs of a comparison with one value. -/
def signs : List (List Char × LabelOperator) :=
  [(['!', '='], .noneOf), (['=', '='], .oneOf), (['='], .oneOf)]

/-- The words for a list of values. -/
def listWords : List (List Char × LabelOperator) :=
  [(['i', 'n'], .oneOf), (['n', 'o', 't', 'i', 'n'], .noneOf)]

/-- A text of a term: `K`, `!K`, `K op V`, or `K in (V, V)`, with blanks around all parts. -/
inductive Spells : List Char → Term → Prop
  | present {text : List Char} {key : String} : Padded text key.toList → IsKey key →
      Spells text ⟨key, .present, []⟩
  | absent {left text : List Char} {key : String} : Blanks left → Padded text key.toList →
      IsKey key → Spells (left ++ ['!'] ++ text) ⟨key, .absent, []⟩
  | compared {left sign right : List Char} {operator : LabelOperator} {key value : String} :
      (sign, operator) ∈ signs → Padded left key.toList → IsKey key →
      Padded right value.toList → IsRun value →
      Spells (left ++ sign ++ right) ⟨key, operator, [value]⟩
  | listed {b₀ b₁ b₂ b₃ word : List Char} {operator : LabelOperator} {key : String}
      {texts : List (List Char)} {values : List String} :
      Blanks b₀ → IsKey key → b₁ ≠ [] → Blanks b₁ → (word, operator) ∈ listWords → Blanks b₂ →
      texts ≠ [] →
      List.Forall₂ (fun text value => Padded text value.toList ∧ IsRun value) texts values →
      Blanks b₃ →
      Spells (b₀ ++ key.toList ++ b₁ ++ word ++ b₂ ++ ['('] ++ [','].intercalate texts ++ [')'] ++
        b₃) ⟨key, operator, values⟩

/-- Parentheses are closed as often as they are opened, and every comma is inside of them. -/
structure Closed (piece : List Char) : Prop where
  balanced : piece.count '(' = piece.count ')'
  inside : ∀ left right, piece = left ++ [','] ++ right → left.count ')' < left.count '('

/-- A text of a list of terms: nothing but blanks, or the texts of the terms separated by the commas
outside parentheses. -/
def Written (text : List Char) (terms : List Term) : Prop :=
  (Blanks text ∧ terms = []) ∨
    ∃ pieces, pieces ≠ [] ∧ text = [','].intercalate pieces ∧ (∀ piece ∈ pieces, Closed piece) ∧
      List.Forall₂ Spells pieces terms

/-! ## Characters -/

section Characters

variable {c : Char} {s key value : String} {text : List Char}

theorem isTokenChar_iff :
    isTokenChar c = true ↔ c.isAlphanum = true ∨ c ∈ ['-', '_', '.', '/'] := by
  simp [isTokenChar, or_assoc]

/-- The characters of tokens are visible ones of ASCII. -/
theorem toNat_of_isTokenChar (h : isTokenChar c = true) : 0x20 < c.toNat ∧ c.toNat < 0x80 := by
  simp only [isTokenChar, Char.isAlphanum, Bool.or_eq_true, decide_eq_true_eq] at h
  -- letters and digits are ranges of codes: their definitions compare with the bounds
  delta Char.isAlpha Char.isUpper Char.isLower Char.isDigit at h
  simp only [Bool.or_eq_true, Bool.and_eq_true, decide_eq_true_eq, UInt32.le_iff_toNat_le,
    ge_iff_le] at h
  have hrange {lo hi : Nat} (hlo : 0x20 < lo) (hhi : hi < 0x80)
      (h : lo ≤ c.toNat ∧ c.toNat ≤ hi) : 0x20 < c.toNat ∧ c.toNat < 0x80 :=
    ⟨Nat.lt_of_lt_of_le hlo h.1, Nat.lt_of_le_of_lt h.2 hhi⟩
  rcases h with (((((hupper | hlower) | hdigit) | rfl) | rfl) | rfl) | rfl
  · exact hrange (by decide) (by decide) hupper
  · exact hrange (by decide) (by decide) hlower
  · exact hrange (by decide) (by decide) hdigit
  all_goals decide

theorem isBlank_of_isTokenChar (h : isTokenChar c = true) : isBlank c = false :=
  Text.isBlank_of_visible (toNat_of_isTokenChar h).1 (toNat_of_isTokenChar h).2

theorem isValue_iff : isValue s.toList = true ↔ IsRun s := by
  simp only [isValue, List.all_eq_true, isTokenChar_iff, IsRun]

theorem isToken_iff : isToken s.toList = true ↔ IsKey s := by
  rw [IsKey, ← isValue_iff, isToken, isValue]
  simp

theorem IsRun.solid (h : IsRun s) : Solid s.toList := fun c hc =>
  isBlank_of_isTokenChar (isTokenChar_iff.mpr (h c hc))

theorem IsKey.ne_nil (h : IsKey key) : key.toList ≠ [] := by
  simpa using h.1

/-- What passes a test and has no blanks is read from the texts that are it and blanks around it. -/
theorem tested_eq_some_iff {p : List Char → Bool}
    (hsolid : ∀ s : String, p s.toList = true → Solid s.toList) :
    (if p (trim text) = true then some (String.ofList (trim text)) else none) = some s ↔
      Padded text s.toList ∧ p s.toList = true := by
  constructor
  · intro h
    split at h
    · next htest =>
      obtain rfl := Option.some.inj h
      rw [String.toList_ofList]
      exact ⟨Text.padded_trim text, htest⟩
    · cases h
  · rintro ⟨hpadded, htest⟩
    rw [Text.trim_eq_of_padded hpadded (hsolid s htest), if_pos htest, String.ofList_toList]

theorem token?_eq_some_iff : token? text = some key ↔ Padded text key.toList ∧ IsKey key := by
  rw [← isToken_iff]
  exact tested_eq_some_iff fun s h => (isToken_iff.mp h).2.solid

theorem value?_eq_some_iff :
    value? text = some value ↔ Padded text value.toList ∧ IsRun value := by
  rw [← isValue_iff]
  exact tested_eq_some_iff fun s h => (isValue_iff.mp h).solid

end Characters

/-- All characters of the text are blank or may stand in a token, so none is a sign. -/
def Plain (text : List Char) : Prop := ∀ c ∈ text, isBlank c = true ∨ isTokenChar c = true

section Plain

variable {c : Char} {text left right inner : List Char} {value : String}

theorem plain_append : Plain (left ++ right) ↔ Plain left ∧ Plain right :=
  List.forall_mem_append

theorem plain_of_blanks (h : Blanks text) : Plain text := fun c hc => Or.inl (h c hc)

theorem IsRun.plain (h : IsRun value) : Plain value.toList := fun c hc =>
  Or.inr (isTokenChar_iff.mpr (h c hc))

theorem plain_of_padded (h : Padded text inner) (hinner : Plain inner) : Plain text := by
  obtain ⟨left, right, hleft, hright, rfl⟩ := h
  exact plain_append.mpr ⟨plain_append.mpr ⟨plain_of_blanks hleft, hinner⟩, plain_of_blanks hright⟩

/-- A sign is in no plain text. -/
theorem Plain.notMem (h : Plain text) (hblank : isBlank c = false)
    (htoken : isTokenChar c = false) : c ∉ text := fun hc => by
  rcases h c hc with h | h
  · exact Bool.false_ne_true (hblank.symm.trans h)
  · exact Bool.false_ne_true (htoken.symm.trans h)

theorem Plain.count_eq_zero (h : Plain text) (hblank : isBlank c = false)
    (htoken : isTokenChar c = false) : text.count c = 0 :=
  List.count_eq_zero.mpr (h.notMem hblank htoken)

/-- No character of the text is a parenthesis or a comma. -/
def Flat (text : List Char) : Prop := ∀ c ∈ text, c ≠ '(' ∧ c ≠ ')' ∧ c ≠ ','

theorem flat_append : Flat (left ++ right) ↔ Flat left ∧ Flat right := List.forall_mem_append

theorem Plain.flat (h : Plain text) : Flat text := fun _ hc =>
  ⟨fun heq => h.notMem rfl rfl (heq ▸ hc), fun heq => h.notMem rfl rfl (heq ▸ hc),
    fun heq => h.notMem rfl rfl (heq ▸ hc)⟩

end Plain

section Marks

variable {sign word : List Char} {operator : LabelOperator}

theorem of_mem_signs (h : (sign, operator) ∈ signs) :
    (operator = .oneOf ∨ operator = .noneOf) ∧ sign ≠ [] ∧ Solid sign ∧ Flat sign := by
  simp only [signs, List.mem_cons, List.not_mem_nil, or_false, Prod.mk.injEq] at h
  rcases h with ⟨rfl, rfl⟩ | ⟨rfl, rfl⟩ | ⟨rfl, rfl⟩ <;> simp [Solid, Flat, isBlank]

theorem of_mem_listWords (h : (word, operator) ∈ listWords) :
    (operator = .oneOf ∨ operator = .noneOf) ∧ (word ≠ [] ∧ Solid word) ∧ Plain word := by
  simp only [listWords, List.mem_cons, List.not_mem_nil, or_false, Prod.mk.injEq] at h
  rcases h with ⟨rfl, rfl⟩ | ⟨rfl, rfl⟩ <;> simp [Solid, Plain, isBlank, isTokenChar]

end Marks

/-! ## Reading a term -/

section ReadTerm

variable {text head tail left right sign : List Char} {key value : String}
  {operator : LabelOperator} {r : LabelRequirement}

/-- A term with a list of values is read exactly if it has two words and then the values. -/
theorem setTerm?_eq_some_iff : setTerm? head tail = some r ↔
    ∃ list k word key operator values, tail = list ++ [')'] ∧ words head = [k, word] ∧
      token? k = some key ∧ (word, operator) ∈ listWords ∧
      List.Forall₂ (fun text value => value? text = some value) (splitAt ',' list) values ∧
      r = .of key operator values := by
  simp only [setTerm?, Option.bind_eq_bind, Option.bind_eq_some_iff, Text.before?_eq_some_iff]
  constructor
  · rintro ⟨list, rfl, h⟩
    split at h
    · next k word hwords =>
      obtain ⟨key, hkey, hread⟩ := Option.bind_eq_some_iff.mp h
      clear h
      obtain ⟨operator, hword, hread⟩ : ∃ operator, (word, operator) ∈ listWords ∧
          ((splitAt ',' list).mapM value?).bind
            (fun values => some (LabelRequirement.of key operator values)) = some r := by
        split at hread
        · next hword =>
          obtain rfl : word = "in".toList := by rw [← hword, String.toList_ofList]
          exact ⟨_, List.mem_cons_self, hread⟩
        · next hword =>
          obtain rfl : word = "notin".toList := by rw [← hword, String.toList_ofList]
          exact ⟨_, List.mem_cons_of_mem _ List.mem_cons_self, hread⟩
        · cases hread
      obtain ⟨values, hvalues, hr⟩ := Option.bind_eq_some_iff.mp hread
      exact ⟨list, k, word, key, operator, values, rfl, hwords, hkey, hword,
        mapM_eq_some_iff_forall₂.mp hvalues, (Option.some.inj hr).symm⟩
    · cases h
  · rintro ⟨list, k, word, key, operator, values, rfl, hwords, hkey, hword, hvalues, rfl⟩
    refine ⟨list, rfl, ?_⟩
    rw [hwords]
    refine Option.bind_eq_some_iff.mpr ⟨key, hkey, ?_⟩
    have hread : ((splitAt ',' list).mapM value?).bind
        (fun values => some (LabelRequirement.of key operator values)) =
          some (.of key operator values) :=
      Option.bind_eq_some_iff.mpr ⟨values, mapM_eq_some_iff_forall₂.mpr hvalues, rfl⟩
    simp only [listWords, List.mem_cons, List.not_mem_nil, or_false, Prod.mk.injEq] at hword
    rcases hword with ⟨rfl, rfl⟩ | ⟨rfl, rfl⟩ <;> exact hread

/-- What is read without parentheses is a comparison, around a sign, or a key. -/
theorem of_valueTerm? (h : valueTerm? text = some r) :
    (∃ sign left right operator key value, (sign, operator) ∈ signs ∧
      text = left ++ sign ++ right ∧ token? left = some key ∧ value? right = some value ∧
      r = .of key operator [value]) ∨
    ∃ key, token? text = some key ∧ r = .of key .present [] := by
  simp only [valueTerm?, Option.bind_eq_bind] at h
  have hcases : (∃ sign operator parts, (sign, operator) ∈ signs ∧ cut? sign text = some parts ∧
      ((token? parts.1).bind fun key => (value? parts.2).bind fun value =>
        some (LabelRequirement.of key operator [value])) = some r) ∨
      ((token? text).map fun key => .of key .present []) = some r := by
    split at h
    · next hcut => exact Or.inl ⟨_, _, _, by simp [signs], hcut, h⟩
    · split at h
      · next hcut => exact Or.inl ⟨_, _, _, by simp [signs], hcut, h⟩
      · split at h
        · next hcut => exact Or.inl ⟨_, _, _, by simp [signs], hcut, h⟩
        · exact Or.inr h
  rcases hcases with ⟨sign, operator, parts, hsign, hcut, h⟩ | h
  · simp only [Option.bind_eq_some_iff] at h
    obtain ⟨key, hkey, value, hvalue, hr⟩ := h
    exact Or.inl ⟨sign, _, _, operator, key, value, hsign, Text.eq_append_of_cut? hcut, hkey,
      hvalue, (Option.some.inj hr).symm⟩
  · obtain ⟨key, hkey, hr⟩ := Option.map_eq_some_iff.mp h
    exact Or.inr ⟨key, hkey, hr.symm⟩

/-- A comparison is read as the one that is meant. A sign that is tried before the one that is there
needs a character of which there are not enough. -/
theorem valueTerm?_compared (hsign : (sign, operator) ∈ signs) (hleft : Plain left)
    (hright : Plain right) (hkey : token? left = some key) (hvalue : value? right = some value) :
    valueTerm? (left ++ sign ++ right) = some (.of key operator [value]) := by
  have hnone {sign' : List Char} (c : Char) (hblank : isBlank c = false)
      (htoken : isTokenChar c = false) (h : sign.count c < sign'.count c) :
      cut? sign' (left ++ sign ++ right) = none := by
    refine Text.cut?_eq_none c ?_
    rw [List.count_append, List.count_append, hleft.count_eq_zero hblank htoken,
      hright.count_eq_zero hblank htoken]
    omega
  simp only [signs, List.mem_cons, List.not_mem_nil, or_false, Prod.mk.injEq] at hsign
  rcases hsign with ⟨rfl, rfl⟩ | ⟨rfl, rfl⟩ | ⟨rfl, rfl⟩
  · have hcut := Text.cut?_append (hleft.notMem (c := '!') rfl rfl) ['='] right
    simp only [valueTerm?, hcut, hkey, hvalue]
    rfl
  · have hne : cut? ['!', '='] _ = none := hnone '!' rfl rfl (by decide)
    have hcut := Text.cut?_append (hleft.notMem (c := '=') rfl rfl) ['='] right
    simp only [valueTerm?, hne, hcut, hkey, hvalue]
    rfl
  · have hne : cut? ['!', '='] _ = none := hnone '!' rfl rfl (by decide)
    have heq : cut? ['=', '='] _ = none := hnone '=' rfl rfl (by decide)
    have hcut := Text.cut?_append (hleft.notMem (c := '=') rfl rfl) [] right
    simp only [valueTerm?, hne, heq, hcut, hkey, hvalue]
    rfl

theorem valueTerm?_present (htext : Plain text) (hkey : token? text = some key) :
    valueTerm? text = some (.of key .present []) := by
  have hnone {sign : List Char} (h : 0 < sign.count '=') : cut? sign text = none :=
    Text.cut?_eq_none '=' (by rwa [htext.count_eq_zero rfl rfl])
  simp [valueTerm?, hnone, hkey]

end ReadTerm

/-! ## The texts that are read as terms -/

section Spells

variable {text outer : List Char} {t : Term} {r : LabelRequirement}

/-- **What is read as a requirement is a text of a term that makes it.** -/
theorem spells_of_term? (h : term? text = some r) : ∃ t, Spells text t ∧ r = t.requirement := by
  unfold term? at h
  split at h
  · next rest hmark =>
    obtain rfl := Text.after?_eq_some_iff.mp hmark
    obtain ⟨key, hkey, rfl⟩ := Option.map_eq_some_iff.mp h
    obtain ⟨hpadded, hkey⟩ := token?_eq_some_iff.mp hkey
    have hspells : Spells ([] ++ ['!'] ++ rest) ⟨key, .absent, []⟩ :=
      .absent Text.blanks_nil hpadded hkey
    exact ⟨_, hspells, rfl⟩
  · split at h
    · next head tail hopen =>
      obtain rfl := Text.eq_append_of_cut? hopen
      obtain ⟨list, k, word, key, operator, values, rfl, hwords, htoken, hword, hvalues, rfl⟩ :=
        setTerm?_eq_some_iff.mp h
      obtain ⟨-, -, b₀, b₁, b₂, hb₀, ⟨hne, hb₁⟩, hb₂, rfl⟩ := Text.words_pair_iff.mp hwords
      obtain ⟨⟨left, right, hleft, hright, rfl⟩, hkey⟩ := token?_eq_some_iff.mp htoken
      refine ⟨⟨key, operator, values⟩, ?_, rfl⟩
      have hspells := Spells.listed (Text.blanks_append.mpr ⟨hb₀, hleft⟩) hkey
        (List.append_ne_nil_of_right_ne_nil right hne) (Text.blanks_append.mpr ⟨hright, hb₁⟩) hword
        hb₂ (Text.splitAt_ne_nil ',' list)
        (hvalues.imp fun _ _ h => value?_eq_some_iff.mp h) Text.blanks_nil
      rw [Text.intercalate_splitAt] at hspells
      simpa only [List.append_assoc, List.append_nil] using hspells
    · rcases of_valueTerm? h with
        ⟨sign, left, right, operator, key, value, hsign, rfl, hkey, hvalue, rfl⟩ | ⟨key, hkey, rfl⟩
      · obtain ⟨hleft, hkey⟩ := token?_eq_some_iff.mp hkey
        obtain ⟨hright, hvalue⟩ := value?_eq_some_iff.mp hvalue
        exact ⟨_, .compared hsign hleft hkey hright hvalue, rfl⟩
      · obtain ⟨hpadded, hkey⟩ := token?_eq_some_iff.mp hkey
        exact ⟨_, .present hpadded hkey, rfl⟩

/-- A text of a term with more blanks around it is one too. -/
theorem Spells.padded (h : Spells text t) (houter : Padded outer text) : Spells outer t := by
  cases h with
  | present hpadded hkey => exact .present (houter.trans hpadded) hkey
  | absent hleft hpadded hkey =>
    obtain ⟨b, b', hb, hb', rfl⟩ := houter
    have hspells := Spells.absent (Text.blanks_append.mpr ⟨hb, hleft⟩)
      (hpadded.append_right hb') hkey
    simpa only [List.append_assoc] using hspells
  | compared hsign hleft hkey hright hvalue =>
    obtain ⟨b, b', hb, hb', rfl⟩ := houter
    have hspells := Spells.compared hsign (hleft.append_left hb) hkey
      (hright.append_right hb') hvalue
    simpa only [List.append_assoc] using hspells
  | listed hb₀ hkey hne hb₁ hword hb₂ htexts hvalues hb₃ =>
    obtain ⟨b, b', hb, hb', rfl⟩ := houter
    have hspells := Spells.listed (Text.blanks_append.mpr ⟨hb, hb₀⟩) hkey hne hb₁ hword hb₂ htexts
      hvalues (Text.blanks_append.mpr ⟨hb₃, hb'⟩)
    simpa only [List.append_assoc] using hspells

theorem plain_of_values {texts : List (List Char)} {values : List String}
    (h : List.Forall₂ (fun text value => Padded text value.toList ∧ IsRun value) texts values) :
    ∀ text ∈ texts, Plain text :=
  ((List.forall₂_and_left _ _).mp (h.imp fun _ _ h => ⟨plain_of_padded h.1 h.2.plain, h⟩)).1

/-- A text that begins with a key has no mark before it. -/
theorem after?_key {key : String} (hkey : IsKey key) (h : key.toList <+: text) :
    after? ['!'] text = none := by
  obtain ⟨rest, rfl⟩ := h
  refine Text.after?_eq_none_iff.mpr fun hmark => ?_
  obtain ⟨c, cs, hcs⟩ := List.exists_cons_of_ne_nil hkey.ne_nil
  rw [hcs, List.cons_append, List.cons_prefix_cons] at hmark
  have hc : '!' ∈ key.toList := by
    rw [hcs, hmark.1]
    exact List.mem_cons_self
  exact hkey.2.plain.notMem rfl rfl hc

theorem term?_present {key : String} (hkey : IsKey key) :
    term? key.toList = some (.of key .present []) := by
  have hmark := after?_key hkey (List.prefix_refl _)
  have hopen : cut? ['('] key.toList = none :=
    Text.cut?_eq_none '(' (by rw [hkey.2.plain.count_eq_zero rfl rfl]; decide)
  simp only [term?, hmark, hopen]
  exact valueTerm?_present hkey.2.plain (token?_eq_some_iff.mpr ⟨Text.padded_self _, hkey⟩)

theorem term?_absent {b : List Char} {key : String} (hb : Blanks b) (hkey : IsKey key) :
    term? ('!' :: (b ++ key.toList)) = some (.of key .absent []) := by
  have htoken : token? (b ++ key.toList) = some key :=
    token?_eq_some_iff.mpr ⟨(Text.padded_self _).append_left hb, hkey⟩
  have hmark : after? ['!'] ('!' :: (b ++ key.toList)) = some (b ++ key.toList) :=
    Text.after?_eq_some_iff.mpr rfl
  simp only [term?, hmark, htoken]
  rfl

theorem term?_compared {b b' sign : List Char} {operator : LabelOperator} {key value : String}
    (hsign : (sign, operator) ∈ signs) (hb : Blanks b) (hb' : Blanks b') (hkey : IsKey key)
    (hvalue : IsRun value) :
    term? (key.toList ++ b ++ sign ++ (b' ++ value.toList)) = some (.of key operator [value]) := by
  have hleft := (Text.padded_self key.toList).append_right hb
  have hright := (Text.padded_self value.toList).append_left hb'
  have hplain := plain_of_padded hleft hkey.2.plain
  have hplain' := plain_of_padded hright hvalue.plain
  have hnone : '(' ∉ sign := fun h => ((of_mem_signs hsign).2.2.2 '(' h).1 rfl
  have hmark : after? ['!'] (key.toList ++ b ++ sign ++ (b' ++ value.toList)) = none :=
    after?_key hkey ⟨b ++ sign ++ (b' ++ value.toList), by simp only [List.append_assoc]⟩
  have hopen : cut? ['('] (key.toList ++ b ++ sign ++ (b' ++ value.toList)) = none := by
    refine Text.cut?_eq_none '(' ?_
    rw [List.count_append, List.count_append, hplain.count_eq_zero rfl rfl,
      hplain'.count_eq_zero rfl rfl, List.count_eq_zero.mpr hnone]
    decide
  simp only [term?, hmark, hopen]
  exact valueTerm?_compared hsign hplain hplain' (token?_eq_some_iff.mpr ⟨hleft, hkey⟩)
    (value?_eq_some_iff.mpr ⟨hright, hvalue⟩)

theorem term?_listed {b₁ b₂ word : List Char} {operator : LabelOperator} {key : String}
    {texts : List (List Char)} {values : List String} (hkey : IsKey key) (hne : b₁ ≠ [])
    (hb₁ : Blanks b₁) (hword : (word, operator) ∈ listWords) (hb₂ : Blanks b₂)
    (htexts : texts ≠ []) (hvalues : List.Forall₂
      (fun text value => Padded text value.toList ∧ IsRun value) texts values) :
    term? (key.toList ++ b₁ ++ word ++ b₂ ++ ['('] ++ ([','].intercalate texts ++ [')'])) =
      some (.of key operator values) := by
  obtain ⟨-, hwordSolid, hwordPlain⟩ := of_mem_listWords hword
  have hplain : Plain (key.toList ++ b₁ ++ word ++ b₂) := by
    simp only [plain_append]
    exact ⟨⟨⟨hkey.2.plain, plain_of_blanks hb₁⟩, hwordPlain⟩, plain_of_blanks hb₂⟩
  have hmark : after? ['!'] (key.toList ++ b₁ ++ word ++ b₂ ++ ['('] ++
      ([','].intercalate texts ++ [')'])) = none :=
    after?_key hkey ⟨b₁ ++ word ++ b₂ ++ ['('] ++ ([','].intercalate texts ++ [')']),
      by simp only [List.append_assoc]⟩
  have hopen := Text.cut?_append (hplain.notMem (c := '(') rfl rfl) []
    ([','].intercalate texts ++ [')'])
  have hwords : words (key.toList ++ b₁ ++ word ++ b₂) = [key.toList, word] :=
    Text.words_pair_iff.mpr ⟨⟨hkey.ne_nil, hkey.2.solid⟩, hwordSolid, [], b₁, b₂, Text.blanks_nil,
      ⟨hne, hb₁⟩, hb₂, rfl⟩
  have hcommas : splitAt ',' ([','].intercalate texts) = texts :=
    Text.splitAt_intercalate htexts fun text htext =>
      (plain_of_values hvalues text htext).notMem rfl rfl
  simp only [term?, hmark, hopen]
  refine setTerm?_eq_some_iff.mpr ⟨_, _, word, key, operator, values, rfl, hwords,
    token?_eq_some_iff.mpr ⟨Text.padded_self _, hkey⟩, hword, ?_, rfl⟩
  rw [hcommas]
  exact hvalues.imp fun _ _ h => value?_eq_some_iff.mpr h

/-- **A text of a term, without the blanks around it, is read as the requirement of the term.** -/
theorem Spells.term?_trim (h : Spells text t) : term? (trim text) = some t.requirement := by
  cases h with
  | present hpadded hkey =>
    rw [Text.trim_eq_of_padded hpadded hkey.2.solid]
    exact term?_present hkey
  | absent hleft hpadded hkey =>
    obtain ⟨b, hb, hend⟩ := Text.trimEnd_of_padded hpadded hkey.2.solid
    have hsolid : Solid ['!'] := List.forall_mem_singleton.mpr rfl
    rw [Text.trim_append_solid hsolid (List.cons_ne_nil _ _),
      Text.trimStart_eq_nil_iff.mpr hleft, hend]
    exact term?_absent hb hkey
  | compared hsign hleft hkey hright hvalue =>
    obtain ⟨b, hb, hstart⟩ := Text.trimStart_of_padded hleft hkey.2.solid
    obtain ⟨b', hb', hend⟩ := Text.trimEnd_of_padded hright hvalue.solid
    obtain ⟨-, hne, hsolid, -⟩ := of_mem_signs hsign
    rw [Text.trim_append_solid hsolid hne, hstart, hend]
    exact term?_compared hsign hb hb' hkey hvalue
  | @listed b₀ b₁ b₂ b₃ word operator key texts values hb₀ hkey hne hb₁ hword hb₂ htexts hvalues
      hb₃ =>
    have hsolid : Solid [')'] := List.forall_mem_singleton.mpr rfl
    have hend := Text.trimEnd_append_solid hsolid (List.cons_ne_nil _ _)
      (b₁ ++ word ++ b₂ ++ ['('] ++ [','].intercalate texts) b₃
    have htrim := Text.trim_append_solid hkey.2.solid hkey.ne_nil b₀
      (b₁ ++ word ++ b₂ ++ ['('] ++ [','].intercalate texts ++ [')'] ++ b₃)
    rw [hend, Text.trimStart_eq_nil_iff.mpr hb₀, Text.trimEnd_eq_nil_iff.mpr hb₃] at htrim
    have hterm := term?_listed hkey hne hb₁ hword hb₂ htexts hvalues
    simp only [List.append_assoc, List.append_nil, List.nil_append] at htrim hterm ⊢
    rw [htrim]
    exact hterm

/-- **A term is read exactly from its texts.** -/
theorem parseTerm_eq_ok_iff : parseTerm text = .ok r ↔ ∃ t, Spells text t ∧ t.requirement = r := by
  rw [parseTerm]
  constructor
  · intro h
    split at h
    · next hterm =>
      obtain ⟨t, hspells, rfl⟩ := spells_of_term? hterm
      exact ⟨t, hspells.padded (Text.padded_trim text), Except.ok.inj h⟩
    · cases h
  · rintro ⟨t, hspells, rfl⟩
    rw [hspells.term?_trim]

/-- A text of a term is not blank. -/
theorem Spells.not_blanks (h : Spells text t) : ¬ Blanks text := fun hblanks => by
  have hterm := h.term?_trim
  rw [Text.trim_eq_nil_iff.mpr hblanks] at hterm
  cases hterm

end Spells

end ControlPlane.LabelSelector
