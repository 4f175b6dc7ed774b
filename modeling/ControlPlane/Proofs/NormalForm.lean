import ControlPlane.Proofs.Timestamps
import ControlPlane.Schema.Meta
import ControlPlane.SortedMap.Lemmas

/-!
# Normal forms

Decoding a value by its shape gives its normal form, and a normal form is its own normal form. So
is the empty value of a shape. A record in normal form has its members in the order of their names,
and each of them is the normal form of the member that was there.

* `Shape.isRegular`: the members of every record in the shape have ascending names, and an empty
  record is not missing a member that must be there.
* `Shape.decode?_empty`, `Shape.decode?_decode?`: empty values and normal forms are normal forms.
* `Shape.get?_decodeFields?`: the members of a record in normal form.
-/

namespace ControlPlane

/-! ## Base64 -/

namespace Base64

theorem toNat_lt_of_sextet? {c : Char} {n : Nat} (h : sextet? c = some n) : c.toNat < 128 := by
  refine Nat.lt_of_not_le fun hge => ?_
  have hgt (d : Char) (hd : d.toNat < 128) : ¬ c ≤ d := by
    intro hle
    have hle' : c.toNat ≤ d.toNat := hle
    omega
  have hne (d : Char) (hd : d.toNat < 128) : c ≠ d := by
    rintro rfl
    omega
  unfold sextet? at h
  rw [if_neg fun hc => hgt 'Z' (by decide) hc.2, if_neg fun hc => hgt 'z' (by decide) hc.2,
    if_neg fun hc => hgt '9' (by decide) hc.2, if_neg (hne '+' (by decide)),
    if_neg (hne '/' (by decide))] at h
  cases h

/-- A character is the letter of its six bits. -/
theorem letter_of_sextet? {c : Char} {n : Nat} (h : sextet? c = some n) :
    n < 64 ∧ letter n = c := by
  have hascii : ∀ k < 128, (sextet? (Char.ofNat k)).all (fun n =>
      decide (n < 64 ∧ letter n = Char.ofNat k)) = true := by decide +kernel
  have hc := hascii c.toNat (toNat_lt_of_sextet? h)
  rw [Char.ofNat_toNat, h] at hc
  simpa using hc

/-- **A text that is read is the one that writing gives.** -/
theorem encode_of_decode? {cs : List Char} {bytes : List Nat} (h : decode? cs = some bytes) :
    encode bytes = cs := by
  fun_induction decode? cs generalizing bytes with
  | case1 =>
    obtain rfl := Option.some.inj h
    rfl
  | case2 a b =>
    simp only [Option.bind_eq_bind, Option.bind_eq_some_iff] at h
    obtain ⟨x, hx, y, hy, h⟩ := h
    obtain ⟨hx64, rfl⟩ := letter_of_sextet? hx
    obtain ⟨hy64, rfl⟩ := letter_of_sextet? hy
    split at h
    · obtain rfl := Option.some.inj h
      rw [encode, show (x * 4 + y / 16) / 4 = x by omega,
        show (x * 4 + y / 16) % 4 * 16 = y by omega]
    · cases h
  | case3 a b c =>
    simp only [Option.bind_eq_bind, Option.bind_eq_some_iff] at h
    obtain ⟨x, hx, y, hy, z, hz, h⟩ := h
    obtain ⟨hx64, rfl⟩ := letter_of_sextet? hx
    obtain ⟨hy64, rfl⟩ := letter_of_sextet? hy
    obtain ⟨hz64, rfl⟩ := letter_of_sextet? hz
    split at h
    · obtain rfl := Option.some.inj h
      rw [encode, show (x * 4 + y / 16) / 4 = x by omega,
        show (x * 4 + y / 16) % 4 * 16 + (y % 16 * 16 + z / 4) / 16 = y by omega,
        show (y % 16 * 16 + z / 4) % 16 * 4 = z by omega]
    · cases h
  | case4 a b c d rest _ _ ih =>
    simp only [Option.bind_eq_bind, Option.bind_eq_some_iff] at h
    obtain ⟨x, hx, y, hy, z, hz, w, hw, bytes', hbytes', h⟩ := h
    obtain ⟨hx64, rfl⟩ := letter_of_sextet? hx
    obtain ⟨hy64, rfl⟩ := letter_of_sextet? hy
    obtain ⟨hz64, rfl⟩ := letter_of_sextet? hz
    obtain ⟨hw64, rfl⟩ := letter_of_sextet? hw
    obtain rfl := Option.some.inj h
    rw [encode, ih hbytes', show (x * 4 + y / 16) / 4 = x by omega,
      show (x * 4 + y / 16) % 4 * 16 + (y % 16 * 16 + z / 4) / 16 = y by omega,
      show (y % 16 * 16 + z / 4) % 16 * 4 + (z % 4 * 64 + w) / 64 = z by omega,
      show (z % 4 * 64 + w) % 64 = w by omega]
  | case5 => cases h

end Base64

/-! ## Shapes -/

namespace Shape

mutual

/-- The members of every record in the shape have ascending names, and a member that must be there
is there in an empty record. -/
def isRegular : Shape → Bool
  | list item => item.isRegular
  | map value => value.isRegular
  | record fields => areRegular fields
  | _ => true

/-- The members have ascending names and regular shapes. -/
def areRegular : List (Field × Shape) → Bool
  | [] => true
  | (field, shape) :: fields =>
    shape.isRegular && (field.presence != .mandatory || !(empty shape).isNull) &&
      (fields.all fun e => compare field.name e.1.name == .lt) && areRegular fields

end

/-- What the members of a record ask of the first of them. -/
theorem areRegular_cons {field : Field} {shape : Shape} {fields : List (Field × Shape)}
    (h : areRegular ((field, shape) :: fields) = true) :
    shape.isRegular = true ∧ (field.presence = .mandatory → (empty shape).isNull = false) ∧
      (∀ e ∈ fields, compare field.name e.1.name = .lt) ∧ areRegular fields = true := by
  simp only [areRegular, Bool.and_eq_true, List.all_eq_true, beq_iff_eq, Bool.or_eq_true,
    bne_iff_ne, Bool.not_eq_true'] at h
  obtain ⟨⟨⟨hshape, hmandatory⟩, hnames⟩, hfields⟩ := h
  exact ⟨hshape, fun hpresence => hmandatory.resolve_left (absurd hpresence), hnames, hfields⟩

/-- The members have ascending names. -/
def Ascend (fields : List (Field × Shape)) : Prop :=
  fields.Pairwise fun e f => compare e.1.name f.1.name = .lt

theorem ascend_of_areRegular {fields : List (Field × Shape)} (h : areRegular fields = true) :
    Ascend fields := by
  induction fields with
  | nil => exact .nil
  | cons f fields ih =>
    obtain ⟨-, -, hnames, hregular⟩ := areRegular_cons h
    exact .cons hnames (ih hregular)

theorem isRegular_objectMeta : Schema.objectMeta.isRegular = true := by decide +kernel

theorem ascend_objectMeta : Ascend Schema.objectMeta.fields :=
  ascend_of_areRegular isRegular_objectMeta

/-! ### Members by name -/

/-- The value of a member; none if it is missing or `null`. -/
def given? (members : Json.Members) (name : String) : Option Json :=
  (SortedMap.get? members name).filter (!·.isNull)

theorem given?_cons_self {name : String} {value : Json} (members : Json.Members)
    (h : value.isNull = false) : given? ((name, value) :: members) name = some value := by
  simp [given?, SortedMap.get?_cons, h]

theorem given?_cons_of_ne {name name' : String} (value : Json) (members : Json.Members)
    (h : name ≠ name') : given? ((name, value) :: members) name' = given? members name' := by
  rw [given?, SortedMap.get?_cons, if_neg h]
  rfl

section Fields

variable {field : Field} {shape : Shape} {fields : List (Field × Shape)}
  {members out : Json.Members}

/-- What decoding makes of the first member of a record: it decodes what is given, or leaves the
member out, or falls back on the empty value. -/
inductive Decoded (field : Field) (shape : Shape) (members rest : Json.Members) :
    Json.Members → Prop
  | given {value normal : Json} : given? members field.name = some value →
      decode? shape value = some normal →
      Decoded field shape members rest ((field.name, normal) :: rest)
  | missing : given? members field.name = none → field.presence = .optional →
      Decoded field shape members rest rest
  | defaulted : given? members field.name = none → field.presence = .defaulted →
      Decoded field shape members rest ((field.name, empty shape) :: rest)

theorem decodeFields?_cons_iff :
    decodeFields? ((field, shape) :: fields) members = some out ↔
      ∃ rest, decodeFields? fields members = some rest ∧ Decoded field shape members rest out := by
  constructor
  · intro h
    rw [decodeFields?] at h
    split at h
    · next value hvalue =>
      obtain ⟨normal, hnormal, h⟩ := Option.bind_eq_some_iff.mp h
      obtain ⟨rest, hrest, rfl⟩ := Option.map_eq_some_iff.mp h
      exact ⟨rest, hrest, .given hvalue hnormal⟩
    · next hvalue =>
      split at h
      · next hpresence => exact ⟨out, h, .missing hvalue hpresence⟩
      · next hpresence =>
        obtain ⟨rest, hrest, rfl⟩ := Option.map_eq_some_iff.mp h
        exact ⟨rest, hrest, .defaulted hvalue hpresence⟩
      · cases h
  · rintro ⟨rest, hrest, hdecoded⟩
    rw [decodeFields?]
    cases hdecoded with
    | given hvalue hnormal =>
      rw [given?] at hvalue
      simp only [hvalue, hnormal, hrest, Option.bind_some, Option.map_some]
    | missing hvalue hpresence =>
      rw [given?] at hvalue
      simp only [hvalue, hpresence, hrest]
    | defaulted hvalue hpresence =>
      rw [given?] at hvalue
      simp only [hvalue, hpresence, hrest, Option.map_some]

/-- A record is decoded by what the members decode as that are given. -/
theorem decodeFields?_congr {members' : Json.Members}
    (h : ∀ f ∈ fields, (given? members' f.1.name).map (decode? f.2) =
      (given? members f.1.name).map (decode? f.2)) :
    decodeFields? fields members' = decodeFields? fields members := by
  induction fields with
  | nil => rfl
  | cons f fields ih =>
    obtain ⟨field, shape⟩ := f
    have hrest := ih fun f hf => h f (List.mem_cons_of_mem _ hf)
    have hfirst := h (field, shape) List.mem_cons_self
    rw [given?, given?] at hfirst
    rw [decodeFields?, decodeFields?, hrest]
    cases hvalue : (SortedMap.get? members field.name).filter (!·.isNull) with
    | none =>
      rw [hvalue, Option.map_none, Option.map_eq_none_iff] at hfirst
      rw [hfirst]
    | some value =>
      rw [hvalue, Option.map_some, Option.map_eq_some_iff] at hfirst
      obtain ⟨value', hvalue', hdecode⟩ := hfirst
      rw [hvalue']
      exact congrArg (Option.bind · _) hdecode

/-- Members that are given alike are in the normal forms alike. -/
theorem get?_decodeFields?_congr {members' out' : Json.Members} {name : String}
    (h : decodeFields? fields members = some out) (h' : decodeFields? fields members' = some out')
    (hgiven : given? members' name = given? members name) :
    SortedMap.get? out' name = SortedMap.get? out name := by
  induction fields generalizing out out' with
  | nil =>
    obtain rfl := Option.some.inj h
    obtain rfl := Option.some.inj h'
    rfl
  | cons f fields ih =>
    obtain ⟨field, shape⟩ := f
    obtain ⟨rest, hrest, hdecoded⟩ := decodeFields?_cons_iff.mp h
    obtain ⟨rest', hrest', hdecoded'⟩ := decodeFields?_cons_iff.mp h'
    have hlater := ih hrest hrest'
    by_cases hname : field.name = name
    · subst hname
      cases hdecoded with
      | given hvalue hnormal =>
        cases hdecoded' with
        | given hvalue' hnormal' =>
          obtain rfl := Option.some.inj ((hvalue.symm.trans hgiven.symm).trans hvalue')
          obtain rfl := Option.some.inj (hnormal.symm.trans hnormal')
          simp only [SortedMap.get?_cons, if_true]
        | missing hnone _ => cases (hvalue.symm.trans hgiven.symm).trans hnone
        | defaulted hnone _ => cases (hvalue.symm.trans hgiven.symm).trans hnone
      | missing hnone hpresence =>
        cases hdecoded' with
        | given hvalue' _ => cases (hnone.symm.trans hgiven.symm).trans hvalue'
        | missing _ _ => exact hlater
        | defaulted _ hpresence' => cases hpresence.symm.trans hpresence'
      | defaulted hnone hpresence =>
        cases hdecoded' with
        | given hvalue' _ => cases (hnone.symm.trans hgiven.symm).trans hvalue'
        | missing _ hpresence' => cases hpresence.symm.trans hpresence'
        | defaulted _ _ => simp only [SortedMap.get?_cons, if_true]
    · have hskip {ms rest out : Json.Members} (hdecoded : Decoded field shape ms rest out) :
          SortedMap.get? out name = SortedMap.get? rest name := by
        cases hdecoded with
        | missing _ _ => rfl
        | _ => rw [SortedMap.get?_cons, if_neg hname]
      rw [hskip hdecoded, hskip hdecoded', hlater]

/-- Whatever is in a record in normal form has the name of one of its members. -/
theorem mem_of_decodeFields? (h : decodeFields? fields members = some out) {e : String × Json}
    (he : e ∈ out) : ∃ f ∈ fields, f.1.name = e.1 := by
  induction fields generalizing out with
  | nil =>
    obtain rfl := Option.some.inj h
    cases he
  | cons f fields ih =>
    obtain ⟨field, shape⟩ := f
    obtain ⟨rest, hrest, hdecoded⟩ := decodeFields?_cons_iff.mp h
    have hin (he : e ∈ rest) : ∃ f ∈ (field, shape) :: fields, f.1.name = e.1 := by
      obtain ⟨f, hf, hname⟩ := ih hrest he
      exact ⟨f, List.mem_cons_of_mem _ hf, hname⟩
    have hfirst (normal : Json) (he : e = (field.name, normal)) :
        ∃ f ∈ (field, shape) :: fields, f.1.name = e.1 :=
      ⟨_, List.mem_cons_self, he ▸ rfl⟩
    cases hdecoded with
    | given _ _ => exact (List.mem_cons.mp he).elim (hfirst _) hin
    | missing _ _ => exact hin he
    | defaulted _ _ => exact (List.mem_cons.mp he).elim (hfirst _) hin

theorem ne_of_compare_lt {a b : String} (h : compare a b = .lt) : a ≠ b := by
  rintro rfl
  have hself : compare a a = .eq := Std.ReflCmp.compare_self
  rw [hself] at h
  cases h

/-- A record in normal form has nothing under a name that is none of its members'. -/
theorem get?_decodeFields?_eq_none (h : decodeFields? fields members = some out) {name : String}
    (hname : ∀ f ∈ fields, f.1.name ≠ name) : SortedMap.get? out name = none := by
  cases hget : SortedMap.get? out name with
  | none => rfl
  | some value =>
    obtain ⟨f, hf, heq⟩ := mem_of_decodeFields? h (SortedMap.mem_of_get? hget)
    exact absurd heq (hname f hf)

/-- **The members of a record in normal form ascend.** -/
theorem sorted_decodeFields? (hnames : Ascend fields)
    (h : decodeFields? fields members = some out) : SortedMap.Sorted out := by
  induction fields generalizing out with
  | nil =>
    obtain rfl := Option.some.inj h
    exact SortedMap.sorted_nil
  | cons f fields ih =>
    obtain ⟨field, shape⟩ := f
    obtain ⟨hnames, hlater⟩ := List.pairwise_cons.mp hnames
    obtain ⟨rest, hrest, hdecoded⟩ := decodeFields?_cons_iff.mp h
    have hsorted := ih hlater hrest
    have hlt : ∀ e ∈ rest, compare field.name e.1 = .lt := by
      intro e he
      obtain ⟨f, hf, hname⟩ := mem_of_decodeFields? hrest he
      exact hname ▸ hnames f hf
    cases hdecoded with
    | given _ _ => exact SortedMap.sorted_cons.mpr ⟨hlt, hsorted⟩
    | missing _ _ => exact hsorted
    | defaulted _ _ => exact SortedMap.sorted_cons.mpr ⟨hlt, hsorted⟩

/-- **A member that may be missing is in the normal form if it is given, and is decoded then.** -/
theorem get?_decodeFields? (hnames : Ascend fields)
    (h : decodeFields? fields members = some out) {name : String}
    (hmem : (⟨name, .optional⟩, shape) ∈ fields) :
    SortedMap.get? out name = (given? members name).bind (decode? shape) := by
  induction fields generalizing out with
  | nil => cases hmem
  | cons f fields ih =>
    obtain ⟨field, shape'⟩ := f
    obtain ⟨hnames, hlater⟩ := List.pairwise_cons.mp hnames
    obtain ⟨rest, hrest, hdecoded⟩ := decodeFields?_cons_iff.mp h
    rcases List.mem_cons.mp hmem with heq | hmem
    · obtain ⟨rfl, rfl⟩ := Prod.mk.inj heq
      cases hdecoded with
      | given hvalue hnormal =>
        rw [SortedMap.get?_cons, if_pos rfl, hvalue, Option.bind_some, hnormal]
      | missing hvalue _ =>
        rw [get?_decodeFields?_eq_none hrest fun f hf => (ne_of_compare_lt (hnames f hf)).symm,
          hvalue, Option.bind_none]
      | defaulted _ hpresence => cases hpresence
    · have hne : field.name ≠ name := ne_of_compare_lt (hnames _ hmem)
      have hget := ih hlater hrest hmem
      cases hdecoded with
      | given _ _ => rw [SortedMap.get?_cons, if_neg hne, hget]
      | missing _ _ => exact hget
      | defaulted _ _ => rw [SortedMap.get?_cons, if_neg hne, hget]

/-- A member that is given is decoded, and its normal form is in that of the record. -/
theorem decode?_given? (hnames : Ascend fields)
    (h : decodeFields? fields members = some out) {f : Field × Shape} (hmem : f ∈ fields)
    {value : Json} (hvalue : given? members f.1.name = some value) :
    ∃ normal, decode? f.2 value = some normal ∧ SortedMap.get? out f.1.name = some normal := by
  induction fields generalizing out with
  | nil => cases hmem
  | cons f' fields ih =>
    obtain ⟨field, shape'⟩ := f'
    obtain ⟨hnames, hlater⟩ := List.pairwise_cons.mp hnames
    obtain ⟨rest, hrest, hdecoded⟩ := decodeFields?_cons_iff.mp h
    rcases List.mem_cons.mp hmem with rfl | hmem
    · cases hdecoded with
      | given hvalue' hnormal =>
        obtain rfl := Option.some.inj (hvalue'.symm.trans hvalue)
        exact ⟨_, hnormal, SortedMap.get?_cons .. |>.trans (if_pos rfl)⟩
      | missing hnone _ => cases hnone.symm.trans hvalue
      | defaulted hnone _ => cases hnone.symm.trans hvalue
    · obtain ⟨normal, hnormal, hget⟩ := ih hlater hrest hmem
      have hne : field.name ≠ f.1.name := ne_of_compare_lt (hnames _ hmem)
      refine ⟨normal, hnormal, ?_⟩
      cases hdecoded with
      | given _ _ => rw [SortedMap.get?_cons, if_neg hne, hget]
      | missing _ _ => exact hget
      | defaulted _ _ => rw [SortedMap.get?_cons, if_neg hne, hget]

end Fields

/-! ### Normal forms are their own -/

/-- Only `null` has the normal form `null`. -/
theorem isNull_decode? {shape : Shape} {value normal : Json} (h : decode? shape value = some normal)
    (hvalue : value.isNull = false) : normal.isNull = false := by
  unfold decode? at h
  split at h
  case h_1 | h_2 | h_3 | h_8 | h_10 =>
    obtain rfl := Option.some.inj h
    rfl
  case h_4 | h_5 | h_9 =>
    split at h
    · obtain rfl := Option.some.inj h
      rfl
    · cases h
  case h_6 | h_7 | h_11 | h_13 | h_14 | h_15 =>
    obtain ⟨_, -, rfl⟩ := Option.map_eq_some_iff.mp h
    rfl
  case h_12 =>
    obtain rfl := Option.some.inj h
    exact hvalue
  case h_16 => cases h

theorem decodeTime?_seconds {t : Timestamp} (h : t.Valid) :
    decodeTime? Timestamp.seconds t.seconds = some (.str t.seconds) := by
  rw [decodeTime?, h.parse?_seconds]
  rfl

theorem decodeTime?_microseconds {t : Timestamp} (h : t.Valid) :
    decodeTime? Timestamp.microseconds t.microseconds = some (.str t.microseconds) := by
  rw [decodeTime?, h.parse?_microseconds]
  rfl

theorem valid_epoch : Timestamp.epoch.Valid := by
  constructor <;> decide

theorem mapM_fixed {α : Type} {f : α → Option α} {xs ys : List α}
    (hf : ∀ x y, f x = some y → f y = some y) (h : xs.mapM f = some ys) : ys.mapM f = some ys := by
  induction xs generalizing ys with
  | nil =>
    obtain rfl := Option.some.inj h
    rfl
  | cons x xs ih =>
    simp only [List.mapM_cons, Option.bind_eq_bind, Option.bind_eq_some_iff] at h
    obtain ⟨y, hy, ys', hys', h⟩ := h
    obtain rfl := Option.some.inj h
    simp only [List.mapM_cons, hf x y hy, ih hys', Option.bind_eq_bind, Option.bind_some]
    rfl

mutual

/-- **The empty value of a shape is in normal form.** -/
theorem decode?_empty : (shape : Shape) → shape.isRegular = true →
    decode? shape (empty shape) = some (empty shape)
  | .string, _ => rfl
  | .bool, _ => rfl
  | .int32, _ => rfl
  | .int64, _ => rfl
  | .time, _ => decodeTime?_seconds valid_epoch
  | .microTime, _ => decodeTime?_microseconds valid_epoch
  | .quantity, _ => rfl
  | .intOrString, _ => rfl
  | .base64, _ => rfl
  | .any, _ => rfl
  | .list _, _ => rfl
  | .map _, _ => rfl
  | .record fields, h => by
    rw [empty, decode?, decodeFields?_emptyMembers fields h]
    rfl

theorem decodeFields?_emptyMembers : (fields : List (Field × Shape)) → areRegular fields = true →
    decodeFields? fields (emptyMembers fields) = some (emptyMembers fields)
  | [], _ => rfl
  | (field, shape) :: fields, h => by
    obtain ⟨hshape, hmandatory, hnames, hregular⟩ := areRegular_cons h
    have hrest := decodeFields?_emptyMembers fields hregular
    have hempty := decode?_empty shape hshape
    have hnone : SortedMap.get? (emptyMembers fields) field.name = none :=
      get?_decodeFields?_eq_none hrest fun f hf => (ne_of_compare_lt (hnames f hf)).symm
    rw [emptyMembers]
    by_cases hpresence : field.presence = .optional
    · rw [if_pos hpresence]
      exact decodeFields?_cons_iff.mpr ⟨_, hrest, .missing (by rw [given?, hnone]; rfl) hpresence⟩
    · rw [if_neg hpresence]
      have hlater : decodeFields? fields ((field.name, empty shape) :: emptyMembers fields) =
          some (emptyMembers fields) := by
        rw [← hrest]
        exact decodeFields?_congr fun f hf =>
          congrArg _ (given?_cons_of_ne _ _ (ne_of_compare_lt (hnames f hf)))
      refine decodeFields?_cons_iff.mpr ⟨_, hlater, ?_⟩
      cases hnull : (empty shape).isNull with
      | false => exact .given (given?_cons_self _ hnull) hempty
      | true =>
        have hgiven : given? ((field.name, empty shape) :: emptyMembers fields) field.name = none :=
          by simp [given?, SortedMap.get?_cons, hnull]
        refine .defaulted hgiven ?_
        cases hp : field.presence with
        | optional => exact absurd hp hpresence
        | defaulted => rfl
        | mandatory =>
          rw [hmandatory hp] at hnull
          cases hnull

end

/-- The shape is none of a list, a map or a record. -/
def isScalar : Shape → Bool
  | list _ | map _ | record _ => false
  | _ => true

theorem decode?_decode?_scalar {shape : Shape} (hscalar : shape.isScalar = true)
    {value normal : Json} (h : decode? shape value = some normal) :
    decode? shape normal = some normal := by
  unfold decode? at h
  split at h
  case h_1 | h_2 | h_3 | h_8 | h_10 | h_12 =>
    obtain rfl := Option.some.inj h
    rfl
  case h_4 | h_5 | h_9 =>
    split at h
    · next hfits =>
      obtain rfl := Option.some.inj h
      exact if_pos hfits
    · cases h
  case h_6 =>
    obtain ⟨t, ht, rfl⟩ := Option.map_eq_some_iff.mp h
    exact decodeTime?_seconds (Timestamp.valid_of_parse? ht)
  case h_7 =>
    obtain ⟨t, ht, rfl⟩ := Option.map_eq_some_iff.mp h
    exact decodeTime?_microseconds (Timestamp.valid_of_parse? ht)
  case h_11 =>
    obtain ⟨bytes, hbytes, rfl⟩ := Option.map_eq_some_iff.mp h
    rw [Base64.encode_of_decode? hbytes, String.ofList_toList, decode?, hbytes, Option.map_some,
      Base64.encode_of_decode? hbytes, String.ofList_toList]
  case h_13 | h_14 | h_15 => cases hscalar
  case h_16 => cases h

mutual

/-- **A normal form is its own normal form.** -/
theorem decode?_decode? : (shape : Shape) → shape.isRegular = true → ∀ (value normal : Json),
    decode? shape value = some normal → decode? shape normal = some normal
  | .list item, hregular, value, normal, h => by
    cases value with
    | arr items =>
      obtain ⟨normals, hnormals, rfl⟩ := Option.map_eq_some_iff.mp h
      rw [decode?, mapM_fixed (fun x y hx => decode?_decode? item hregular x y hx) hnormals]
      rfl
    | _ => cases h
  | .map shape, hregular, value, normal, h => by
    cases value with
    | obj members =>
      obtain ⟨normals, hnormals, rfl⟩ := Option.map_eq_some_iff.mp h
      rw [decode?, mapM_fixed (fun x y hx => ?_) hnormals]
      · rfl
      · obtain ⟨n, hn, rfl⟩ := Option.map_eq_some_iff.mp hx
        rw [decode?_decode? shape hregular _ _ hn]
        rfl
    | _ => cases h
  | .record fields, hregular, value, normal, h => by
    cases value with
    | obj members =>
      obtain ⟨out, hout, rfl⟩ := Option.map_eq_some_iff.mp h
      rw [decode?, decodeFields?_decodeFields? fields hregular members out hout]
      rfl
    | _ => cases h
  | .string, _, _, _, h => decode?_decode?_scalar rfl h
  | .bool, _, _, _, h => decode?_decode?_scalar rfl h
  | .int32, _, _, _, h => decode?_decode?_scalar rfl h
  | .int64, _, _, _, h => decode?_decode?_scalar rfl h
  | .time, _, _, _, h => decode?_decode?_scalar rfl h
  | .microTime, _, _, _, h => decode?_decode?_scalar rfl h
  | .quantity, _, _, _, h => decode?_decode?_scalar rfl h
  | .intOrString, _, _, _, h => decode?_decode?_scalar rfl h
  | .base64, _, _, _, h => decode?_decode?_scalar rfl h
  | .any, _, _, _, h => decode?_decode?_scalar rfl h

theorem decodeFields?_decodeFields? : (fields : List (Field × Shape)) → areRegular fields = true →
    ∀ (members out : Json.Members), decodeFields? fields members = some out →
      decodeFields? fields out = some out
  | [], _, _, _, h => h
  | (field, shape) :: fields, hregular, members, out, h => by
    obtain ⟨hshape, -, hnames, hregular⟩ := areRegular_cons hregular
    obtain ⟨rest, hrest, hdecoded⟩ := decodeFields?_cons_iff.mp h
    have hagain := decodeFields?_decodeFields? fields hregular members rest hrest
    have hlater (value : Json) :
        decodeFields? fields ((field.name, value) :: rest) = some rest := by
      rw [← hagain]
      exact decodeFields?_congr fun f hf =>
        congrArg _ (given?_cons_of_ne _ _ (ne_of_compare_lt (hnames f hf)))
    cases hdecoded with
    | @given value normal hvalue hnormal =>
      have hnull : normal.isNull = false :=
        isNull_decode? hnormal (by simpa using (Option.filter_eq_some_iff.mp hvalue).2)
      exact decodeFields?_cons_iff.mpr ⟨rest, hlater normal,
        .given (given?_cons_self _ hnull) (decode?_decode? shape hshape value normal hnormal)⟩
    | missing _ hpresence =>
      have hnone : SortedMap.get? out field.name = none :=
        get?_decodeFields?_eq_none hrest fun f hf => (ne_of_compare_lt (hnames f hf)).symm
      exact decodeFields?_cons_iff.mpr
        ⟨out, hagain, .missing (by rw [given?, hnone]; rfl) hpresence⟩
    | defaulted _ hpresence =>
      refine decodeFields?_cons_iff.mpr ⟨rest, hlater _, ?_⟩
      cases hnull : (empty shape).isNull with
      | false => exact .given (given?_cons_self _ hnull) (decode?_empty shape hshape)
      | true =>
        have hgiven : given? ((field.name, empty shape) :: rest) field.name = none := by
          simp [given?, SortedMap.get?_cons, hnull]
        exact .defaulted hgiven hpresence

end

end Shape

end ControlPlane
