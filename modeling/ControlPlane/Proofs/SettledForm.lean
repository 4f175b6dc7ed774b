import ControlPlane.Proofs.Attempt
import ControlPlane.Proofs.NormalForm
import ControlPlane.Proofs.SettleAgain

/-!
# Normal forms of settled values

A value is settled and then decoded by its shape. If the value is settled again, against the lists
in its normal form, then what comes out has that normal form again. For most shapes the normal form
is the value itself, and the rest is settling again. What is left are times, which are not settled,
and records and lists of records, which are followed member by member and item by item. There the
items have no types, so they cannot be conditions.

* `Shape.wellFormed_decode?`: a normal form of a well-formed value is well formed.
* `Shape.isVerbatim`, `Shape.eq_of_decode?`: the shapes whose normal forms are the values.
* `Shape.decode?_settle_again`: the normal form of what was settled again.
-/

namespace ControlPlane

namespace Shape

/-! ## Lists of decoded items -/

/-- The values of a map that is decoded keep their keys. -/
theorem sorted_mapM {shape : Shape} {members out : Json.Members}
    (hmembers : SortedMap.Sorted members)
    (h : members.mapM (fun e => (decode? shape e.2).map fun v => (e.1, v)) = some out) :
    SortedMap.Sorted out := by
  induction members generalizing out with
  | nil =>
    obtain rfl := Option.some.inj h
    exact SortedMap.sorted_nil
  | cons e members ih =>
    obtain ⟨key, value⟩ := e
    simp only [List.mapM_cons, Option.bind_eq_bind, Option.bind_eq_some_iff] at h
    obtain ⟨y, hy, out', hout', h⟩ := h
    obtain rfl := Option.some.inj h
    obtain ⟨normal, -, rfl⟩ := Option.map_eq_some_iff.mp hy
    obtain ⟨hlt, hmembers⟩ := SortedMap.sorted_cons.mp hmembers
    refine SortedMap.sorted_cons.mpr ⟨fun e he => ?_, ih hmembers hout'⟩
    obtain ⟨e', he', heq⟩ := exists_of_mem_mapM hout' he
    obtain ⟨normal', -, rfl⟩ := Option.map_eq_some_iff.mp heq
    exact hlt e' he'

/-! ## Well-formed normal forms -/

/-- A shape that is none of a list, a map, a record, or any value, takes only scalars. -/
theorem isScalar_of_decode? {shape : Shape} (hscalar : shape.isScalar = true) (hany : shape ≠ .any)
    {value normal : Json} (h : decode? shape value = some normal) :
    value.IsScalar ∧ normal.IsScalar := by
  unfold decode? at h
  split at h
  case h_1 | h_2 | h_3 | h_8 | h_10 =>
    obtain rfl := Option.some.inj h
    exact ⟨trivial, trivial⟩
  case h_4 | h_5 | h_9 =>
    split at h
    · obtain rfl := Option.some.inj h
      exact ⟨trivial, trivial⟩
    · cases h
  case h_6 | h_7 | h_11 =>
    obtain ⟨_, -, rfl⟩ := Option.map_eq_some_iff.mp h
    exact ⟨trivial, trivial⟩
  case h_12 => exact absurd rfl hany
  case h_13 | h_14 | h_15 => cases hscalar
  case h_16 => cases h

theorem wellFormed_of_isScalar {json : Json} (h : json.IsScalar) : json.WellFormed := by
  cases json with
  | arr items => exact h.elim
  | obj members => exact h.elim
  | _ => exact trivial

mutual

theorem wellFormed_empty : (shape : Shape) → shape.isRegular = true → (empty shape).WellFormed
  | .record fields, h => by
    rw [empty]
    have hsorted :=
      sorted_decodeFields? (ascend_of_areRegular h) (decodeFields?_emptyMembers fields h)
    exact Json.wellFormed_obj.mpr ⟨hsorted, wellFormed_emptyMembers fields h⟩
  | .list _, _ => Json.wellFormed_arr.mpr (by simp)
  | .map _, _ => Json.WellFormedObject.nil
  | .string, _ => trivial
  | .bool, _ => trivial
  | .int32, _ => trivial
  | .int64, _ => trivial
  | .time, _ => trivial
  | .microTime, _ => trivial
  | .quantity, _ => trivial
  | .intOrString, _ => trivial
  | .base64, _ => trivial
  | .any, _ => trivial

theorem wellFormed_emptyMembers : (fields : List (Field × Shape)) → areRegular fields = true →
    ∀ e ∈ emptyMembers fields, e.2.WellFormed
  | [], _ => by simp [emptyMembers]
  | (field, shape) :: fields, h => by
    obtain ⟨hshape, -, -, hregular⟩ := areRegular_cons h
    have hrest := wellFormed_emptyMembers fields hregular
    rw [emptyMembers]
    split
    · exact hrest
    · intro e he
      rcases List.mem_cons.mp he with rfl | he
      · exact wellFormed_empty shape hshape
      · exact hrest e he

end

mutual

/-- **A normal form of a well-formed value is well formed.** -/
theorem wellFormed_decode? : (shape : Shape) → shape.isRegular = true → ∀ {value normal : Json},
    value.WellFormed → decode? shape value = some normal → normal.WellFormed
  | .list item, hregular, value, normal, hvalue, h => by
    cases value with
    | arr items =>
      obtain ⟨normals, hnormals, rfl⟩ := Option.map_eq_some_iff.mp h
      refine Json.wellFormed_arr.mpr fun normal hnormal => ?_
      obtain ⟨x, hx, hdecode⟩ := exists_of_mem_mapM hnormals hnormal
      exact wellFormed_decode? item hregular (Json.wellFormed_arr.mp hvalue x hx) hdecode
    | _ => cases h
  | .map shape, hregular, value, normal, hvalue, h => by
    cases value with
    | obj members =>
      obtain ⟨out, hout, rfl⟩ := Option.map_eq_some_iff.mp h
      refine Json.wellFormed_obj.mpr
        ⟨sorted_mapM (Json.WellFormedObject.sorted hvalue) hout, fun e he => ?_⟩
      obtain ⟨e', he', heq⟩ := exists_of_mem_mapM hout he
      obtain ⟨normal', hdecode, rfl⟩ := Option.map_eq_some_iff.mp heq
      exact wellFormed_decode? shape hregular ((Json.wellFormed_obj.mp hvalue).2 e' he') hdecode
    | _ => cases h
  | .record fields, hregular, value, normal, hvalue, h => by
    cases value with
    | obj members =>
      obtain ⟨out, hout, rfl⟩ := Option.map_eq_some_iff.mp h
      exact Json.wellFormed_obj.mpr ⟨sorted_decodeFields? (ascend_of_areRegular hregular) hout,
        wellFormed_decodeFields? fields hregular
          (fun key value => Json.WellFormedObject.wellFormed hvalue) hout⟩
    | _ => cases h
  | .any, _, value, normal, hvalue, h => by
    obtain rfl := Option.some.inj h
    exact hvalue
  | .string, _, _, _, _, h =>
    wellFormed_of_isScalar (isScalar_of_decode? rfl (by simp) h).2
  | .bool, _, _, _, _, h =>
    wellFormed_of_isScalar (isScalar_of_decode? rfl (by simp) h).2
  | .int32, _, _, _, _, h =>
    wellFormed_of_isScalar (isScalar_of_decode? rfl (by simp) h).2
  | .int64, _, _, _, _, h =>
    wellFormed_of_isScalar (isScalar_of_decode? rfl (by simp) h).2
  | .time, _, _, _, _, h =>
    wellFormed_of_isScalar (isScalar_of_decode? rfl (by simp) h).2
  | .microTime, _, _, _, _, h =>
    wellFormed_of_isScalar (isScalar_of_decode? rfl (by simp) h).2
  | .quantity, _, _, _, _, h =>
    wellFormed_of_isScalar (isScalar_of_decode? rfl (by simp) h).2
  | .intOrString, _, _, _, _, h =>
    wellFormed_of_isScalar (isScalar_of_decode? rfl (by simp) h).2
  | .base64, _, _, _, _, h =>
    wellFormed_of_isScalar (isScalar_of_decode? rfl (by simp) h).2

theorem wellFormed_decodeFields? : (fields : List (Field × Shape)) → areRegular fields = true →
    ∀ {members out : Json.Members},
      (∀ key value, SortedMap.get? members key = some value → value.WellFormed) →
      decodeFields? fields members = some out → ∀ e ∈ out, e.2.WellFormed
  | [], _, _, out, _, h => by
    obtain rfl := Option.some.inj h
    simp
  | (field, shape) :: fields, hregular, members, out, hmembers, h => by
    obtain ⟨hshape, -, -, hregular⟩ := areRegular_cons hregular
    obtain ⟨rest, hrest, hdecoded⟩ := decodeFields?_cons_iff.mp h
    have hlater := wellFormed_decodeFields? fields hregular hmembers hrest
    cases hdecoded with
    | given hvalue hnormal =>
      have hwell := wellFormed_decode? shape hshape
        (hmembers _ _ (Option.filter_eq_some_iff.mp hvalue).1) hnormal
      intro e he
      rcases List.mem_cons.mp he with rfl | he
      · exact hwell
      · exact hlater e he
    | missing _ _ => exact hlater
    | defaulted _ _ =>
      intro e he
      rcases List.mem_cons.mp he with rfl | he
      · exact wellFormed_empty shape hshape
      · exact hlater e he

end

/-! ## Verbatim shapes -/

/-- Every normal form of the shape is the value itself. -/
def isVerbatim : Shape → Bool
  | list item => item.isVerbatim
  | map value => value.isVerbatim
  | time | microTime | base64 | record _ => false
  | _ => true

theorem eq_of_mapM {α : Type} {f : α → Option α} {xs ys : List α} (h : xs.mapM f = some ys)
    (hf : ∀ x y, f x = some y → y = x) : ys = xs := by
  have hmap := mapM_eq_some_iff.mp h
  refine List.ext_getElem? fun i => ?_
  have hi := congrArg (·[i]?) hmap
  simp only [List.getElem?_map] at hi
  cases hx : xs[i]? with
  | none =>
    rw [hx, Option.map_none] at hi
    exact Option.map_eq_none_iff.mp hi.symm
  | some x =>
    rw [hx, Option.map_some] at hi
    obtain ⟨y, hy, hxy⟩ := Option.map_eq_some_iff.mp hi.symm
    rw [hy, hf x y hxy.symm]

theorem eq_of_decode?_scalar {shape : Shape} (hscalar : shape.isScalar = true)
    (hverbatim : shape.isVerbatim = true) {value normal : Json}
    (h : decode? shape value = some normal) : normal = value := by
  unfold decode? at h
  split at h
  case h_1 | h_2 | h_3 | h_8 | h_12 => exact (Option.some.inj h).symm
  case h_4 | h_5 | h_9 =>
    split at h
    · exact (Option.some.inj h).symm
    · cases h
  case h_6 | h_7 | h_10 | h_11 => cases hverbatim
  case h_13 | h_14 | h_15 => cases hscalar
  case h_16 => cases h

/-- **A value of a verbatim shape is its own normal form.** -/
theorem eq_of_decode? : (shape : Shape) → shape.isVerbatim = true → ∀ {value normal : Json},
    decode? shape value = some normal → normal = value
  | .list item, hverbatim, value, normal, h => by
    cases value with
    | arr items =>
      obtain ⟨normals, hnormals, rfl⟩ := Option.map_eq_some_iff.mp h
      rw [eq_of_mapM hnormals fun x y hxy => eq_of_decode? item hverbatim hxy]
    | _ => cases h
  | .map shape, hverbatim, value, normal, h => by
    cases value with
    | obj members =>
      obtain ⟨out, hout, rfl⟩ := Option.map_eq_some_iff.mp h
      rw [eq_of_mapM hout fun x y hxy => ?_]
      obtain ⟨normal', hdecode, rfl⟩ := Option.map_eq_some_iff.mp hxy
      rw [eq_of_decode? shape hverbatim hdecode]
    | _ => cases h
  | .any, hverbatim, _, _, h => eq_of_decode?_scalar rfl hverbatim h
  | .string, hverbatim, _, _, h => eq_of_decode?_scalar rfl hverbatim h
  | .quantity, hverbatim, _, _, h => eq_of_decode?_scalar rfl hverbatim h
  | .bool, hverbatim, _, _, h => eq_of_decode?_scalar rfl hverbatim h
  | .int32, hverbatim, _, _, h => eq_of_decode?_scalar rfl hverbatim h
  | .int64, hverbatim, _, _, h => eq_of_decode?_scalar rfl hverbatim h
  | .intOrString, hverbatim, _, _, h => eq_of_decode?_scalar rfl hverbatim h

/-! ## Settling again -/

/-- No normal form of the shape has a member that is named like the type of a condition. -/
def lacksType : Shape → Bool
  | any | map _ => false
  | record fields => fields.all fun f => f.1.name != "type"
  | _ => true

theorem member?_type_eq_none {shape : Shape} (hlacks : shape.lacksType = true) {value normal : Json}
    (h : decode? shape value = some normal) : normal.member? "type" = none := by
  cases shape with
  | any => cases hlacks
  | map shape => cases hlacks
  | list item =>
    cases value with
    | arr items =>
      obtain ⟨normals, -, rfl⟩ := Option.map_eq_some_iff.mp h
      rfl
    | _ => cases h
  | record fields =>
    cases value with
    | obj members =>
      obtain ⟨out, hout, rfl⟩ := Option.map_eq_some_iff.mp h
      refine get?_decodeFields?_eq_none hout fun f hf => ?_
      simpa using List.all_eq_true.mp hlacks f hf
    | _ => cases h
  | _ =>
    have hscalar := (isScalar_of_decode? (by rfl) (by simp) h).2
    cases normal with
    | obj members => exact hscalar.elim
    | _ => rfl

mutual

/-- What is not decoded verbatim is not settled: it is a scalar, or in a list whose items have no
types, or in a record. -/
def isPlain : Shape → Bool
  | list item => item.isVerbatim || item.lacksType && item.isPlain
  | map value => value.isVerbatim
  | record fields => arePlain fields
  | _ => true

/-- The shapes of the members are plain. -/
def arePlain : List (Field × Shape) → Bool
  | [] => true
  | (_, shape) :: fields => shape.isPlain && arePlain fields

end

open Patch Patch.Settling

/-- A value that was settled and is settled again, against the lists in its normal form, has that
normal form again. -/
def SettlesAgain (t₁ t₂ : Timestamp) (shape : Shape) : Prop :=
  ∀ (C : Settling) {value normal : Json}, value.WellFormed → (C.settle t₁ value).WellFormed →
    decode? shape (C.settle t₁ value) = some normal → Orderly C.pointers normal →
    decode? shape ((C.own normal).settle t₂ value) = some normal

variable {t₁ t₂ : Timestamp}

theorem settlesAgain_verbatim {shape : Shape} (hverbatim : shape.isVerbatim = true) :
    SettlesAgain t₁ t₂ shape := by
  intro C value normal hvalue hsettled h horderly
  obtain rfl := eq_of_decode? shape hverbatim h
  rw [settle_again t₁ t₂ value C hvalue hsettled horderly]
  exact h

/-- What is settled to a scalar was that scalar. -/
theorem settle_eq_of_isScalar (C : Settling) {now : Timestamp} {json : Json}
    (h : (C.settle now json).IsScalar) : json.IsScalar := by
  cases json with
  | obj members =>
    obtain ⟨members', heq, -⟩ := C.exists_settle_obj now members
    rw [heq] at h
    exact h
  | arr items =>
    rw [settle_arr] at h
    exact h
  | _ => exact trivial

theorem settlesAgain_scalar {shape : Shape} (hscalar : shape.isScalar = true)
    (hany : shape ≠ .any) : SettlesAgain t₁ t₂ shape := by
  intro C value normal _ _ h _
  have hvalue := settle_eq_of_isScalar C (isScalar_of_decode? hscalar hany h).1
  rw [settle_scalar _ _ hvalue] at h ⊢
  exact h

/-- Items whose normal forms have no types are no conditions that are told apart by them. -/
theorem eq_nil_of_lacksType {item : Shape} (hlacks : item.lacksType = true)
    {items normals : List Json} (h : items.mapM (decode? item) = some normals)
    (hnormals : Distinguished normals) : items = [] := by
  have hempty : normals = [] := by
    refine List.eq_nil_iff_forall_not_mem.mpr fun normal hnormal => ?_
    obtain ⟨x, -, hx⟩ := exists_of_mem_mapM h hnormal
    have hsome := hnormals.typed normal hnormal
    rw [member?_type_eq_none hlacks hx] at hsome
    cases hsome
  subst hempty
  simpa using mapM_eq_some_iff.mp h

theorem settlesAgain_list {item : Shape} (hlacks : item.lacksType = true)
    (ih : SettlesAgain t₁ t₂ item) : SettlesAgain t₁ t₂ (.list item) := by
  intro C value normal hvalue hsettled h horderly
  cases value with
  | arr items =>
    rw [settle_arr] at h hsettled
    obtain ⟨normals, hnormals, rfl⟩ := Option.map_eq_some_iff.mp h
    suffices hagain : (items.mapIdx ((C.own (.arr normals)).onItem t₂)).mapM (decode? item) =
        some normals by
      rw [settle_arr, decode?, hagain, Option.map_some]
    by_cases hnil : [] ∈ C.pointers
    · have hnone := eq_nil_of_lacksType hlacks hnormals
        (horderly.distinguished [] hnil _ (by rw [Json.at?]))
      obtain rfl := List.mapIdx_eq_nil_iff.mp hnone
      exact hnormals
    · have hown : [] ∉ (C.own (.arr normals)).pointers := by rwa [pointers_own]
      have hmap := mapM_eq_some_iff.mp hnormals
      refine mapM_eq_some_iff.mpr (List.ext_getElem? fun i => ?_)
      have hi := congrArg (·[i]?) hmap
      simp only [List.getElem?_map, List.getElem?_mapIdx] at hi ⊢
      cases hx : items[i]? with
      | none =>
        rw [hx] at hi
        exact hi
      | some x =>
        rw [hx, Option.map_some, Option.map_some, onItem_inside hnil] at hi
        obtain ⟨normal, hnormal, hdecode⟩ := Option.map_eq_some_iff.mp hi.symm
        rw [Option.map_some, Option.map_some, onItem_inside hown, own_inside hnormal, hnormal]
        refine congrArg some (ih (C.inside i) ?_ ?_ hdecode.symm (horderly.inside hnormal))
        · exact Json.wellFormed_arr.mp hvalue x (List.mem_of_getElem? hx)
        · rw [← onItem_inside hnil]
          refine Json.wellFormed_arr.mp hsettled _ (List.mem_of_getElem? (i := i) ?_)
          rw [List.getElem?_mapIdx, hx, Option.map_some]
  | obj members =>
    obtain ⟨members', heq, -⟩ := C.exists_settle_obj t₁ members
    rw [heq] at h
    cases h
  | _ => cases (congrArg (decode? _) (C.settle_scalar t₁ (by trivial))).symm.trans h

theorem given?_eq_some_iff {members : Json.Members} {name : String} {value : Json} :
    given? members name = some value ↔
      SortedMap.get? members name = some value ∧ value.isNull = false := by
  simp [given?, Option.filter_eq_some_iff]

theorem given?_eq_none_iff {members : Json.Members} {name : String} :
    given? members name = none ↔
      ∀ value, SortedMap.get? members name = some value → value.isNull = true := by
  rw [given?, Option.filter_eq_none_iff]
  simp

theorem settlesAgain_record {fields : List (Field × Shape)} (hregular : areRegular fields = true)
    (ih : ∀ f ∈ fields, SettlesAgain t₁ t₂ f.2) : SettlesAgain t₁ t₂ (.record fields) := by
  intro C value normal hvalue hsettled h horderly
  cases value with
  | obj members =>
    obtain ⟨settled, heq, -, hget⟩ := C.exists_settle_obj t₁ members
    rw [heq] at h hsettled
    obtain ⟨out, hout, rfl⟩ := Option.map_eq_some_iff.mp h
    obtain ⟨again, heq', -, hget'⟩ := (C.own (.obj out)).exists_settle_obj t₂ members
    rw [heq', ← h, decode?, decode?]
    refine congrArg (Option.map Json.obj) (decodeFields?_congr fun f hf => ?_)
    cases hgiven : given? settled f.1.name with
    | none =>
      rw [Option.map_none, Option.map_eq_none_iff, given?_eq_none_iff]
      rw [given?_eq_none_iff] at hgiven
      intro v hv
      rw [hget'] at hv
      obtain ⟨x, hx, rfl⟩ := Option.map_eq_some_iff.mp hv
      have hnull := hgiven ((C.under f.1.name).settle t₁ x) (by rw [hget, hx, Option.map_some])
      rw [isNull_settle] at hnull ⊢
      exact hnull
    | some v =>
      obtain ⟨normal, hnormal, hmember⟩ :=
        decode?_given? (ascend_of_areRegular hregular) hout hf hgiven
      obtain ⟨hv, hnull⟩ := given?_eq_some_iff.mp hgiven
      rw [hget] at hv
      obtain ⟨x, hx, rfl⟩ := Option.map_eq_some_iff.mp hv
      have hagain : SortedMap.get? again f.1.name =
          some (((C.under f.1.name).own normal).settle t₂ x) := by
        rw [hget', hx, Option.map_some, own_under hmember]
      have hdecode := ih f hf (C.under f.1.name) (Json.WellFormedObject.wellFormed hvalue hx)
        (Json.WellFormedObject.wellFormed hsettled (hget _ ▸ hv)) hnormal (horderly.under hmember)
      have hgivenAgain : given? again f.1.name =
          some (((C.under f.1.name).own normal).settle t₂ x) := by
        rw [isNull_settle] at hnull
        exact given?_eq_some_iff.mpr ⟨hagain, (isNull_settle ..).trans hnull⟩
      rw [hgivenAgain, Option.map_some, Option.map_some, hdecode, hnormal]
  | arr items =>
    rw [settle_arr] at h
    cases h
  | _ => cases (congrArg (decode? _) (C.settle_scalar t₁ (by trivial))).symm.trans h

mutual

/-- **What is settled again has the same normal form.** -/
theorem decode?_settle_again : (shape : Shape) → shape.isRegular = true → shape.isPlain = true →
    SettlesAgain t₁ t₂ shape
  | .list item, hregular, hplain => by
    by_cases hverbatim : item.isVerbatim = true
    · exact settlesAgain_verbatim hverbatim
    · rw [isPlain, Bool.or_eq_true, Bool.and_eq_true] at hplain
      obtain ⟨hlacks, hplain⟩ := hplain.resolve_left hverbatim
      exact settlesAgain_list hlacks (decode?_settle_again item hregular hplain)
  | .map shape, _, hplain => settlesAgain_verbatim hplain
  | .record fields, hregular, hplain =>
    settlesAgain_record hregular (decodeFields?_settle_again fields hregular hplain)
  | .any, _, _ => settlesAgain_verbatim rfl
  | .string, _, _ => settlesAgain_scalar rfl (by simp)
  | .bool, _, _ => settlesAgain_scalar rfl (by simp)
  | .int32, _, _ => settlesAgain_scalar rfl (by simp)
  | .int64, _, _ => settlesAgain_scalar rfl (by simp)
  | .time, _, _ => settlesAgain_scalar rfl (by simp)
  | .microTime, _, _ => settlesAgain_scalar rfl (by simp)
  | .quantity, _, _ => settlesAgain_scalar rfl (by simp)
  | .intOrString, _, _ => settlesAgain_scalar rfl (by simp)
  | .base64, _, _ => settlesAgain_scalar rfl (by simp)

theorem decodeFields?_settle_again : (fields : List (Field × Shape)) → areRegular fields = true →
    arePlain fields = true → ∀ f ∈ fields, SettlesAgain t₁ t₂ f.2
  | [], _, _ => by simp
  | (field, shape) :: fields, hregular, hplain => by
    obtain ⟨hshape, -, -, hregular⟩ := areRegular_cons hregular
    rw [arePlain, Bool.and_eq_true] at hplain
    intro f hf
    rcases List.mem_cons.mp hf with rfl | hf
    · exact decode?_settle_again shape hshape hplain.1
    · exact decodeFields?_settle_again fields hregular hplain.2 f hf

end

/-! ## Objects -/

/-- An object of the shape is its own normal form. -/
def keepsObjects : Shape → Bool
  | map value => value.isVerbatim
  | record _ => false
  | _ => true

theorem eq_of_decode?_obj {shape : Shape} (hkeeps : shape.keepsObjects = true)
    {members : Json.Members} {normal : Json} (h : decode? shape (.obj members) = some normal) :
    normal = .obj members := by
  cases shape with
  | map value => exact eq_of_decode? (.map value) hkeeps h
  | any => exact (Option.some.inj h).symm
  | record fields => cases hkeeps
  | _ => cases h

end Shape

end ControlPlane
