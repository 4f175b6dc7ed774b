import ControlPlane.Json.MergePatch
import ControlPlane.Json.Pointer
import ControlPlane.SortedMap.Lemmas

/-!
# Well-formed JSON values

The members of an object ascend, and so do those of every object in it. Writing members, merging a
patch and changing a part keep this. In such a value a member can be written again without effect.

* `SortedMap.insert_eq_self`: writing the value that is there.
* `Json.beq_comm_of_isScalar`, `Json.beq_congr`: equality of scalars is symmetric and transitive.
* `Json.induction_parts`: induction over a value by its parts.
* `Json.wellFormed_mergePatch`, `Json.wellFormed_modifyAt`: what keeps a value well formed.
* `Json.get?_mergePatchMembers`: merging, key by key.
* `Json.modifyAt_eq_self`: changing a part to what it is changes nothing.
-/

namespace ControlPlane

namespace SortedMap

variable {κ α : Type} [Ord κ] [Std.TransOrd κ] [Std.LawfulEqOrd κ] [DecidableEq κ]

instance (m : SortedMap κ α) : Decidable (Sorted m) :=
  inferInstanceAs (Decidable (m.Pairwise fun a b => compare a.1 b.1 = .lt))

/-- Writing the value that is there changes nothing. -/
theorem insert_eq_self {m : SortedMap κ α} (hm : Sorted m) {k : κ} {v : α}
    (h : get? m k = some v) : insert m k v = m := by
  refine ext (sorted_insert hm k v) hm fun j => ?_
  by_cases hj : j = k
  · rw [hj, get?_insert_self, h]
  · exact get?_insert_of_ne _ _ hj

end SortedMap

namespace Number

theorem same_comm (a b : Number) : same a b = same b a := by
  cases a with
  | int a =>
    cases b with
    | int b => exact BEq.comm
    | float b => rfl
  | float a =>
    cases b with
    | int b => rfl
    | float b =>
      rw [same, same, BEq.comm (a := a), Bool.and_comm]

/-- Numbers that are equal are equal to the same numbers. -/
theorem same_congr {a b : Number} (h : same a b = true) (c : Number) : same a c = same b c := by
  cases a with
  | int a =>
    cases b with
    | int b => rw [eq_of_beq (h : (a == b) = true)]
    | float b => cases h
  | float a =>
    cases b with
    | int b => cases h
    | float b =>
      cases c with
      | int c => rfl
      | float c =>
        simp only [same, Bool.or_eq_true, Bool.and_eq_true, beq_iff_eq] at h ⊢
        grind

end Number

namespace Json

/-! ## Equality -/

mutual

/-- Every value is equal to itself. -/
theorem same_self : (json : Json) → same json json = true
  | .null => rfl
  | .bool b => by
    rw [same]
    exact beq_self_eq_true b
  | .num n => by
    rw [same]
    cases n with
    | int n => exact beq_self_eq_true n
    | float bits => exact Bool.or_eq_true_iff.mpr (Or.inl (beq_self_eq_true bits))
  | .str s => by
    rw [same]
    exact beq_self_eq_true s
  | .arr items => sameItems_self items
  | .obj members => sameMembers_self members

theorem sameItems_self : (items : List Json) → sameItems items items = true
  | [] => rfl
  | item :: items => by rw [sameItems, same_self item, sameItems_self items, Bool.and_true]

theorem sameMembers_self : (members : List (String × Json)) → sameMembers members members = true
  | [] => rfl
  | (key, value) :: members => by
    rw [sameMembers, same_self value, sameMembers_self members, beq_self_eq_true, Bool.and_true,
      Bool.and_true]

end

theorem beq_self (json : Json) : (json == json) = true := same_self json

/-! ## Scalars -/

/-- The value is neither an object nor a list. -/
def IsScalar : Json → Prop
  | .obj _ | .arr _ => False
  | _ => True

theorem isNull_iff {json : Json} : json.isNull = true ↔ json = .null := by
  cases json <;> simp [isNull]

theorem beq_comm_of_isScalar {x y : Json} (h : y.IsScalar) : (x == y) = (y == x) := by
  cases y with
  | arr items => exact h.elim
  | obj members => exact h.elim
  | null => cases x <;> rfl
  | bool b =>
    cases x with
    | bool a => exact BEq.comm (α := Bool)
    | _ => rfl
  | num b =>
    cases x with
    | num a => exact Number.same_comm a b
    | _ => rfl
  | str b =>
    cases x with
    | str a => exact BEq.comm (α := String)
    | _ => rfl

theorem beq_congr {x y v : Json} (hy : y.IsScalar) (h : (x == y) = true) : (x == v) = (y == v) := by
  cases y with
  | arr items => exact hy.elim
  | obj members => exact hy.elim
  | null => cases x <;> first | rfl | cases h
  | bool b =>
    cases x with
    | bool a => rw [@eq_of_beq Bool _ _ a b h]
    | _ => cases h
  | str b =>
    cases x with
    | str a => rw [@eq_of_beq String _ _ a b h]
    | _ => cases h
  | num b =>
    cases x with
    | num a =>
      cases v with
      | num c => exact Number.same_congr h c
      | _ => rfl
    | _ => cases h

theorem isScalar_of_beq {x y : Json} (hy : y.IsScalar) (h : (x == y) = true) : x.IsScalar := by
  cases x with
  | arr items => cases y <;> first | cases h | exact hy
  | obj members => cases y <;> first | cases h | exact hy
  | _ => trivial

/-! ## Induction -/

theorem sizeOf_lt_of_mem_arr {items : List Json} {item : Json} (h : item ∈ items) :
    sizeOf item < sizeOf (arr items) := by
  have hlt := List.sizeOf_lt_of_mem h
  rw [arr.sizeOf_spec]
  omega

theorem sizeOf_lt_of_mem_obj {members : Members} {e : String × Json} (h : e ∈ members) :
    sizeOf e.2 < sizeOf (obj members) := by
  have hlt := List.sizeOf_lt_of_mem h
  have he : sizeOf e = 1 + sizeOf e.1 + sizeOf e.2 := Prod.mk.sizeOf_spec e.1 e.2
  rw [obj.sizeOf_spec]
  omega

/-- Induction over a value by its items and its members. -/
theorem induction_parts {P : Json → Prop} (scalar : ∀ json, json.IsScalar → P json)
    (arr : ∀ items, (∀ item ∈ items, P item) → P (.arr items))
    (obj : ∀ members : Members, (∀ e ∈ members, P e.2) → P (.obj members)) (json : Json) :
    P json := by
  induction json using (measure (sizeOf : Json → Nat)).wf.induction with
  | _ json ih =>
    cases json with
    | arr items => exact arr items fun item hitem => ih item (sizeOf_lt_of_mem_arr hitem)
    | obj members => exact obj members fun e he => ih e.2 (sizeOf_lt_of_mem_obj he)
    | _ => exact scalar _ trivial

/-! ## Parts -/

theorem wellFormedItems_iff {items : List Json} :
    WellFormedItems items ↔ ∀ item ∈ items, item.WellFormed := by
  induction items with
  | nil => simp [WellFormedItems]
  | cons item items ih => simp [WellFormedItems, ih]

theorem wellFormedMembers_iff {members : List (String × Json)} :
    WellFormedMembers members ↔ ∀ e ∈ members, e.2.WellFormed := by
  induction members with
  | nil => simp [WellFormedMembers]
  | cons e members ih => simp [WellFormedMembers, ih]

mutual

/-- Whether a value is well formed is decided part by part. -/
def decideWellFormed : (json : Json) → Decidable json.WellFormed
  | .null | .bool _ | .num _ | .str _ => isTrue trivial
  | .arr items => decideItems items
  | .obj members => @instDecidableAnd _ _ inferInstance (decideMembers members)

def decideItems : (items : List Json) → Decidable (WellFormedItems items)
  | [] => isTrue trivial
  | item :: items => @instDecidableAnd _ _ (decideWellFormed item) (decideItems items)

def decideMembers : (members : List (String × Json)) → Decidable (WellFormedMembers members)
  | [] => isTrue trivial
  | (_, value) :: members => @instDecidableAnd _ _ (decideWellFormed value) (decideMembers members)

end

instance : DecidablePred WellFormed := decideWellFormed

theorem wellFormed_arr {items : List Json} :
    WellFormed (.arr items) ↔ ∀ item ∈ items, item.WellFormed := wellFormedItems_iff

theorem wellFormed_obj {members : Members} :
    WellFormed (.obj members) ↔
      SortedMap.Sorted members ∧ ∀ e ∈ members, e.2.WellFormed := by
  rw [WellFormed, wellFormedMembers_iff]

/-- The members of a well-formed object. -/
def WellFormedObject (members : Members) : Prop := WellFormed (.obj members)

namespace WellFormedObject

variable {members : Members}

theorem sorted (h : WellFormedObject members) : SortedMap.Sorted members := (wellFormed_obj.mp h).1

theorem wellFormed (h : WellFormedObject members) {key : String} {value : Json}
    (hvalue : SortedMap.get? members key = some value) : value.WellFormed :=
  (wellFormed_obj.mp h).2 _ (SortedMap.mem_of_get? hvalue)

theorem nil : WellFormedObject [] := wellFormed_obj.mpr ⟨SortedMap.sorted_nil, by simp⟩

theorem insert (h : WellFormedObject members) (key : String) {value : Json}
    (hvalue : value.WellFormed) : WellFormedObject (SortedMap.insert members key value) := by
  refine wellFormed_obj.mpr ⟨SortedMap.sorted_insert h.sorted _ _, fun e he => ?_⟩
  rcases SortedMap.eq_or_mem_of_mem_insert he with rfl | he
  · exact hvalue
  · exact (wellFormed_obj.mp h).2 e he

theorem filter (h : WellFormedObject members) (p : String × Json → Bool) :
    WellFormedObject (members.filter p) :=
  wellFormed_obj.mpr ⟨SortedMap.sorted_filter h.sorted _,
    fun e he => (wellFormed_obj.mp h).2 e (List.mem_filter.mp he).1⟩

theorem erase (h : WellFormedObject members) (key : String) :
    WellFormedObject (SortedMap.erase members key) := h.filter _

theorem set (h : WellFormedObject members) (key : String) {value : Option Json}
    (hvalue : ∀ v, value = some v → v.WellFormed) :
    WellFormedObject (SortedMap.set members key value) := by
  cases value with
  | none => exact h.erase key
  | some value => exact h.insert key (hvalue value rfl)

end WellFormedObject

theorem wellFormedObject_members {json : Json} (h : json.WellFormed) :
    WellFormedObject json.members := by
  cases json with
  | obj members => exact h
  | _ => exact .nil

theorem wellFormed_getD {value : Option Json} (h : ∀ v, value = some v → v.WellFormed) :
    (value.getD .null).WellFormed := by
  cases value with
  | none => exact trivial
  | some value => exact h value rfl

/-! ## Merging -/

mutual

/-- **Merging keeps values well formed.** -/
theorem wellFormed_mergePatch : (patch target : Json) → patch.WellFormed → target.WellFormed →
    (mergePatch patch target).WellFormed
  | .obj patch, target, hpatch, htarget => by
    rw [mergePatch]
    exact wellFormedObject_mergePatchMembers patch target.members (wellFormed_obj.mp hpatch).2
      (wellFormedObject_members htarget)
  | .null, _, hpatch, _ => hpatch
  | .bool _, _, hpatch, _ => hpatch
  | .num _, _, hpatch, _ => hpatch
  | .str _, _, hpatch, _ => hpatch
  | .arr _, _, hpatch, _ => hpatch

theorem wellFormedObject_mergePatchMembers : (patch : List (String × Json)) → (target : Members) →
    (∀ e ∈ patch, e.2.WellFormed) → WellFormedObject target →
      WellFormedObject (mergePatchMembers patch target)
  | [], _, _, htarget => htarget
  | (key, value) :: patch, target, hpatch, htarget => by
    have hrest : ∀ e ∈ patch, e.2.WellFormed := fun e he => hpatch e (List.mem_cons_of_mem _ he)
    have hvalue : value.WellFormed := hpatch (key, value) List.mem_cons_self
    rw [mergePatchMembers]
    split
    · exact wellFormedObject_mergePatchMembers patch _ hrest (htarget.erase key)
    · exact wellFormedObject_mergePatchMembers patch _ hrest (htarget.insert key
        (wellFormed_mergePatch value _ hvalue (wellFormed_getD fun v hv => htarget.wellFormed hv)))

end

/-- The value of a member after merging: what the patch does not name stays, what it sets to `null`
goes, and anything else is merged. -/
def mergeOption (patch target : Option Json) : Option Json :=
  match patch with
  | none => target
  | some value => if value.isNull then none else some (mergePatch value (target.getD .null))

/-- The value of a member after merging. -/
def mergedMember (patch target : Members) (key : String) : Option Json :=
  mergeOption (SortedMap.get? patch key) (SortedMap.get? target key)

/-- **Merging, key by key.** -/
theorem get?_mergePatchMembers {patch : Members} (hpatch : SortedMap.Sorted patch)
    (target : Members) (key : String) :
    SortedMap.get? (mergePatchMembers patch target) key = mergedMember patch target key := by
  induction patch generalizing target with
  | nil => rfl
  | cons e patch ih =>
    obtain ⟨name, value⟩ := e
    obtain ⟨hname, hpatch⟩ := SortedMap.sorted_cons.mp hpatch
    have hfresh : SortedMap.get? patch name = none := SortedMap.get?_eq_none_of_lt hname
    have hstep (target' : Members)
        (hself : SortedMap.get? target' name = mergedMember ((name, value) :: patch) target name)
        (hother : ∀ k, k ≠ name → SortedMap.get? target' k = SortedMap.get? target k) :
        SortedMap.get? (mergePatchMembers patch target') key =
          mergedMember ((name, value) :: patch) target key := by
      rw [ih hpatch]
      by_cases hkey : key = name
      · subst hkey
        rw [← hself, mergedMember, hfresh, mergeOption]
      · rw [mergedMember, mergedMember, SortedMap.get?_cons, if_neg (Ne.symm hkey), hother key hkey]
    rw [mergePatchMembers]
    split
    · next hnull =>
      refine hstep _ ?_ fun k hk => SortedMap.get?_erase_of_ne _ hk
      rw [SortedMap.get?_erase_self, mergedMember, SortedMap.get?_cons, if_pos rfl, mergeOption]
      exact (if_pos hnull).symm
    · next hnull =>
      refine hstep _ ?_ fun k hk => SortedMap.get?_insert_of_ne _ _ hk
      rw [SortedMap.get?_insert_self, mergedMember, SortedMap.get?_cons, if_pos rfl, mergeOption]
      exact (if_neg hnull).symm

/-- Merging keeps the members in their order. -/
theorem sorted_mergePatchMembers (patch : Members) {target : Members}
    (h : SortedMap.Sorted target) : SortedMap.Sorted (mergePatchMembers patch target) := by
  induction patch generalizing target with
  | nil => exact h
  | cons e patch ih =>
    obtain ⟨key, value⟩ := e
    rw [mergePatchMembers]
    split
    · exact ih (SortedMap.sorted_erase h key)
    · exact ih (SortedMap.sorted_insert h _ _)

/-! ## Changing a part -/

theorem modify_eq_self {α : Type} {f : α → α} {items : List α} {i : Nat}
    (hf : ∀ item, items[i]? = some item → f item = item) : items.modify i f = items := by
  refine List.ext_getElem? fun j => ?_
  rw [List.getElem?_modify]
  cases hitem : items[j]? with
  | none => rfl
  | some item =>
    by_cases hij : i = j
    · subst hij
      simp [hf item hitem]
    · simp [hij]

theorem mem_or_of_mem_modify {α : Type} {f : α → α} {items : List α} {i : Nat} {y : α}
    (h : y ∈ items.modify i f) : y ∈ items ∨ ∃ x ∈ items, f x = y := by
  obtain ⟨j, hj⟩ := List.getElem?_of_mem h
  rw [List.getElem?_modify] at hj
  obtain ⟨x, hx, hxy⟩ := Option.map_eq_some_iff.mp hj
  have hmem := List.mem_of_getElem? hx
  by_cases hij : i = j
  · rw [if_pos hij] at hxy
    exact Or.inr ⟨x, hmem, hxy⟩
  · rw [if_neg hij] at hxy
    exact Or.inl (hxy ▸ hmem)

/-- **Changing a part to what it is changes nothing.** -/
theorem modifyAt_eq_self {f : Json → Json} {pointer : Pointer} :
    ∀ {json : Json}, json.WellFormed → (∀ value, json.at? pointer = some value → f value = value) →
      json.modifyAt f pointer = json := by
  induction pointer with
  | nil =>
    intro json _ hf
    rw [modifyAt]
    exact hf json (by rw [at?])
  | cons token rest ih =>
    intro json hjson hf
    cases json with
    | obj members =>
      rw [modifyAt]
      split
      · next value hvalue =>
        have hpart : value.modifyAt f rest = value := by
          refine ih (WellFormedObject.wellFormed hjson hvalue) fun part hpart => hf part ?_
          rw [at?, hvalue, Option.bind_some, hpart]
        rw [hpart, SortedMap.insert_eq_self (WellFormedObject.sorted hjson) hvalue]
      · rfl
    | arr items =>
      rw [modifyAt]
      split
      · next i hi =>
        refine congrArg arr (modify_eq_self fun item hitem => ?_)
        refine ih (wellFormed_arr.mp hjson item (List.mem_of_getElem? hitem)) ?_
        intro part hpart
        refine hf part ?_
        rw [at?, hi, Option.bind_some, hitem, Option.bind_some, hpart]
      · rfl
    | _ => rfl

/-- **The parts of a well-formed value are well formed.** -/
theorem wellFormed_at? {pointer : Pointer} :
    ∀ {json part : Json}, json.WellFormed → json.at? pointer = some part → part.WellFormed := by
  induction pointer with
  | nil =>
    intro json part hjson hpart
    rw [at?] at hpart
    obtain rfl := Option.some.inj hpart
    exact hjson
  | cons token rest ih =>
    intro json part hjson hpart
    cases json with
    | obj members =>
      obtain ⟨value, hvalue, hpart⟩ := Option.bind_eq_some_iff.mp hpart
      exact ih (WellFormedObject.wellFormed hjson hvalue) hpart
    | arr items =>
      obtain ⟨item, hitem, hpart⟩ := Option.bind_eq_some_iff.mp hpart
      obtain ⟨i, -, hitem⟩ := Option.bind_eq_some_iff.mp hitem
      exact ih (wellFormed_arr.mp hjson item (List.mem_of_getElem? hitem)) hpart
    | _ => cases hpart

/-- **Changing a part keeps a value well formed.** -/
theorem wellFormed_modifyAt {f : Json → Json}
    (hf : ∀ value, value.WellFormed → (f value).WellFormed) {pointer : Pointer} :
    ∀ {json : Json}, json.WellFormed → (json.modifyAt f pointer).WellFormed := by
  induction pointer with
  | nil =>
    intro json hjson
    rw [modifyAt]
    exact hf json hjson
  | cons token rest ih =>
    intro json hjson
    cases json with
    | obj members =>
      rw [modifyAt]
      split
      · next value hvalue =>
        exact WellFormedObject.insert hjson token (ih (WellFormedObject.wellFormed hjson hvalue))
      · exact hjson
    | arr items =>
      rw [modifyAt]
      split
      · next i hi =>
        refine wellFormed_arr.mpr fun item hitem => ?_
        rcases mem_or_of_mem_modify hitem with hitem | ⟨item', hitem', rfl⟩
        · exact wellFormed_arr.mp hjson item hitem
        · exact ih (wellFormed_arr.mp hjson item' hitem')
      · exact hjson
    | _ => exact hjson

end Json

end ControlPlane
