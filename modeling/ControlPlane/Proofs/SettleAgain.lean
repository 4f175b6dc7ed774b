import ControlPlane.Proofs.Settling

/-!
# Settling again

A value that was settled is settled once more, from the same value as before but against its own
conditions: what comes out is the same. For every condition is its own predecessor then, so that it
keeps its status and with it its time. This needs the conditions of each list to be told apart by
their types, and no list of conditions to be inside the type or the status of another condition,
which settling would change on the way. Merging the same patch in between does not matter.

* `Pointer.position?_injective`: no two tokens name one position.
* `Patch.Settling.Orderly`: what the lists of conditions of a value are asked.
* `Patch.Settling.settle_again`: settling again.
* `Patch.Settling.merge_again`: merging and settling again.
-/

namespace ControlPlane

/-! ## Positions -/

namespace Pointer

theorem digitChar_of_isDigit {c : Char} (h : c.isDigit = true) :
    c.toNat - '0'.toNat < 10 ∧ Nat.digitChar (c.toNat - '0'.toNat) = c := by
  simp only [Char.isDigit, Bool.and_eq_true, decide_eq_true_eq] at h
  have h0 : 48 ≤ c.toNat := by simpa [UInt32.le_iff_toNat_le] using h.1
  have h9 : c.toNat ≤ 57 := by simpa [UInt32.le_iff_toNat_le] using h.2
  have hlt : c.toNat - '0'.toNat < 10 := by
    show c.toNat - 48 < 10
    omega
  refine ⟨hlt, Char.toNat_inj.mp ?_⟩
  rw [Nat.toNat_digitChar_of_lt_ten hlt]
  show 48 + (c.toNat - 48) = c.toNat
  omega

/-- Digits that are read after a number without leading zeros continue it. -/
theorem toDigits_foldl {cs : List Char} (h : ∀ c ∈ cs, c.isDigit = true) {n : Nat} (hn : 0 < n) :
    Nat.toDigits 10 (cs.foldl (fun n c => 10 * n + (c.toNat - '0'.toNat)) n) =
      Nat.toDigits 10 n ++ cs := by
  induction cs generalizing n with
  | nil => simp
  | cons c cs ih =>
    obtain ⟨hlt, hchar⟩ := digitChar_of_isDigit (h c List.mem_cons_self)
    have hnext : Nat.toDigits 10 (10 * n + (c.toNat - '0'.toNat)) = Nat.toDigits 10 n ++ [c] := by
      rw [← Nat.toDigits_append_toDigits (by decide) hn hlt, Nat.toDigits_of_lt_base hlt, hchar]
    rw [List.foldl_cons, ih (fun c' hc' => h c' (List.mem_cons_of_mem _ hc')) (by omega), hnext,
      List.append_assoc, List.singleton_append]

/-- The number that digits are read as has these digits, if the first is not a zero. -/
theorem toDigits_of_digits {c : Char} {cs : List Char} (hc : c ≠ '0')
    (h : ∀ d ∈ c :: cs, d.isDigit = true) :
    Nat.toDigits 10 ((c :: cs).foldl (fun n c => 10 * n + (c.toNat - '0'.toNat)) 0) = c :: cs := by
  obtain ⟨hlt, hchar⟩ := digitChar_of_isDigit (h c List.mem_cons_self)
  have hpos : 0 < c.toNat - '0'.toNat := by
    refine Nat.pos_of_ne_zero fun hzero => hc ?_
    rw [← hchar, hzero]
    rfl
  rw [List.foldl_cons, Nat.mul_zero, Nat.zero_add,
    toDigits_foldl (fun d hd => h d (List.mem_cons_of_mem _ hd)) hpos,
    Nat.toDigits_of_lt_base hlt, hchar, List.singleton_append]

theorem toList_of_position? {token : String} {i : Nat} (h : position? token = some i) :
    token.toList = Nat.toDigits 10 i := by
  unfold position? at h
  split at h
  · cases h
  · next hzero =>
    obtain rfl := Option.some.inj h
    exact hzero
  · cases h
  · next hnil _ hleading =>
    split at h
    · next hdigits =>
      obtain rfl := Option.some.inj h
      cases hlist : token.toList with
      | nil => exact absurd hlist hnil
      | cons c cs =>
        rw [hlist, List.all_eq_true] at hdigits
        refine (toDigits_of_digits ?_ hdigits).symm
        rintro rfl
        exact hleading cs hlist
    · cases h

/-- **No two tokens name one position.** -/
theorem position?_injective {token token' : String} {i : Nat} (h : position? token = some i)
    (h' : position? token' = some i) : token = token' :=
  String.toList_injective ((toList_of_position? h).trans (toList_of_position? h').symm)

end Pointer

namespace Patch

namespace Settling

/-! ## What the lists of conditions are asked -/

theorem at?_obj {members : Json.Members} {key : String} {value : Json}
    (h : SortedMap.get? members key = some value) (pointer : Pointer) :
    (Json.obj members).at? (key :: pointer) = value.at? pointer := by
  rw [Json.at?, h, Option.bind_some]

theorem at?_arr {items : List Json} {i : Nat} {item : Json} {token : String}
    (htoken : Pointer.position? token = some i) (h : items[i]? = some item) (pointer : Pointer) :
    (Json.arr items).at? (token :: pointer) = item.at? pointer := by
  rw [Json.at?, htoken, Option.bind_some, h, Option.bind_some]

/-- The conditions in each of the lists are told apart by their types, and none of the lists is
inside the type or the status of a condition in another. -/
structure Orderly (pointers : List Pointer) (json : Json) : Prop where
  distinguished : ∀ p ∈ pointers, ∀ conditions, json.at? p = some (.arr conditions) →
    Distinguished conditions
  apart : ∀ p ∈ pointers, ∀ conditions, json.at? p = some (.arr conditions) →
    ∀ token key rest, key = "type" ∨ key = "status" → p ++ token :: key :: rest ∈ pointers →
      ∀ items, json.at? (p ++ token :: key :: rest) ≠ some (.arr items)

/-- If no pointer leads through another, it is enough that the conditions are told apart. -/
theorem Orderly.of_unnested {pointers : List Pointer} {json : Json}
    (hunnested : ∀ p ∈ pointers, ∀ q ∈ pointers, p <+: q → p = q)
    (h : ∀ p ∈ pointers, ∀ conditions, json.at? p = some (.arr conditions) →
      Distinguished conditions) : Orderly pointers json where
  distinguished := h
  apart p hp _ _ token key rest _ hq := by
    have heq := hunnested p hp _ hq (List.prefix_append p _)
    cases List.self_eq_append_right.mp heq

variable {C : Settling} {now : Timestamp}

theorem Orderly.under {members : Json.Members} (h : Orderly C.pointers (.obj members))
    {key : String} {value : Json} (hvalue : SortedMap.get? members key = some value) :
    Orderly (C.under key).pointers value where
  distinguished p hp conditions hconditions :=
    h.distinguished (key :: p) (mem_pointers_under.mp hp) conditions
      ((at?_obj hvalue p).trans hconditions)
  apart p hp conditions hconditions token name rest hname hq items hitems :=
    h.apart (key :: p) (mem_pointers_under.mp hp) conditions
      ((at?_obj hvalue p).trans hconditions) token name rest hname (mem_pointers_under.mp hq) items
      ((at?_obj hvalue _).trans hitems)

theorem Orderly.inside {items : List Json} (h : Orderly C.pointers (.arr items)) {i : Nat}
    {item : Json} (hitem : items[i]? = some item) : Orderly (C.inside i).pointers item where
  distinguished p hp conditions hconditions := by
    obtain ⟨token, htoken, hp⟩ := mem_pointers_inside.mp hp
    exact h.distinguished _ hp conditions ((at?_arr htoken hitem p).trans hconditions)
  apart p hp conditions hconditions token name rest hname hq inner hinner := by
    obtain ⟨first, hfirst, hp⟩ := mem_pointers_inside.mp hp
    obtain ⟨first', hfirst', hq⟩ := mem_pointers_inside.mp hq
    obtain rfl := Pointer.position?_injective hfirst hfirst'
    exact h.apart _ hp conditions ((at?_arr hfirst hitem p).trans hconditions) token name rest
      hname hq inner ((at?_arr hfirst hitem _).trans hinner)

/-- Settling leaves the value as it is, or one of the lists is in the result. -/
def KeptOrListed (now : Timestamp) (json : Json) : Prop :=
  ∀ C : Settling, json.WellFormed → C.settle now json = json ∨
    ∃ p ∈ C.pointers, ∃ conditions, (C.settle now json).at? p = some (.arr conditions)

theorem keptOrListed_obj {members : Json.Members}
    (ih : ∀ key value, SortedMap.get? members key = some value → KeptOrListed now value) :
    KeptOrListed now (.obj members) := by
  intro C hjson
  obtain ⟨members', heq, hsorted, hget⟩ := C.exists_settle_obj now members
  rw [heq]
  by_cases hlist : ∃ key value, SortedMap.get? members key = some value ∧
      ∃ p ∈ (C.under key).pointers, ∃ conditions,
        ((C.under key).settle now value).at? p = some (.arr conditions)
  · obtain ⟨key, value, hvalue, p, hp, conditions, hconditions⟩ := hlist
    refine Or.inr ⟨key :: p, mem_pointers_under.mp hp, conditions, ?_⟩
    rw [at?_obj (by rw [hget, hvalue, Option.map_some]), hconditions]
  · have hmembers := Json.WellFormedObject.sorted hjson
    refine Or.inl (congrArg Json.obj (SortedMap.ext (hsorted hmembers) hmembers fun key => ?_))
    rw [hget]
    cases hvalue : SortedMap.get? members key with
    | none => rfl
    | some value =>
      have hwell := Json.WellFormedObject.wellFormed hjson hvalue
      rcases ih key value hvalue (C.under key) hwell with hsame | hin
      · exact congrArg some hsame
      · exact absurd ⟨key, value, hvalue, hin⟩ hlist

theorem keptOrListed_arr {items : List Json} (ih : ∀ item ∈ items, KeptOrListed now item) :
    KeptOrListed now (.arr items) := by
  intro C hjson
  rw [settle_arr]
  by_cases hnil : [] ∈ C.pointers
  · exact Or.inr ⟨[], hnil, _, rfl⟩
  have hinside (i : Nat) (item : Json) : C.onItem now i item = (C.inside i).settle now item :=
    onItem_inside hnil now i item
  by_cases hlist : ∃ i item, items[i]? = some item ∧ ∃ p ∈ (C.inside i).pointers,
      ∃ conditions, ((C.inside i).settle now item).at? p = some (.arr conditions)
  · obtain ⟨i, item, hitem, p, hp, conditions, hconditions⟩ := hlist
    obtain ⟨token, htoken, hp⟩ := mem_pointers_inside.mp hp
    refine Or.inr ⟨token :: p, hp, conditions, ?_⟩
    rw [at?_arr htoken (by rw [List.getElem?_mapIdx, hitem, Option.map_some]), hinside,
      hconditions]
  · refine Or.inl (congrArg Json.arr (List.ext_getElem? fun i => ?_))
    rw [List.getElem?_mapIdx]
    cases hitem : items[i]? with
    | none => rfl
    | some item =>
      have hmem := List.mem_of_getElem? hitem
      rw [Option.map_some, hinside]
      rcases ih item hmem (C.inside i) (Json.wellFormed_arr.mp hjson item hmem) with hsame | hin
      · exact congrArg some hsame
      · exact absurd ⟨i, item, hitem, hin⟩ hlist

theorem settle_eq_or_list (now : Timestamp) (json : Json) : KeptOrListed now json := by
  induction json using (measure (sizeOf : Json → Nat)).wf.induction with
  | _ json ih =>
    cases json with
    | obj members =>
      exact keptOrListed_obj fun key value hvalue =>
        ih value (Json.sizeOf_lt_of_mem_obj (SortedMap.mem_of_get? hvalue))
    | arr items =>
      exact keptOrListed_arr fun item hitem => ih item (Json.sizeOf_lt_of_mem_arr hitem)
    | _ => exact fun C _ => Or.inl (C.settle_scalar now trivial)

/-! ## The conditions of a list -/

theorem inside_cons (e : Pointer × List Json) (C : Settling) (i : Nat) :
    inside (e :: C) i = inside [e] i ++ C.inside i := by
  rw [inside, inside, inside, ← List.filterMap_append]
  rfl

theorem under_append (C D : Settling) (key : String) :
    (C ++ D).under key = C.under key ++ D.under key := List.filterMap_append

/-- A list inside an item is settled, key by key. -/
theorem exists_onItem_below (token : String) (rest : Pointer) (previous : List Json)
    (now : Timestamp) (i : Nat) (members : Json.Members) :
    ∃ members', onItem [(token :: rest, previous)] now i (.obj members) = .obj members' ∧
      (SortedMap.Sorted members → SortedMap.Sorted members') ∧
      ∀ key, SortedMap.get? members' key = (SortedMap.get? members key).map
        (((inside [(token :: rest, previous)] i).under key).settle now) := by
  rw [onItem_inside (by simp [pointers])]
  exact exists_settle_obj ..

/-- A condition is settled: it may get a time. -/
theorem exists_settleCondition (previous : List Json) (now : Timestamp) (members : Json.Members) :
    ∃ members', settleCondition previous now (.obj members) = .obj members' ∧
      (SortedMap.Sorted members → SortedMap.Sorted members') ∧
      (∀ key, key ≠ transitionKey →
        SortedMap.get? members' key = SortedMap.get? members key) ∧
      SortedMap.get? members' transitionKey =
        (newTime? previous now (.obj members)).or (SortedMap.get? members transitionKey) := by
  rw [settleCondition]
  cases newTime? previous now (.obj members) with
  | none => exact ⟨members, rfl, id, fun _ _ => rfl, rfl⟩
  | some time =>
    exact ⟨_, rfl, fun h => SortedMap.sorted_insert h _ _,
      fun key hkey => SortedMap.get?_insert_of_ne _ _ hkey, SortedMap.get?_insert_self ..⟩

/-- What settling a list does to the members of a condition, the time aside. -/
theorem exists_onItem_obj (C : Settling) (now : Timestamp) (i : Nat) (members : Json.Members) :
    ∃ members', C.onItem now i (.obj members) = .obj members' ∧
      (SortedMap.Sorted members → SortedMap.Sorted members') ∧
      ∀ key, key ≠ transitionKey → SortedMap.get? members' key =
        (SortedMap.get? members key).map (((C.inside i).under key).settle now) := by
  induction C generalizing members with
  | nil => exact ⟨members, rfl, id, fun key _ => Option.map_id'.symm⟩
  | cons e C ih =>
    obtain ⟨pointer, previous⟩ := e
    have hfirst : ∃ first, onItem [(pointer, previous)] now i (.obj members) = .obj first ∧
        (SortedMap.Sorted members → SortedMap.Sorted first) ∧
        ∀ key, key ≠ transitionKey → SortedMap.get? first key = (SortedMap.get? members key).map
          (((inside [(pointer, previous)] i).under key).settle now) := by
      cases pointer with
      | nil =>
        obtain ⟨first, heq, hsorted, hget, -⟩ := exists_settleCondition previous now members
        exact ⟨first, heq, hsorted, fun key hkey => (hget key hkey).trans Option.map_id'.symm⟩
      | cons token rest =>
        obtain ⟨first, heq, hsorted, hget⟩ := exists_onItem_below token rest previous now i members
        exact ⟨first, heq, hsorted, fun key _ => hget key⟩
    obtain ⟨first, heq, hsorted, hget⟩ := hfirst
    obtain ⟨members', heq', hsorted', hget'⟩ := ih first
    refine ⟨members', ?_, fun h => hsorted' (hsorted h), fun key hkey => ?_⟩
    · rw [onItem_cons, heq, heq']
    · rw [hget' key hkey, hget key hkey, Option.map_map, inside_cons (pointer, previous) C,
        under_append]
      refine congrArg (Option.map · _) (funext fun value => ?_)
      exact (settle_append ..).symm

theorem isObject_modifyAt (previous : List Json) (now : Timestamp) (pointer : Pointer)
    (json : Json) :
    (json.modifyAt (settleItems previous now) pointer).isObject = json.isObject := by
  cases pointer with
  | nil => cases json <;> rfl
  | cons token rest =>
    cases json with
    | obj members =>
      rw [Json.modifyAt]
      split <;> rfl
    | arr items =>
      rw [Json.modifyAt]
      split <;> rfl
    | _ => rfl

/-- Settling makes an object of objects only. -/
theorem isObject_onItem (C : Settling) (now : Timestamp) (i : Nat) (item : Json) :
    (C.onItem now i item).isObject = item.isObject := by
  induction C generalizing item with
  | nil => rfl
  | cons e C ih =>
    obtain ⟨pointer, previous⟩ := e
    rw [onItem_cons, ih]
    cases pointer with
    | nil =>
      show (settleCondition previous now item).isObject = item.isObject
      unfold settleCondition
      split
      · split <;> rfl
      · rfl
    | cons token rest =>
      rw [onItem_below]
      split
      · exact isObject_modifyAt ..
      · rfl

theorem isNull_newTime? {previous : List Json} {condition time : Json}
    (h : newTime? previous now condition = some time) : time.isNull = false := by
  unfold newTime? at h
  split at h
  · split at h
    · simpa using (Option.filter_eq_some_iff.mp h).2
    · obtain rfl := Option.some.inj h
      rfl
  · split at h
    · cases h
    · obtain rfl := Option.some.inj h
      rfl

@[simp] theorem isNull_settle (C : Settling) (now : Timestamp) (json : Json) :
    (C.settle now json).isNull = json.isNull := by
  cases json with
  | obj members =>
    obtain ⟨members', heq, -⟩ := C.exists_settle_obj now members
    rw [heq]
    rfl
  | arr items =>
    rw [settle_arr]
    rfl
  | _ => rw [C.settle_scalar now (by trivial)]

theorem transitionTime?_eq_none {members : Json.Members}
    (h : transitionTime? (.obj members) = none) {time : Json}
    (htime : SortedMap.get? members transitionKey = some time) : time.isNull = true := by
  have hfilter : (SortedMap.get? members transitionKey).filter (!·.isNull) = none := h
  rw [htime] at hfilter
  simpa [Option.filter] using hfilter

/-- A condition that ends without a time began without one. -/
theorem time_of_missing {final : Json.Members} (hmissing : transitionTime? (.obj final) = none)
    (i : Nat) {members : Json.Members} (h : C.onItem now i (.obj members) = .obj final) :
    SortedMap.get? members transitionKey = SortedMap.get? final transitionKey := by
  induction C generalizing members with
  | nil =>
    obtain rfl := Json.obj.inj h
    rfl
  | cons e C ih =>
    obtain ⟨pointer, previous⟩ := e
    rw [onItem_cons] at h
    cases pointer with
    | nil =>
      obtain ⟨first, heq, -, -, htime⟩ := exists_settleCondition previous now members
      rw [show onItem [([], previous)] now i (.obj members) = .obj first from heq] at h
      rw [ih h] at htime
      cases hnew : newTime? previous now (.obj members) with
      | none =>
        rw [hnew, Option.none_or] at htime
        exact htime.symm
      | some time =>
        rw [hnew, Option.some_or] at htime
        have hnull := transitionTime?_eq_none hmissing htime
        rw [isNull_newTime? hnew] at hnull
        cases hnull
    | cons token rest =>
      obtain ⟨first, heq, -, hget⟩ := exists_onItem_below token rest previous now i members
      rw [heq] at h
      have htime := (ih h).symm.trans (hget transitionKey)
      cases hmember : SortedMap.get? members transitionKey with
      | none =>
        rw [hmember] at htime
        exact htime.symm
      | some time =>
        rw [hmember, Option.map_some] at htime
        have hnull := transitionTime?_eq_none hmissing htime
        rw [isNull_settle] at hnull
        obtain rfl := Json.isNull_iff.mp hnull
        exact (htime.trans (congrArg some (settle_scalar _ _ (by trivial)))).symm

section Condition

variable {pointers : List Pointer} {conditions : List Json} {i : Nat} {final : Json.Members}

theorem Orderly.mono {json : Json} (h : Orderly pointers json) {part : List Pointer}
    (hpart : ∀ p ∈ part, p ∈ pointers) : Orderly part json where
  distinguished p hp := h.distinguished p (hpart p hp)
  apart p hp conditions hconditions token key rest hkey hq :=
    h.apart p (hpart p hp) conditions hconditions token key rest hkey (hpart _ hq)

/-- Settling one of its own lists in a condition leaves its members. -/
theorem settle_own_below (horderly : Orderly pointers (.arr conditions))
    (hitem : conditions[i]? = some (.obj final)) (hfinal : (Json.obj final).WellFormed)
    {p : Pointer} (hp : p ∈ pointers) {key : String} {value : Json}
    (hvalue : SortedMap.get? final key = some value) (now : Timestamp) :
    ((inside [(p, conditionsAt (.arr conditions) p)] i).under key).settle now value = value := by
  have hone : Orderly (Settling.pointers [(p, [])]) (.arr conditions) := by
    refine horderly.mono fun q hq => ?_
    obtain rfl := List.mem_singleton.mp hq
    exact hp
  have hown : ((inside [(p, conditionsAt (.arr conditions) p)] i).under key) =
      (under (inside [(p, [])] i) key).own value := by
    rw [← own_under hvalue, ← own_inside hitem]
    rfl
  rw [hown]
  exact settle_own (Json.WellFormedObject.wellFormed hfinal hvalue)
    ((hone.inside hitem).under hvalue).distinguished now

/-- **A condition that has the type and the status of one of the list gets the time of it**, from
the list itself, unless it has that time already and the list is not among those that are
settled. -/
theorem time_of_own (horderly : Orderly pointers (.arr conditions)) (hnil : [] ∈ pointers)
    (hitem : conditions[i]? = some (.obj final)) (hfinal : (Json.obj final).WellFormed)
    (now : Timestamp) {part : List Pointer} (hpart : ∀ p ∈ part, p ∈ pointers)
    {members : Json.Members}
    (htype : SortedMap.get? members "type" = SortedMap.get? final "type")
    (hstatus : SortedMap.get? members "status" = SortedMap.get? final "status")
    (htime : SortedMap.get? members transitionKey = SortedMap.get? final transitionKey ∨
      (transitionTime? (.obj final)).isSome = true ∧ [] ∈ part) :
    ∃ members', (of (.arr conditions) part).onItem now i (.obj members) = .obj members' ∧
      SortedMap.get? members' transitionKey = SortedMap.get? final transitionKey := by
  have hdistinguished : Distinguished conditions :=
    horderly.distinguished [] hnil conditions (by rw [Json.at?])
  induction part generalizing members with
  | nil =>
    rcases htime with htime | ⟨-, hin⟩
    · exact ⟨members, rfl, htime⟩
    · cases hin
  | cons p part ih =>
    have hrest : ∀ p ∈ part, p ∈ pointers := fun q hq => hpart q (List.mem_cons_of_mem _ hq)
    have hcons : of (.arr conditions) (p :: part) =
        (p, conditionsAt (.arr conditions) p) :: of (.arr conditions) part := rfl
    rw [hcons, onItem_cons]
    cases p with
    | nil =>
      obtain ⟨first, heq, -, hget, hnew⟩ := exists_settleCondition conditions now members
      rw [show onItem [([], conditionsAt (.arr conditions) [])] now i (.obj members) = .obj first
        from heq]
      have hagrees : (Json.obj members).member? "type" = (Json.obj final).member? "type" := htype
      rw [hdistinguished.newTime?_eq (List.mem_of_getElem? hitem) hagrees hstatus] at hnew
      refine ih hrest ((hget "type" (by decide)).trans htype)
        ((hget "status" (by decide)).trans hstatus) (Or.inl ?_)
      cases hfinalTime : transitionTime? (.obj final) with
      | some time =>
        have hget : SortedMap.get? final transitionKey = some time :=
          (Option.filter_eq_some_iff.mp hfinalTime).1
        rw [hnew, hfinalTime, Option.some_or, hget]
      | none =>
        rw [hfinalTime] at hnew htime
        exact hnew.trans (htime.resolve_right fun h => by cases h.1)
    | cons token rest =>
      obtain ⟨first, heq, -, hget⟩ := exists_onItem_below token rest
        (conditionsAt (.arr conditions) (token :: rest)) now i members
      have hsame {key : String}
          (hkey : SortedMap.get? members key = SortedMap.get? final key) :
          SortedMap.get? first key = SortedMap.get? final key := by
        rw [hget, hkey]
        cases hvalue : SortedMap.get? final key with
        | none => rfl
        | some value =>
          exact congrArg some (settle_own_below horderly hitem hfinal
            (hpart _ List.mem_cons_self) hvalue now)
      rw [heq]
      refine ih hrest (hsame htype) (hsame hstatus) ?_
      rcases htime with htime | ⟨hsome, hin⟩
      · exact Or.inl (hsame htime)
      · exact Or.inr ⟨hsome, (List.mem_cons.mp hin).resolve_left (by simp)⟩

end Condition

/-! ## Settling a value again -/

/-- What was settled at one time and is settled against itself at another comes out the same. -/
def Resettles (t₁ t₂ : Timestamp) (json : Json) : Prop :=
  ∀ C : Settling, json.WellFormed → (C.settle t₁ json).WellFormed →
    Orderly C.pointers (C.settle t₁ json) →
    (C.own (C.settle t₁ json)).settle t₂ json = C.settle t₁ json

variable {t₁ t₂ : Timestamp}

theorem resettles_scalar {json : Json} (h : json.IsScalar) : Resettles t₁ t₂ json := by
  intro C _ _ _
  rw [settle_scalar _ _ h, settle_scalar _ _ h]

theorem resettles_obj {members : Json.Members}
    (ih : ∀ key value, SortedMap.get? members key = some value → Resettles t₁ t₂ value) :
    Resettles t₁ t₂ (.obj members) := by
  intro C hjson hfinal horderly
  obtain ⟨final, heq, hsorted, hget⟩ := C.exists_settle_obj t₁ members
  rw [heq] at hfinal horderly ⊢
  obtain ⟨again, heq', hsorted', hget'⟩ := (C.own (.obj final)).exists_settle_obj t₂ members
  have hmembers := Json.WellFormedObject.sorted hjson
  rw [heq']
  refine congrArg Json.obj (SortedMap.ext (hsorted' hmembers) (hsorted hmembers) fun key => ?_)
  rw [hget', hget]
  cases hvalue : SortedMap.get? members key with
  | none => rfl
  | some value =>
    have hkey : SortedMap.get? final key = some ((C.under key).settle t₁ value) := by
      rw [hget, hvalue, Option.map_some]
    rw [Option.map_some, Option.map_some, own_under hkey]
    exact congrArg some (ih key value hvalue (C.under key)
      (Json.WellFormedObject.wellFormed hjson hvalue)
      (Json.WellFormedObject.wellFormed hfinal hkey) (horderly.under hkey))

/-- An item of a list that is not settled itself. -/
theorem resettles_item {C : Settling} (hC : [] ∉ C.pointers) {items final : List Json}
    (heq : C.settle t₁ (.arr items) = .arr final) (hfinal : (Json.arr final).WellFormed)
    (horderly : Orderly C.pointers (.arr final)) {i : Nat} {item : Json}
    (hitem : items[i]? = some item) (hwell : item.WellFormed) (ih : Resettles t₁ t₂ item) :
    (C.own (.arr final)).onItem t₂ i item = C.onItem t₁ i item := by
  have hown : [] ∉ (C.own (.arr final)).pointers := by rwa [pointers_own]
  have hsettled : final[i]? = some ((C.inside i).settle t₁ item) := by
    rw [settle_arr] at heq
    rw [← Json.arr.inj heq, List.getElem?_mapIdx, hitem, Option.map_some, onItem_inside hC]
  rw [onItem_inside hC, onItem_inside hown, own_inside hsettled]
  exact ih (C.inside i) hwell
    (Json.wellFormed_arr.mp hfinal _ (List.mem_of_getElem? hsettled)) (horderly.inside hsettled)

/-- No list is inside the type or the status of a condition, so both are as they were before. -/
theorem get?_eq_of_apart {C : Settling} {final : List Json}
    (horderly : Orderly C.pointers (.arr final)) (hnil : [] ∈ C.pointers)
    {members first : Json.Members} (hwell : (Json.obj members).WellFormed) {i : Nat}
    (hfirst : final[i]? = some (.obj first)) {key : String} (hkey : key = "type" ∨ key = "status")
    (hget : SortedMap.get? first key =
      (SortedMap.get? members key).map (((C.inside i).under key).settle t₁)) :
    SortedMap.get? members key = SortedMap.get? first key := by
  cases hvalue : SortedMap.get? members key with
  | none => rw [hget, hvalue, Option.map_none]
  | some value =>
    rw [hvalue, Option.map_some] at hget
    rcases settle_eq_or_list t₁ value ((C.inside i).under key)
        (Json.WellFormedObject.wellFormed hwell hvalue) with hsame | ⟨p, hp, inner, hinner⟩
    · rw [hget, hsame]
    · obtain ⟨token, htoken, hp⟩ := mem_pointers_inside.mp (mem_pointers_under.mp hp)
      refine absurd ?_ (horderly.apart [] hnil final (by rw [Json.at?]) token key p hkey hp inner)
      rw [List.nil_append, at?_arr htoken hfirst, at?_obj hget, hinner]

/-- A condition of a list that is settled itself. -/
theorem resettles_condition {C : Settling} (hnil : [] ∈ C.pointers) {items final : List Json}
    (heq : C.settle t₁ (.arr items) = .arr final) (hfinal : (Json.arr final).WellFormed)
    (horderly : Orderly C.pointers (.arr final)) {i : Nat} {members : Json.Members}
    (hitem : items[i]? = some (.obj members)) (hwell : (Json.obj members).WellFormed)
    (ih : ∀ key value, SortedMap.get? members key = some value → Resettles t₁ t₂ value) :
    (C.own (.arr final)).onItem t₂ i (.obj members) = C.onItem t₁ i (.obj members) := by
  obtain ⟨first, hfirst, hsorted, hget⟩ := C.exists_onItem_obj t₁ i members
  obtain ⟨again, hagain, hsorted', hget'⟩ := (C.own (.arr final)).exists_onItem_obj t₂ i members
  have hmembers := Json.WellFormedObject.sorted hwell
  have hsettled : final[i]? = some (.obj first) := by
    rw [settle_arr] at heq
    rw [← Json.arr.inj heq, List.getElem?_mapIdx, hitem, Option.map_some, hfirst]
  have hwellFirst : (Json.obj first).WellFormed :=
    Json.wellFormed_arr.mp hfinal _ (List.mem_of_getElem? hsettled)
  have hinside := horderly.inside hsettled
  have hkept {key : String} (hkey : key = "type" ∨ key = "status") :
      SortedMap.get? members key = SortedMap.get? first key :=
    get?_eq_of_apart horderly hnil hwell hsettled hkey
      (hget key (by rcases hkey with rfl | rfl <;> decide))
  have htime : SortedMap.get? again transitionKey = SortedMap.get? first transitionKey := by
    have hstart : SortedMap.get? members transitionKey = SortedMap.get? first transitionKey ∨
        (transitionTime? (.obj first)).isSome = true ∧ [] ∈ C.pointers := by
      cases hmissing : transitionTime? (.obj first) with
      | some time => exact Or.inr ⟨rfl, hnil⟩
      | none => exact Or.inl (time_of_missing hmissing i hfirst)
    obtain ⟨again', hagain', htime⟩ := time_of_own horderly hnil hsettled hwellFirst t₂
      (fun p hp => hp) (hkept (Or.inl rfl)) (hkept (Or.inr rfl)) hstart
    obtain rfl := Json.obj.inj (hagain.symm.trans hagain')
    exact htime
  rw [hagain, hfirst]
  refine congrArg Json.obj (SortedMap.ext (hsorted' hmembers) (hsorted hmembers) fun key => ?_)
  by_cases hkey : key = transitionKey
  · rw [hkey, htime]
  · rw [hget' key hkey, hget key hkey]
    cases hvalue : SortedMap.get? members key with
    | none => rfl
    | some value =>
      have hkeyValue : SortedMap.get? first key =
          some (((C.inside i).under key).settle t₁ value) := by
        rw [hget key hkey, hvalue, Option.map_some]
      rw [Option.map_some, Option.map_some, own_inside hsettled, own_under hkeyValue]
      exact congrArg some (ih key value hvalue ((C.inside i).under key)
        (Json.WellFormedObject.wellFormed hwell hvalue)
        (Json.WellFormedObject.wellFormed hwellFirst hkeyValue) (hinside.under hkeyValue))

theorem resettles_arr {items : List Json} (ih : ∀ item ∈ items, Resettles t₁ t₂ item)
    (ihBelow : ∀ members, .obj members ∈ items → ∀ key value,
      SortedMap.get? members key = some value → Resettles t₁ t₂ value) :
    Resettles t₁ t₂ (.arr items) := by
  intro C hjson hfinal horderly
  have heq := C.settle_arr t₁ items
  rw [heq] at hfinal horderly ⊢
  rw [settle_arr]
  refine congrArg Json.arr (List.ext_getElem? fun i => ?_)
  rw [List.getElem?_mapIdx, List.getElem?_mapIdx]
  cases hitem : items[i]? with
  | none => rfl
  | some item =>
    have hmem := List.mem_of_getElem? hitem
    have hwell := Json.wellFormed_arr.mp hjson item hmem
    refine congrArg some ?_
    by_cases hnil : [] ∈ C.pointers
    · -- The conditions in the result have types, so they are objects, and were objects before.
      have htyped := (horderly.distinguished [] hnil _ (by rw [Json.at?])).typed
        (C.onItem t₁ i item) (List.mem_of_getElem? (i := i) (by
          rw [List.getElem?_mapIdx, hitem, Option.map_some]))
      have hobject : item.isObject = true := by
        rw [← C.isObject_onItem t₁ i item]
        cases hfinalItem : C.onItem t₁ i item with
        | obj members => rfl
        | _ =>
          rw [hfinalItem] at htyped
          cases htyped
      cases item with
      | obj members =>
        exact resettles_condition hnil heq hfinal horderly hitem hwell (ihBelow members hmem)
      | _ => cases hobject
    · exact resettles_item hnil heq hfinal horderly hitem hwell (ih item hmem)

/-- **Settling again changes nothing.** -/
theorem settle_again (t₁ t₂ : Timestamp) (json : Json) : Resettles t₁ t₂ json := by
  induction json using (measure (sizeOf : Json → Nat)).wf.induction with
  | _ json ih =>
    cases json with
    | obj members =>
      exact resettles_obj fun key value hvalue =>
        ih value (Json.sizeOf_lt_of_mem_obj (SortedMap.mem_of_get? hvalue))
    | arr items =>
      refine resettles_arr (fun item hitem => ih item (Json.sizeOf_lt_of_mem_arr hitem)) ?_
      intro members hmem key value hvalue
      exact ih value (Nat.lt_trans
        (Json.sizeOf_lt_of_mem_obj (SortedMap.mem_of_get? hvalue)) (Json.sizeOf_lt_of_mem_arr hmem))
    | _ => exact resettles_scalar trivial

/-! ## Merging and settling again -/

/-- A patch that was merged and settled at one time, and is merged into what came out and settled
against it at another, gives it again. -/
def MergesAgain (t₁ t₂ : Timestamp) (patch : Json) : Prop :=
  ∀ (C : Settling) (target final : Json), patch.WellFormed → target.WellFormed →
    C.settle t₁ (Json.mergePatch patch target) = final → final.WellFormed →
    Orderly C.pointers final → (C.own final).settle t₂ (Json.mergePatch patch final) = final

/-- A member to which a patch is merged again, if the patch names it. -/
theorem mergeOption_again {C D : Settling} {patch target final : Option Json}
    (ih : ∀ p, patch = some p → p.WellFormed ∧ MergesAgain t₁ t₂ p)
    (htarget : ∀ v, target = some v → v.WellFormed)
    (hfinal : final = (Json.mergeOption patch target).map (C.settle t₁))
    (hwell : ∀ v, final = some v → v.WellFormed ∧ Orderly C.pointers v)
    (hD : ∀ v, final = some v → D = C.own v) :
    (Json.mergeOption patch final).map (D.settle t₂) = final := by
  cases patch with
  | none =>
    rw [Json.mergeOption]
    cases hvalue : final with
    | none => rfl
    | some v =>
      obtain ⟨hv, horderly⟩ := hwell v hvalue
      rw [Option.map_some, hD v hvalue, settle_own hv horderly.distinguished]
  | some p =>
    obtain ⟨hp, hmerges⟩ := ih p rfl
    rw [Json.mergeOption] at hfinal ⊢
    split at hfinal
    · next hnull => rw [hfinal, if_pos hnull]; rfl
    · next hnull =>
      rw [if_neg hnull, hfinal, Option.map_some, Option.map_some, Option.getD_some]
      obtain ⟨hv, horderly⟩ := hwell _ hfinal
      rw [hD _ hfinal]
      exact congrArg some (hmerges C _ _ hp (Json.wellFormed_getD htarget) rfl hv horderly)

theorem mergesAgain_obj {patch : Json.Members}
    (ih : ∀ key value, SortedMap.get? patch key = some value → MergesAgain t₁ t₂ value) :
    MergesAgain t₁ t₂ (.obj patch) := by
  intro C target final hpatch htarget heq hfinal horderly
  have hsortedPatch := Json.WellFormedObject.sorted hpatch
  have hmembers := Json.wellFormedObject_members htarget
  rw [Json.mergePatch] at heq ⊢
  obtain ⟨first, hfirst, -, hget⟩ :=
    C.exists_settle_obj t₁ (Json.mergePatchMembers patch target.members)
  obtain rfl := hfirst.symm.trans heq
  obtain ⟨again, hagain, hsorted, hget'⟩ :=
    (C.own (.obj first)).exists_settle_obj t₂ (Json.mergePatchMembers patch first)
  have hfirstSorted := Json.WellFormedObject.sorted hfinal
  rw [Json.members, hagain]
  refine congrArg Json.obj (SortedMap.ext
    (hsorted (Json.sorted_mergePatchMembers patch hfirstSorted)) hfirstSorted fun key => ?_)
  rw [hget', Json.get?_mergePatchMembers hsortedPatch, Json.mergedMember]
  have htargetKey : ∀ v, SortedMap.get? target.members key = some v → v.WellFormed :=
    fun v hv => hmembers.wellFormed hv
  refine mergeOption_again (C := C.under key)
    (fun p hp => ⟨Json.WellFormedObject.wellFormed hpatch hp, ih key p hp⟩) htargetKey ?_ ?_
    fun v hv => own_under hv
  · rw [hget, Json.get?_mergePatchMembers hsortedPatch]
    rfl
  · intro v hv
    exact ⟨Json.WellFormedObject.wellFormed hfinal hv, horderly.under hv⟩

/-- **Merging the same patch and settling again changes nothing.** -/
theorem merge_again (t₁ t₂ : Timestamp) (patch : Json) : MergesAgain t₁ t₂ patch := by
  induction patch using (measure (sizeOf : Json → Nat)).wf.induction with
  | _ patch ih =>
    have hreplaced (h : ∀ target, Json.mergePatch patch target = patch) :
        MergesAgain t₁ t₂ patch := by
      rintro C target final hpatch - rfl hfinal horderly
      rw [h] at hfinal horderly ⊢
      rw [h]
      exact settle_again t₁ t₂ patch C hpatch hfinal horderly
    cases patch with
    | obj members =>
      exact mergesAgain_obj fun key value hvalue =>
        ih value (Json.sizeOf_lt_of_mem_obj (SortedMap.mem_of_get? hvalue))
    | _ => exact hreplaced fun _ => rfl

end Settling

end Patch

end ControlPlane
