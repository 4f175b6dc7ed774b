import ControlPlane.Patch.TransitionTime
import ControlPlane.Proofs.WellFormed

/-!
# Settling the times of conditions

A patch settles the times of the conditions in one list after the other. What that does to an object
it does to each of its members, and what it does to a list, to each of its items; anything else it
leaves as it is. So it can be followed key by key.

* `Patch.Settling`, `Patch.Settling.settle`: the lists to settle, and settling them.
* `Patch.Settling.exists_settle_obj`, `Patch.Settling.settle_arr`: what it does to members and to
  items.
* `Patch.Settling.settle_own`: settling against its own lists changes nothing in a value.
-/

namespace ControlPlane

namespace Patch

/-- A list with the times of its conditions settled; any other value as it is. -/
def settleItems (previous : List Json) (now : Timestamp) : Json → Json
  | .arr items => .arr (items.map (settleCondition previous now))
  | value => value

/-- The conditions at a pointer; none if there is no list. -/
def conditionsAt (json : Json) (pointer : Pointer) : List Json :=
  ((json.at? pointer).bind Json.items?).getD []

theorem settleConditions_eq (earlier : Json) (now : Timestamp) (pointer : Pointer) (json : Json) :
    settleConditions earlier now pointer json =
      json.modifyAt (settleItems (conditionsAt earlier pointer) now) pointer := by
  have hitems : (fun value => match value with
      | .arr items => .arr (items.map (settleCondition (conditionsAt earlier pointer) now))
      | value => value) = settleItems (conditionsAt earlier pointer) now := by
    funext value
    cases value <;> rfl
  rw [← hitems]
  rfl

/-- The lists to settle: the pointers that lead to them, with the conditions there were before. -/
abbrev Settling := List (Pointer × List Json)

namespace Settling

/-- Settles the lists, one after the other. -/
def settle (C : Settling) (now : Timestamp) (json : Json) : Json :=
  C.foldl (fun json e => json.modifyAt (settleItems e.2 now) e.1) json

/-- The lists of some pointers, with the conditions that a value has there. -/
def of (json : Json) (pointers : List Pointer) : Settling :=
  pointers.map fun pointer => (pointer, conditionsAt json pointer)

/-- The pointers to the lists. -/
def pointers (C : Settling) : List Pointer := C.map (·.1)

/-- The same lists with the conditions that a value has there. -/
def own (C : Settling) (json : Json) : Settling := of json C.pointers

/-- The lists below a member. -/
def under (C : Settling) (key : String) : Settling :=
  C.filterMap fun e => match e.1 with
    | [] => none
    | token :: rest => if token = key then some (rest, e.2) else none

/-- The lists below an item. -/
def inside (C : Settling) (i : Nat) : Settling :=
  C.filterMap fun e => match e.1 with
    | [] => none
    | token :: rest => if Pointer.position? token = some i then some (rest, e.2) else none

variable {C : Settling} {now : Timestamp}

theorem settle_cons (e : Pointer × List Json) (C : Settling) (now : Timestamp) (json : Json) :
    settle (e :: C) now json = C.settle now (json.modifyAt (settleItems e.2 now) e.1) := rfl

/-! ## What is left as it is -/

theorem settle_scalar (C : Settling) (now : Timestamp) {json : Json} (h : json.IsScalar) :
    C.settle now json = json := by
  induction C with
  | nil => rfl
  | cons e C ih =>
    obtain ⟨pointer, previous⟩ := e
    have hfirst : json.modifyAt (settleItems previous now) pointer = json := by
      cases json with
      | obj members => exact h.elim
      | arr items => exact h.elim
      | _ => cases pointer <;> rfl
    rw [settle_cons, hfirst, ih]

/-! ## Objects -/

theorem under_cons (e : Pointer × List Json) (C : Settling) (key : String) :
    under (e :: C) key = under [e] key ++ C.under key := by
  rw [under, under, under, ← List.filterMap_append]
  rfl

theorem settle_append (C D : Settling) (now : Timestamp) (json : Json) :
    settle (C ++ D) now json = D.settle now (C.settle now json) := List.foldl_append ..

theorem under_singleton (token : String) (rest : Pointer) (previous : List Json) (key : String) :
    under [(token :: rest, previous)] key = if token = key then [(rest, previous)] else [] := by
  by_cases h : token = key
  · simp [under, h]
  · simp [under, h]

/-- One list settled in an object, key by key. -/
theorem exists_modifyAt_obj (pointer : Pointer) (previous : List Json) (now : Timestamp)
    (members : Json.Members) :
    ∃ members', (Json.obj members).modifyAt (settleItems previous now) pointer = .obj members' ∧
      (SortedMap.Sorted members → SortedMap.Sorted members') ∧
      ∀ key, SortedMap.get? members' key =
        (SortedMap.get? members key).map ((under [(pointer, previous)] key).settle now) := by
  cases pointer with
  | nil => exact ⟨members, rfl, id, fun key => Option.map_id'.symm⟩
  | cons token rest =>
    rw [Json.modifyAt]
    split
    · next value hvalue =>
      refine ⟨_, rfl, fun h => SortedMap.sorted_insert h _ _, fun key => ?_⟩
      rw [under_singleton]
      by_cases hkey : token = key
      · subst hkey
        rw [SortedMap.get?_insert_self, hvalue, if_pos rfl]
        rfl
      · rw [SortedMap.get?_insert_of_ne _ _ (Ne.symm hkey), if_neg hkey]
        exact Option.map_id'.symm
    · next hnone =>
      refine ⟨members, rfl, id, fun key => ?_⟩
      rw [under_singleton]
      by_cases hkey : token = key
      · subst hkey
        rw [hnone, Option.map_none]
      · rw [if_neg hkey]
        exact Option.map_id'.symm

/-- **What settling does to an object it does to each of its members.** -/
theorem exists_settle_obj (C : Settling) (now : Timestamp) (members : Json.Members) :
    ∃ members', C.settle now (.obj members) = .obj members' ∧
      (SortedMap.Sorted members → SortedMap.Sorted members') ∧
      ∀ key, SortedMap.get? members' key =
        (SortedMap.get? members key).map ((C.under key).settle now) := by
  induction C generalizing members with
  | nil => exact ⟨members, rfl, id, fun key => Option.map_id'.symm⟩
  | cons e C ih =>
    obtain ⟨pointer, previous⟩ := e
    obtain ⟨first, hfirst, hsorted, hget⟩ := exists_modifyAt_obj pointer previous now members
    obtain ⟨members', hmembers', hsorted', hget'⟩ := ih first
    refine ⟨members', ?_, fun h => hsorted' (hsorted h), fun key => ?_⟩
    · rw [settle_cons, hfirst, hmembers']
    · rw [hget', hget, Option.map_map, under_cons (pointer, previous) C]
      refine congrArg (Option.map · _) (funext fun value => ?_)
      exact (settle_append ..).symm

/-! ## Lists -/

/-- What settling does to the item at a position: the item is settled as a condition of the list, or
a list in it is settled. -/
def onItem (C : Settling) (now : Timestamp) (i : Nat) (item : Json) : Json :=
  C.foldl (fun item e => match e.1 with
    | [] => settleCondition e.2 now item
    | token :: rest =>
      if Pointer.position? token = some i then item.modifyAt (settleItems e.2 now) rest
      else item) item

theorem onItem_cons (e : Pointer × List Json) (C : Settling) (now : Timestamp) (i : Nat)
    (item : Json) : onItem (e :: C) now i item = C.onItem now i (onItem [e] now i item) := rfl

theorem onItem_below (token : String) (rest : Pointer) (previous : List Json) (now : Timestamp)
    (i : Nat) : onItem [(token :: rest, previous)] now i = fun item =>
      if Pointer.position? token = some i then item.modifyAt (settleItems previous now) rest
      else item := rfl

/-- **What settling does to a list it does to each of its items.** -/
theorem settle_arr (C : Settling) (now : Timestamp) (items : List Json) :
    C.settle now (.arr items) = .arr (items.mapIdx (C.onItem now)) := by
  induction C generalizing items with
  | nil =>
    refine congrArg Json.arr (List.ext_getElem? fun i => ?_)
    rw [List.getElem?_mapIdx]
    exact Option.map_id'.symm
  | cons e C ih =>
    obtain ⟨pointer, previous⟩ := e
    have hfirst : (Json.arr items).modifyAt (settleItems previous now) pointer =
        .arr (items.mapIdx (onItem [(pointer, previous)] now)) := by
      cases pointer with
      | nil =>
        refine congrArg Json.arr (List.ext_getElem? fun i => ?_)
        rw [List.getElem?_mapIdx, List.getElem?_map]
        rfl
      | cons token rest =>
        rw [Json.modifyAt]
        split
        · next j hj =>
          refine congrArg Json.arr (List.ext_getElem? fun i => ?_)
          rw [List.getElem?_mapIdx, List.getElem?_modify, onItem_below, hj]
          simp only [Option.some.injEq]
          rfl
        · next hj =>
          refine congrArg Json.arr (List.ext_getElem? fun i => ?_)
          rw [List.getElem?_mapIdx, onItem_below, hj]
          simp only [reduceCtorEq, if_false]
          exact Option.map_id'.symm
    rw [settle_cons, hfirst, ih, List.mapIdx_mapIdx]
    rfl

/-- A list that is not settled itself: only lists in its items are. -/
theorem onItem_inside {C : Settling} (hC : [] ∉ C.pointers) (now : Timestamp) (i : Nat)
    (item : Json) : C.onItem now i item = (C.inside i).settle now item := by
  induction C generalizing item with
  | nil => rfl
  | cons e C ih =>
    obtain ⟨pointer, previous⟩ := e
    have hrest : [] ∉ pointers C := fun h => hC (List.mem_cons_of_mem _ h)
    cases pointer with
    | nil => exact absurd List.mem_cons_self hC
    | cons token rest =>
      rw [onItem_cons, ih hrest, onItem_below]
      by_cases h : Pointer.position? token = some i
      · simp [inside, h, settle_cons]
      · simp [inside, h]

/-! ## Below a member and below an item -/

theorem mem_under {C : Settling} {key : String} {e : Pointer × List Json} :
    e ∈ C.under key ↔ (key :: e.1, e.2) ∈ C := by
  rw [under, List.mem_filterMap]
  constructor
  · rintro ⟨⟨pointer, previous⟩, hmem, he⟩
    cases pointer with
    | nil => cases he
    | cons token rest =>
      dsimp only at he
      split at he
      · next htoken =>
        obtain rfl := Option.some.inj he
        exact htoken ▸ hmem
      · cases he
  · intro hmem
    exact ⟨_, hmem, if_pos rfl⟩

theorem mem_inside {C : Settling} {i : Nat} {e : Pointer × List Json} :
    e ∈ C.inside i ↔ ∃ token, Pointer.position? token = some i ∧ (token :: e.1, e.2) ∈ C := by
  rw [inside, List.mem_filterMap]
  constructor
  · rintro ⟨⟨pointer, previous⟩, hmem, he⟩
    cases pointer with
    | nil => cases he
    | cons token rest =>
      dsimp only at he
      split at he
      · next htoken =>
        obtain rfl := Option.some.inj he
        exact ⟨token, htoken, hmem⟩
      · cases he
  · rintro ⟨token, htoken, hmem⟩
    exact ⟨_, hmem, if_pos htoken⟩

theorem mem_pointers {C : Settling} {pointer : Pointer} :
    pointer ∈ C.pointers ↔ ∃ previous, (pointer, previous) ∈ C := by
  rw [pointers, List.mem_map]
  constructor
  · rintro ⟨e, he, rfl⟩
    exact ⟨e.2, he⟩
  · rintro ⟨previous, h⟩
    exact ⟨_, h, rfl⟩

theorem mem_pointers_under {C : Settling} {key : String} {pointer : Pointer} :
    pointer ∈ (C.under key).pointers ↔ key :: pointer ∈ C.pointers := by
  simp only [mem_pointers, mem_under]

theorem mem_pointers_inside {C : Settling} {i : Nat} {pointer : Pointer} :
    pointer ∈ (C.inside i).pointers ↔
      ∃ token, Pointer.position? token = some i ∧ token :: pointer ∈ C.pointers := by
  simp only [mem_pointers, mem_inside]
  constructor
  · rintro ⟨previous, token, htoken, h⟩
    exact ⟨token, htoken, previous, h⟩
  · rintro ⟨token, htoken, previous, h⟩
    exact ⟨previous, token, htoken, h⟩

theorem own_eq_map (C : Settling) (json : Json) :
    C.own json = C.map fun e => (e.1, conditionsAt json e.1) := List.map_map

theorem pointers_of (json : Json) (pointers : List Pointer) :
    (of json pointers).pointers = pointers := by
  rw [Settling.pointers, of, List.map_map]
  exact List.map_id _

theorem pointers_own (C : Settling) (json : Json) : (C.own json).pointers = C.pointers :=
  pointers_of json C.pointers

theorem own_of (json json' : Json) (pointers : List Pointer) :
    (of json pointers).own json' = of json' pointers := by
  rw [own, pointers_of]

theorem conditionsAt_obj {members : Json.Members} {key : String} {value : Json}
    (h : SortedMap.get? members key = some value) (pointer : Pointer) :
    conditionsAt (.obj members) (key :: pointer) = conditionsAt value pointer := by
  rw [conditionsAt, Json.at?, h, Option.bind_some, conditionsAt]

theorem conditionsAt_arr {items : List Json} {i : Nat} {item : Json} {token : String}
    (htoken : Pointer.position? token = some i) (h : items[i]? = some item) (pointer : Pointer) :
    conditionsAt (.arr items) (token :: pointer) = conditionsAt item pointer := by
  rw [conditionsAt, Json.at?, htoken, Option.bind_some, h, Option.bind_some, conditionsAt]

/-- What an object has below a member is what the member has. -/
theorem own_under {C : Settling} {members : Json.Members} {key : String} {value : Json}
    (h : SortedMap.get? members key = some value) :
    (C.own (.obj members)).under key = (C.under key).own value := by
  rw [own_eq_map, own_eq_map, under, under, List.filterMap_map, List.map_filterMap]
  refine congrArg (List.filterMap · C) (funext fun e => ?_)
  obtain ⟨pointer, previous⟩ := e
  cases pointer with
  | nil => rfl
  | cons token rest =>
    by_cases htoken : token = key
    · subst htoken
      simp [conditionsAt_obj h]
    · simp [htoken]

/-- What a list has below an item is what the item has. -/
theorem own_inside {C : Settling} {items : List Json} {i : Nat} {item : Json}
    (h : items[i]? = some item) : (C.own (.arr items)).inside i = (C.inside i).own item := by
  rw [own_eq_map, own_eq_map, inside, inside, List.filterMap_map, List.map_filterMap]
  refine congrArg (List.filterMap · C) (funext fun e => ?_)
  obtain ⟨pointer, previous⟩ := e
  cases pointer with
  | nil => rfl
  | cons token rest =>
    by_cases htoken : Pointer.position? token = some i
    · simp [htoken, conditionsAt_arr htoken h]
    · simp [htoken]

end Settling

/-! ## Against its own conditions -/

/-- The conditions name the same type. -/
def sameType (a b : Json) : Bool :=
  match a.member? "type", b.member? "type" with
  | some x, some y => x == y
  | _, _ => false

/-- Every condition has a type, and no two have the same. -/
structure Distinguished (conditions : List Json) : Prop where
  typed : ∀ c ∈ conditions, (c.member? "type").isSome = true
  distinct : conditions.Pairwise fun a b => sameType a b = false

theorem distinguished_singleton {condition : Json}
    (h : (condition.member? "type").isSome = true) : Distinguished [condition] where
  typed c hc := by
    obtain rfl := List.mem_singleton.mp hc
    exact h
  distinct := List.pairwise_singleton _ _

/-- Among conditions that are told apart by their types, a condition is its own predecessor. -/
theorem Distinguished.prior?_eq {conditions : List Json} (h : Distinguished conditions)
    {c c' : Json} (hc : c ∈ conditions) (htype : c'.member? "type" = c.member? "type") :
    prior? conditions c' = some c := by
  obtain ⟨type, htyped⟩ := Option.isSome_iff_exists.mp (h.typed c hc)
  obtain ⟨before, after, rfl⟩ := List.append_of_mem hc
  have hbefore : before.find? (fun p => (p.member? "type").any (· == type)) = none := by
    rw [List.find?_eq_none]
    intro p hp
    have hne : sameType p c = false :=
      (List.pairwise_append.mp h.distinct).2.2 p hp c List.mem_cons_self
    rw [sameType, htyped] at hne
    cases hmember : p.member? "type" with
    | none => simp
    | some x =>
      rw [hmember] at hne
      simpa using hne
  rw [prior?, htype, htyped, Option.bind_some, List.find?_append, hbefore, Option.none_or,
    List.find?_cons_of_pos]
  simp [htyped, Json.beq_self]

theorem sameOption_self (value : Option Json) : sameOption value value = true := by
  cases value with
  | none => rfl
  | some value => exact Json.beq_self value

/-- A condition with the type and the status of one of the earlier conditions gets its time. -/
theorem Distinguished.newTime?_eq {conditions : List Json} (h : Distinguished conditions)
    {c c' : Json} (hc : c ∈ conditions) (htype : c'.member? "type" = c.member? "type")
    (hstatus : c'.member? "status" = c.member? "status") (now : Timestamp) :
    newTime? conditions now c' = transitionTime? c := by
  simp only [newTime?, h.prior?_eq hc htype, hstatus, sameOption_self, if_true]

theorem Distinguished.settleCondition_eq {conditions : List Json} (h : Distinguished conditions)
    {c : Json} (hc : c ∈ conditions) (hwell : c.WellFormed) (now : Timestamp) :
    settleCondition conditions now c = c := by
  cases c with
  | obj members =>
    rw [settleCondition, h.newTime?_eq hc rfl rfl]
    split
    · next time htime =>
      have hget : SortedMap.get? members transitionKey = some time :=
        (Option.filter_eq_some_iff.mp htime).1
      rw [SortedMap.insert_eq_self (Json.WellFormedObject.sorted hwell) hget]
    · rfl
  | _ => rfl

theorem Distinguished.settleItems_eq {conditions : List Json} (h : Distinguished conditions)
    (hwell : (Json.arr conditions).WellFormed) (now : Timestamp) :
    settleItems conditions now (.arr conditions) = .arr conditions := by
  refine congrArg Json.arr ((List.map_congr_left fun c hc => ?_).trans (List.map_id conditions))
  exact h.settleCondition_eq hc (Json.wellFormed_arr.mp hwell c hc) now

namespace Settling

variable {C : Settling} {json : Json}

/-- Settling changes nothing if it changes none of the lists. -/
theorem settle_eq_self (hjson : json.WellFormed) {now : Timestamp}
    (h : ∀ e ∈ C, ∀ items, json.at? e.1 = some (.arr items) →
      settleItems e.2 now (.arr items) = .arr items) : C.settle now json = json := by
  induction C with
  | nil => rfl
  | cons e C ih =>
    have hfirst : json.modifyAt (settleItems e.2 now) e.1 = json := by
      refine Json.modifyAt_eq_self hjson fun value hvalue => ?_
      cases value with
      | arr items => exact h e List.mem_cons_self items hvalue
      | _ => rfl
    rw [settle_cons, hfirst]
    exact ih fun e' he' => h e' (List.mem_cons_of_mem _ he')

/-- **Settling against its own lists changes nothing in a value**, if the conditions in them are
told apart by their types. -/
theorem settle_own (hjson : json.WellFormed)
    (h : ∀ pointer ∈ C.pointers, ∀ items, json.at? pointer = some (.arr items) →
      Distinguished items) (now : Timestamp) : (C.own json).settle now json = json := by
  refine settle_eq_self hjson fun e he items hitems => ?_
  obtain ⟨pointer, hpointer, rfl⟩ := List.mem_map.mp he
  have hown : conditionsAt json pointer = items := by
    rw [conditionsAt, hitems]
    rfl
  rw [hown]
  exact (h pointer hpointer items hitems).settleItems_eq (Json.wellFormed_at? hjson hitems) now

/-! ## Well-formed results -/

theorem wellFormed_settleCondition {previous : List Json} (hprevious : ∀ p ∈ previous, p.WellFormed)
    (now : Timestamp) {c : Json} (hc : c.WellFormed) :
    (settleCondition previous now c).WellFormed := by
  cases c with
  | obj members =>
    rw [settleCondition]
    split
    · next time htime =>
      refine Json.WellFormedObject.insert hc _ ?_
      have hnow : (Json.str now.seconds).WellFormed := trivial
      unfold newTime? at htime
      split at htime
      · next prior hprior =>
        split at htime
        · obtain ⟨type, -, hfind⟩ := Option.bind_eq_some_iff.mp hprior
          have hwell := Json.wellFormedObject_members
            (hprevious prior (List.mem_of_find?_eq_some hfind))
          exact hwell.wellFormed (Option.filter_eq_some_iff.mp htime).1
        · obtain rfl := Option.some.inj htime
          exact hnow
      · split at htime
        · cases htime
        · obtain rfl := Option.some.inj htime
          exact hnow
    · exact hc
  | _ => exact hc

/-- Settling against well-formed conditions keeps a value well formed. -/
theorem wellFormed_settle (hC : ∀ e ∈ C, ∀ p ∈ e.2, p.WellFormed) (now : Timestamp)
    (hjson : json.WellFormed) : (C.settle now json).WellFormed := by
  induction C generalizing json with
  | nil => exact hjson
  | cons e C ih =>
    rw [settle_cons]
    refine ih (fun e' he' => hC e' (List.mem_cons_of_mem _ he')) ?_
    refine Json.wellFormed_modifyAt (fun value hvalue => ?_) hjson
    cases value with
    | arr items =>
      refine Json.wellFormed_arr.mpr fun item hitem => ?_
      obtain ⟨c, hc, rfl⟩ := List.mem_map.mp hitem
      exact wellFormed_settleCondition (hC e List.mem_cons_self) now
        (Json.wellFormed_arr.mp hvalue c hc)
    | _ => exact hvalue

theorem wellFormed_of (hjson : json.WellFormed) (pointers : List Pointer) :
    ∀ e ∈ of json pointers, ∀ p ∈ e.2, p.WellFormed := by
  intro e he p hp
  obtain ⟨pointer, -, rfl⟩ := List.mem_map.mp he
  cases hat : json.at? pointer with
  | none =>
    rw [conditionsAt, hat] at hp
    cases hp
  | some value =>
    have hvalue := Json.wellFormed_at? hjson hat
    cases value with
    | arr items =>
      rw [conditionsAt, hat] at hp
      exact Json.wellFormed_arr.mp hvalue p hp
    | _ =>
      rw [conditionsAt, hat] at hp
      cases hp

end Settling

end Patch

end ControlPlane
