import ControlPlane.Proofs.SettledForm
import ControlPlane.Proofs.StrategicItems

/-!
# A list of conditions that is settled

Settling follows several pointers, one after the other. A list that one of them leads to is settled
condition by condition, and the others make no difference to it, unless one of them leads into a
condition of the list, or it is itself in the time of a condition in another list. Each condition
then has the time that the conditions before ask for, and its other members are what they were. This
is still so when the value is decoded by its shape.

* `Patch.Timed`, `Patch.timed_settleCondition`: a condition before and after it is settled.
* `Patch.Settling.Alone`: a list that no other pointer interferes with.
* `Patch.Settling.SettledAt.listAt?_eq`: what settling makes of such a list.
* `Shape.Times`, `Shape.times_decode?`: what is left of it in the normal form.
-/

namespace ControlPlane

namespace Patch

variable {previous : List Json} {now : Timestamp} {c : Json}

/-! ## A condition -/

/-- A condition before and after it is settled: what it was apart from its time, and the time that
the conditions of its type ask for, if there is one of them or none. -/
structure Timed (previous : List Json) (now : Timestamp) (before after : Json) : Prop where
  /-- What is no object stays as it is. -/
  eq_of_not_object : before.isObject = false → after = before
  isObject_eq : after.isObject = before.isObject
  member_eq : ∀ key, key ≠ transitionKey → after.member? key = before.member? key
  /-- With the status that it had before, the condition has the time that it had before. -/
  kept : ∀ type prior time, after.member? "type" = some type →
    previous.filter (carries "type" type) = [prior] →
    sameOption (prior.member? "status") (after.member? "status") = true →
    transitionTime? prior = some time → after.member? transitionKey = some time
  /-- With another status, it has the time of the patch. -/
  moved : ∀ type prior, after.member? "type" = some type →
    previous.filter (carries "type" type) = [prior] →
    sameOption (prior.member? "status") (after.member? "status") = false →
    after.member? transitionKey = some (.str now.seconds)
  /-- If there was none of its type, it has the time that it was given, or else that of the
  patch. -/
  given : ∀ type, after.member? "type" = some type → previous.filter (carries "type" type) = [] →
    after.member? transitionKey = some ((transitionTime? before).getD (.str now.seconds))

theorem prior?_eq (previous : List Json) {type : Json} (h : c.member? "type" = some type) :
    prior? previous c = (previous.filter (carries "type" type)).head? := by
  rw [prior?, h, Option.bind_some, List.head?_filter]
  rfl

/-- **What settling makes of a condition.** -/
theorem timed_settleCondition (previous : List Json) (now : Timestamp) (c : Json) :
    Timed previous now c (settleCondition previous now c) := by
  cases c with
  | obj members =>
    obtain ⟨members', heq, -, hget, htime⟩ :=
      Settling.exists_settleCondition previous now members
    rw [heq]
    have htype : (Json.obj members').member? "type" = (Json.obj members).member? "type" :=
      hget "type" (by decide)
    have hstatus : (Json.obj members').member? "status" = (Json.obj members).member? "status" :=
      hget "status" (by decide)
    have hnew {time : Json} (h : newTime? previous now (.obj members) = some time) :
        (Json.obj members').member? transitionKey = some time := by
      rw [Json.member?, Json.members, htime, h, Option.some_or]
    refine ⟨fun h => (by cases h), rfl, hget, ?_, ?_, ?_⟩
    · intro type prior time hmember hprior hsame hpriorTime
      have hfirst := prior?_eq previous (htype.symm.trans hmember)
      rw [hprior, List.head?_cons] at hfirst
      rw [hstatus] at hsame
      refine hnew ?_
      simp only [newTime?, hfirst]
      rw [if_pos hsame, hpriorTime]
    · intro type prior hmember hprior hsame
      have hfirst := prior?_eq previous (htype.symm.trans hmember)
      rw [hprior, List.head?_cons] at hfirst
      rw [hstatus] at hsame
      refine hnew ?_
      simp only [newTime?, hfirst]
      rw [if_neg (by simp [hsame])]
    · intro type hmember hprior
      have hfirst := prior?_eq previous (htype.symm.trans hmember)
      rw [hprior, List.head?_nil] at hfirst
      cases hgiven : transitionTime? (.obj members) with
      | none =>
        refine hnew ?_
        simp [newTime?, hfirst, hgiven]
      | some time =>
        have hnone : newTime? previous now (.obj members) = none := by
          simp [newTime?, hfirst, hgiven]
        rw [Json.member?, Json.members, htime, hnone, Option.none_or]
        exact (Option.filter_eq_some_iff.mp hgiven).1
  | _ =>
    exact ⟨fun _ => rfl, rfl, fun _ _ => rfl, fun _ _ _ h => (by cases h),
      fun _ _ h => (by cases h), fun _ h => (by cases h)⟩

/-- Settling a condition twice is settling it once. -/
theorem settleCondition_settleCondition (previous : List Json) (now : Timestamp) (c : Json) :
    settleCondition previous now (settleCondition previous now c) =
      settleCondition previous now c := by
  cases c with
  | obj members =>
    cases hnew : newTime? previous now (.obj members) with
    | none => simp only [settleCondition, hnew]
    | some time =>
      have htype : (Json.obj (SortedMap.insert members transitionKey time)).member? "type" =
          (Json.obj members).member? "type" := SortedMap.get?_insert_of_ne _ _ (by decide)
      have hstatus : (Json.obj (SortedMap.insert members transitionKey time)).member? "status" =
          (Json.obj members).member? "status" := SortedMap.get?_insert_of_ne _ _ (by decide)
      have htime : (Json.obj (SortedMap.insert members transitionKey time)).member? transitionKey =
          some time := SortedMap.get?_insert_self ..
      have hagain : newTime? previous now (.obj (SortedMap.insert members transitionKey time)) =
          some time ∨
          newTime? previous now (.obj (SortedMap.insert members transitionKey time)) = none := by
        have hnull := Settling.isNull_newTime? hnew
        have hprior : prior? previous (.obj (SortedMap.insert members transitionKey time)) =
            prior? previous (.obj members) := by
          rw [prior?, prior?, htype]
        unfold newTime? at hnew ⊢
        rw [hprior, hstatus]
        cases hfirst : prior? previous (.obj members) with
        | some first =>
          rw [hfirst] at hnew
          exact Or.inl hnew
        | none =>
          refine Or.inr (if_pos ?_)
          simp [transitionTime?, htime, hnull]
      simp only [settleCondition, hnew]
      rcases hagain with hsome | hnone
      · rw [hsome]
        exact congrArg Json.obj (SortedMap.insert_insert ..)
      · rw [hnone]
  | _ => rfl

/-! ## A list at a pointer -/

/-- The list at a pointer, if there is one. -/
def listAt? (json : Json) (pointer : Pointer) : Option (List Json) :=
  (json.at? pointer).bind Json.items?

theorem listAt?_obj (members : Json.Members) (key : String) (rest : Pointer) :
    listAt? (.obj members) (key :: rest) =
      (SortedMap.get? members key).bind (listAt? · rest) := by
  rw [listAt?, Json.at?]
  cases SortedMap.get? members key <;> rfl

theorem listAt?_arr (items : List Json) (token : String) (rest : Pointer) :
    listAt? (.arr items) (token :: rest) =
      ((Pointer.position? token).bind (items[·]?)).bind (listAt? · rest) := by
  rw [listAt?, Json.at?]
  cases (Pointer.position? token).bind (items[·]?) <;> rfl

theorem listAt?_scalar {json : Json} (h : json.IsScalar) (pointer : Pointer) :
    listAt? json pointer = none := by
  cases json with
  | obj members => exact h.elim
  | arr items => exact h.elim
  | _ => cases pointer <;> rfl

namespace Settling

variable {C : Settling} {q rest : Pointer} {token key : String} {i : Nat}

/-- A list that no other of the pointers interferes with: none of them leads into an item of the
list, and the list is not in the time of a condition in another one. -/
structure Alone (C : Settling) (q : Pointer) (previous : List Json) : Prop where
  mem : (q, previous) ∈ C
  eq_of_mem : ∀ list, (q, list) ∈ C → list = previous
  none_inside : ∀ token rest, q ++ token :: rest ∈ C.pointers → Pointer.position? token = none
  not_in_time : ∀ p ∈ C.pointers, ∀ token rest, q = p ++ token :: transitionKey :: rest →
    Pointer.position? token = none

theorem Alone.under (h : Alone C (key :: rest) previous) : Alone (C.under key) rest previous where
  mem := mem_under.mpr h.mem
  eq_of_mem list hlist := h.eq_of_mem list (mem_under.mp hlist)
  none_inside token below hbelow := h.none_inside token below (mem_pointers_under.mp hbelow)
  not_in_time p hp token below heq :=
    h.not_in_time (key :: p) (mem_pointers_under.mp hp) token below (by rw [heq]; rfl)

theorem Alone.inside (h : Alone C (token :: rest) previous)
    (htoken : Pointer.position? token = some i) : Alone (C.inside i) rest previous where
  mem := mem_inside.mpr ⟨token, htoken, h.mem⟩
  eq_of_mem list hlist := by
    obtain ⟨token', htoken', hmem⟩ := mem_inside.mp hlist
    obtain rfl := Pointer.position?_injective htoken htoken'
    exact h.eq_of_mem list hmem
  none_inside below rest' hbelow := by
    obtain ⟨token', htoken', hmem⟩ := mem_pointers_inside.mp hbelow
    obtain rfl := Pointer.position?_injective htoken htoken'
    exact h.none_inside below rest' hmem
  not_in_time p hp below rest' heq := by
    obtain ⟨token', htoken', hmem⟩ := mem_pointers_inside.mp hp
    obtain rfl := Pointer.position?_injective htoken htoken'
    exact h.not_in_time (token :: p) hmem below rest' (by rw [heq]; rfl)

/-- An item of the list is settled as a condition, and no list in it is. -/
theorem onItem_alone (heq : ∀ list, ([], list) ∈ C → list = previous)
    (hnone : ∀ token rest, token :: rest ∈ C.pointers → Pointer.position? token = none)
    (i : Nat) (item : Json) : C.onItem now i item =
      if [] ∈ C.pointers then settleCondition previous now item else item := by
  induction C generalizing item with
  | nil => rfl
  | cons e C ih =>
    obtain ⟨pointer, list⟩ := e
    have hrest := ih (fun list hlist => heq list (List.mem_cons_of_mem _ hlist))
      (fun token rest hmem => hnone token rest (List.mem_cons_of_mem _ hmem))
    rw [onItem_cons, hrest]
    cases pointer with
    | nil =>
      obtain rfl := heq list List.mem_cons_self
      rw [if_pos (show [] ∈ pointers (([], list) :: C) from List.mem_cons_self)]
      show (if [] ∈ pointers C then settleCondition list now (settleCondition list now item)
        else settleCondition list now item) = settleCondition list now item
      rw [settleCondition_settleCondition, ite_self]
    | cons token rest =>
      have hskip : onItem [(token :: rest, list)] now i item = item := by
        rw [onItem_below, hnone token rest List.mem_cons_self]
        exact if_neg (by simp)
      have hmem : [] ∈ pointers ((token :: rest, list) :: C) ↔ [] ∈ pointers C := by
        simp [pointers]
      rw [hskip]
      simp only [hmem]

/-- What is no object is settled as any other part of the value. -/
theorem onItem_of_not_object {item : Json} (h : item.isObject = false) :
    C.onItem now i item = (C.inside i).settle now item := by
  induction C generalizing item with
  | nil => rfl
  | cons e C ih =>
    obtain ⟨pointer, list⟩ := e
    have hfirst : (onItem [(pointer, list)] now i item).isObject = false :=
      (isObject_onItem ..).trans h
    rw [onItem_cons, ih hfirst, inside_cons (pointer, list) C, settle_append]
    refine congrArg (settle (inside C i) now) ?_
    cases pointer with
    | nil =>
      cases item with
      | obj members => cases h
      | _ => rfl
    | cons token rest => exact onItem_inside (by simp [pointers]) now i item

/-- What settling makes of a value, as far as a pointer sees it: of an object only the member counts
that the pointer leads to. -/
def SettledAt (C : Settling) (now : Timestamp) (q : Pointer) (value settled : Json) : Prop :=
  match value with
  | .obj members => ∃ members', settled = .obj members' ∧ ∀ key rest, q = key :: rest →
      SortedMap.get? members' key =
        (SortedMap.get? members key).map ((C.under key).settle now)
  | _ => settled = C.settle now value

theorem settledAt_settle (C : Settling) (now : Timestamp) (q : Pointer) (value : Json) :
    SettledAt C now q value (C.settle now value) := by
  cases value with
  | obj members =>
    obtain ⟨members', heq, -, hget⟩ := C.exists_settle_obj now members
    exact ⟨members', heq, fun key _ _ => hget key⟩
  | _ => rfl

/-- A pointer into an item, but not into its time as a condition, sees the item settled as any other
part of the value. -/
theorem settledAt_onItem (hrest : [] ∈ C.pointers → ∀ below, rest ≠ transitionKey :: below)
    (item : Json) : SettledAt (C.inside i) now rest item (C.onItem now i item) := by
  by_cases hnil : [] ∈ C.pointers
  · cases item with
    | obj members =>
      obtain ⟨members', heq, -, hget⟩ := exists_onItem_obj C now i members
      refine ⟨members', heq, fun key below hkey => hget key ?_⟩
      rintro rfl
      exact hrest hnil below hkey
    | _ => exact onItem_of_not_object rfl
  · rw [onItem_inside hnil]
    exact settledAt_settle ..

/-- **A list that stands alone is settled condition by condition.** -/
theorem SettledAt.listAt?_eq {value settled : Json} (halone : Alone C q previous)
    (h : SettledAt C now q value settled) :
    listAt? settled q = (listAt? value q).map (List.map (settleCondition previous now)) := by
  induction q generalizing C value settled with
  | nil =>
    cases value with
    | obj members =>
      obtain ⟨members', rfl, -⟩ := h
      rfl
    | arr items =>
      have hnil : [] ∈ C.pointers := mem_pointers.mpr ⟨previous, halone.mem⟩
      rw [show settled = C.settle now (.arr items) from h, settle_arr]
      refine congrArg some (List.ext_getElem? fun i => ?_)
      rw [List.getElem?_mapIdx, List.getElem?_map]
      refine congrArg (Option.map · _) (funext fun item => ?_)
      rw [onItem_alone halone.eq_of_mem halone.none_inside, if_pos hnil]
    | _ =>
      rw [show settled = _ from h, C.settle_scalar now (by trivial)]
      rfl
  | cons token rest ih =>
    cases value with
    | obj members =>
      obtain ⟨members', rfl, hget⟩ := h
      rw [listAt?_obj, listAt?_obj, hget token rest rfl]
      cases SortedMap.get? members token with
      | none => rfl
      | some value => exact ih halone.under (settledAt_settle ..)
    | arr items =>
      rw [show settled = C.settle now (.arr items) from h, settle_arr, listAt?_arr, listAt?_arr]
      cases htoken : Pointer.position? token with
      | none => rfl
      | some i =>
        rw [Option.bind_some, Option.bind_some, List.getElem?_mapIdx]
        cases items[i]? with
        | none => rfl
        | some item =>
          refine ih (halone.inside htoken) (settledAt_onItem ?_ item)
          rintro hnil below rfl
          cases htoken.symm.trans (halone.not_in_time [] hnil token below rfl)
    | _ =>
      rw [show settled = _ from h, C.settle_scalar now (by trivial), listAt?_scalar (by trivial)]
      rfl

theorem SettledAt.rel {value settled : Json} (halone : Alone C q previous)
    (h : SettledAt C now q value settled) :
    Option.Rel (List.Forall₂ (Timed previous now)) (listAt? value q) (listAt? settled q) := by
  rw [h.listAt?_eq halone]
  cases listAt? value q with
  | none => exact .none
  | some items =>
    refine .some (List.forall₂_map_right_iff.mpr (List.forall₂_same.mpr fun c _ => ?_))
    exact timed_settleCondition previous now c

end Settling

end Patch

/-! ## Normal forms -/

namespace Shape

open Patch Patch.Settling

variable {now : Timestamp} {previous : List Json} {fields : List (Field × Shape)}

/-- The lists in a value in normal form, and in the normal form of what settling makes of it. -/
def Times (now : Timestamp) (shape : Shape) : Prop :=
  ∀ (C : Settling) {value settled normal : Json} {q : Pointer} {previous : List Json},
    decode? shape value = some value → SettledAt C now q value settled →
    decode? shape settled = some normal → Alone C q previous →
    Option.Rel (List.Forall₂ (Timed previous now)) (listAt? value q) (listAt? normal q)

theorem times_verbatim {shape : Shape} (hverbatim : shape.isVerbatim = true) : Times now shape := by
  intro C value settled normal q previous _ hsettled hdecode halone
  obtain rfl := eq_of_decode? shape hverbatim hdecode
  exact hsettled.rel halone

theorem times_scalar {shape : Shape} (hscalar : shape.isScalar = true) (hany : shape ≠ .any) :
    Times now shape := by
  intro C value settled normal q previous hnormal _ hdecode _
  rw [listAt?_scalar (isScalar_of_decode? hscalar hany hnormal).1,
    listAt?_scalar (isScalar_of_decode? hscalar hany hdecode).2]
  exact .none

/-- An item without a type, in the normal form of what settling makes of it. -/
theorem timed_decode? {shape : Shape} (hlacks : shape.lacksType = true) {value normal : Json}
    (hvalue : decode? shape value = some value)
    (h : decode? shape (settleCondition previous now value) = some normal) :
    Timed previous now value normal := by
  have htype := member?_type_eq_none hlacks h
  cases value with
  | obj members =>
    cases shape with
    | any => cases hlacks
    | map shape => cases hlacks
    | list item => cases hvalue
    | record fields =>
      obtain ⟨members', heq, -, hget, -⟩ := exists_settleCondition previous now members
      rw [heq] at h
      obtain ⟨out, hout, rfl⟩ := Option.map_eq_some_iff.mp h
      obtain ⟨out', hmembers, heq'⟩ := Option.map_eq_some_iff.mp hvalue
      obtain rfl := Json.obj.inj heq'
      refine ⟨fun hobject => (by cases hobject), rfl, fun key hkey => ?_, ?_, ?_, ?_⟩
      · refine get?_decodeFields?_congr hmembers hout ?_
        rw [given?, hget key hkey, given?]
      · intro type prior time hmember
        cases htype.symm.trans hmember
      · intro type prior hmember
        cases htype.symm.trans hmember
      · intro type hmember
        cases htype.symm.trans hmember
    | _ => exact (isScalar_of_decode? (by rfl) (by simp) hvalue).1.elim
  | _ =>
    obtain rfl := Option.some.inj (hvalue.symm.trans h)
    exact timed_settleCondition previous now _

theorem times_list {item : Shape} (hlacks : item.lacksType = true) (ih : Times now item) :
    Times now (.list item) := by
  intro C value settled normal q previous hvalue hsettled h halone
  cases value with
  | arr items =>
    rw [show settled = C.settle now (.arr items) from hsettled, settle_arr] at h
    obtain ⟨items', hitems, heq⟩ := Option.map_eq_some_iff.mp hvalue
    obtain rfl := Json.arr.inj heq
    obtain ⟨normals, hnormals, rfl⟩ := Option.map_eq_some_iff.mp h
    have hitem (i : Nat) (x : Json) (hx : items'[i]? = some x) : decode? item x = some x := by
      have hi := congrArg (·[i]?) (mapM_eq_some_iff.mp hitems)
      simpa only [List.getElem?_map, hx, Option.map_some, Option.some.injEq] using hi
    have hnormal (i : Nat) : (items'[i]?).map (fun x => decode? item (C.onItem now i x)) =
        (normals[i]?).map some := by
      have hi := congrArg (·[i]?) (mapM_eq_some_iff.mp hnormals)
      simp only [List.getElem?_map, List.getElem?_mapIdx, Option.map_map] at hi
      exact hi
    cases q with
    | nil =>
      have hnil : [] ∈ C.pointers := mem_pointers.mpr ⟨previous, halone.mem⟩
      refine .some (List.forall₂_iff_get.mpr ⟨?_, fun i hi hi' => ?_⟩)
      · have hlength := congrArg List.length (mapM_eq_some_iff.mp hnormals)
        simpa using hlength
      · have hx := List.getElem?_eq_getElem hi
        have hy := hnormal i
        rw [hx, List.getElem?_eq_getElem hi', Option.map_some, Option.map_some, Option.some.injEq,
          onItem_alone halone.eq_of_mem halone.none_inside, if_pos hnil] at hy
        exact timed_decode? hlacks (hitem i _ hx) hy
    | cons token rest =>
      rw [listAt?_arr, listAt?_arr]
      cases htoken : Pointer.position? token with
      | none => exact .none
      | some i =>
        have hy := hnormal i
        rw [Option.bind_some, Option.bind_some]
        cases hx : items'[i]? with
        | none =>
          rw [hx, Option.map_none, eq_comm, Option.map_eq_none_iff] at hy
          rw [hy]
          exact .none
        | some x =>
          rw [hx, Option.map_some, eq_comm, Option.map_eq_some_iff] at hy
          obtain ⟨y, hy, hdecode⟩ := hy
          rw [hy]
          refine ih (C.inside i) (hitem i x hx) (settledAt_onItem ?_ x) hdecode.symm
            (halone.inside htoken)
          rintro hnil below rfl
          cases htoken.symm.trans (halone.not_in_time [] hnil token below rfl)
  | _ => cases hvalue

theorem times_record (hregular : areRegular fields = true) (ih : ∀ f ∈ fields, Times now f.2) :
    Times now (.record fields) := by
  intro C value settled normal q previous hvalue hsettled h halone
  cases value with
  | obj members =>
    obtain ⟨settled, rfl, hget⟩ := hsettled
    obtain ⟨members', hmembers, heq⟩ := Option.map_eq_some_iff.mp hvalue
    obtain rfl := Json.obj.inj heq
    obtain ⟨out, hout, rfl⟩ := Option.map_eq_some_iff.mp h
    cases q with
    | nil => exact .none
    | cons key rest =>
      rw [listAt?_obj, listAt?_obj]
      by_cases hfield : ∃ f ∈ fields, f.1.name = key
      · obtain ⟨f, hf, rfl⟩ := hfield
        have hsettled := hget f.1.name rest rfl
        have hascend := ascend_of_areRegular hregular
        cases hgiven : given? members' f.1.name with
        | none =>
          have hnull : ∀ x, SortedMap.get? members' f.1.name = some x → x.isNull = true :=
            given?_eq_none_iff.mp hgiven
          have hsame : SortedMap.get? out f.1.name = SortedMap.get? members' f.1.name := by
            refine get?_decodeFields?_congr hmembers hout (Eq.trans ?_ hgiven.symm)
            rw [given?_eq_none_iff, hsettled]
            intro y hy
            obtain ⟨x, hx, rfl⟩ := Option.map_eq_some_iff.mp hy
            rw [isNull_settle, hnull x hx]
          rw [hsame]
          cases hx : SortedMap.get? members' f.1.name with
          | none => exact .none
          | some x =>
            obtain rfl := Json.isNull_iff.mp (hnull x hx)
            rw [Option.bind_some, listAt?_scalar (by trivial)]
            exact .none
        | some x =>
          obtain ⟨hx, hnull⟩ := given?_eq_some_iff.mp hgiven
          obtain ⟨x', hdecode, hx'⟩ := decode?_given? hascend hmembers hf hgiven
          obtain rfl := Option.some.inj (hx.symm.trans hx')
          rw [hx, Option.map_some] at hsettled
          obtain ⟨y, hy, hout'⟩ := decode?_given? hascend hout hf
            (given?_eq_some_iff.mpr ⟨hsettled, (isNull_settle ..).trans hnull⟩)
          rw [hx, hout', Option.bind_some, Option.bind_some]
          exact ih f hf (C.under f.1.name) hdecode (settledAt_settle ..) hy halone.under
      · have hnone {ms out : Json.Members} (h : decodeFields? fields ms = some out) :
            SortedMap.get? out key = none :=
          get?_decodeFields?_eq_none h fun f hf hname => hfield ⟨f, hf, hname⟩
        rw [hnone hmembers, hnone hout]
        exact .none
  | _ => cases hvalue

mutual

/-- **What is settled has its times in its normal form**, if it was in normal form before. -/
theorem times_decode? : (shape : Shape) → shape.isRegular = true → shape.isPlain = true →
    Times now shape
  | .list item, hregular, hplain => by
    by_cases hverbatim : item.isVerbatim = true
    · exact times_verbatim hverbatim
    · rw [isPlain, Bool.or_eq_true, Bool.and_eq_true] at hplain
      obtain ⟨hlacks, hplain⟩ := hplain.resolve_left hverbatim
      exact times_list hlacks (times_decode? item hregular hplain)
  | .map shape, _, hplain => times_verbatim hplain
  | .record fields, hregular, hplain =>
    times_record hregular (times_decodeFields? fields hregular hplain)
  | .any, _, _ => times_verbatim rfl
  | .string, _, _ => times_scalar rfl (by simp)
  | .bool, _, _ => times_scalar rfl (by simp)
  | .int32, _, _ => times_scalar rfl (by simp)
  | .int64, _, _ => times_scalar rfl (by simp)
  | .time, _, _ => times_scalar rfl (by simp)
  | .microTime, _, _ => times_scalar rfl (by simp)
  | .quantity, _, _ => times_scalar rfl (by simp)
  | .intOrString, _, _ => times_scalar rfl (by simp)
  | .base64, _, _ => times_scalar rfl (by simp)

theorem times_decodeFields? : (fields : List (Field × Shape)) → areRegular fields = true →
    arePlain fields = true → ∀ f ∈ fields, Times now f.2
  | [], _, _ => by simp
  | (field, shape) :: fields, hregular, hplain => by
    obtain ⟨hshape, -, -, hregular⟩ := areRegular_cons hregular
    rw [arePlain, Bool.and_eq_true] at hplain
    intro f hf
    rcases List.mem_cons.mp hf with rfl | hf
    · exact times_decode? shape hshape hplain.1
    · exact times_decodeFields? fields hregular hplain.2 f hf

end

end Shape

end ControlPlane
