import ControlPlane.Proofs.Idempotence

/-!
# The status that is put back

A patch of the main resource puts the status back as it was. Then the times of conditions are
settled, and the conditions in that status are settled against themselves. So a condition is
compared with the first of its type, which may be another one, and a condition without a type gets a
time if it has none: the status may come out with other times, and with other times only. It comes
out as it was if every condition agrees with the first of its type.

* `Json.timeless`: a value without times of transitions.
* `Patch.Settling.timeless_settle`: settling changes nothing else.
* `Patch.Steady`: conditions that settling against themselves leaves alone.
* `Patch.status_settled`: the status of the result.
* `Patch.status_put_back`: what of it is kept by every patch.
* `Patch.repeated_type_settled`: a status that does not stay as it was.
-/

namespace ControlPlane

namespace Json

open Patch (transitionKey)

/-! ## Values without times -/

mutual

/-- The value without the times of transitions in it. -/
def timeless : Json → Json
  | .arr items => .arr (timelessItems items)
  | .obj members => .obj (timelessMembers members)
  | value => value
termination_by structural json => json

def timelessItems : List Json → List Json
  | [] => []
  | item :: items => timeless item :: timelessItems items
termination_by structural items => items

def timelessMembers : List (String × Json) → List (String × Json)
  | [] => []
  | (key, value) :: members =>
    if key = transitionKey then timelessMembers members
    else (key, timeless value) :: timelessMembers members
termination_by structural members => members

end

theorem timelessItems_eq (items : List Json) : timelessItems items = items.map timeless := by
  induction items with
  | nil => rfl
  | cons item items ih => rw [timelessItems, ih, List.map_cons]

theorem get?_timelessMembers (members : Members) (key : String) :
    SortedMap.get? (timelessMembers members) key =
      if key = transitionKey then none else (SortedMap.get? members key).map timeless := by
  induction members with
  | nil => simp [timelessMembers]
  | cons e members ih =>
    obtain ⟨name, value⟩ := e
    rw [timelessMembers, SortedMap.get?_cons]
    by_cases hname : name = transitionKey
    · rw [if_pos hname, ih]
      by_cases hkey : key = transitionKey
      · rw [if_pos hkey, if_pos hkey]
      · rw [if_neg hkey, if_neg hkey, if_neg (fun h : name = key => hkey (h ▸ hname))]
    · rw [if_neg hname, SortedMap.get?_cons, ih]
      by_cases hkey : name = key
      · subst hkey
        rw [if_pos rfl, if_neg hname, if_pos rfl]
        rfl
      · rw [if_neg hkey, if_neg hkey]

theorem mem_timelessMembers {members : Members} {e : String × Json}
    (h : e ∈ timelessMembers members) : ∃ value, (e.1, value) ∈ members := by
  induction members with
  | nil => cases h
  | cons first members ih =>
    obtain ⟨name, value⟩ := first
    rw [timelessMembers] at h
    split at h
    · obtain ⟨value', hmem⟩ := ih h
      exact ⟨value', List.mem_cons_of_mem _ hmem⟩
    · rcases List.mem_cons.mp h with rfl | h
      · exact ⟨value, List.mem_cons_self⟩
      · obtain ⟨value', hmem⟩ := ih h
        exact ⟨value', List.mem_cons_of_mem _ hmem⟩

theorem sorted_timelessMembers {members : Members} (h : SortedMap.Sorted members) :
    SortedMap.Sorted (timelessMembers members) := by
  induction members with
  | nil => exact SortedMap.sorted_nil
  | cons e members ih =>
    obtain ⟨name, value⟩ := e
    obtain ⟨hname, hmembers⟩ := SortedMap.sorted_cons.mp h
    rw [timelessMembers]
    split
    · exact ih hmembers
    · refine SortedMap.sorted_cons.mpr ⟨fun e he => ?_, ih hmembers⟩
      obtain ⟨value', hmem⟩ := mem_timelessMembers he
      exact hname (e.1, value') hmem

/-- A member that is written makes no difference if it is a time, or what was there but for
times. -/
theorem timelessMembers_insert {members : Members} (h : SortedMap.Sorted members) {key : String}
    {value : Json} (hvalue : key = transitionKey ∨
      ∃ old, SortedMap.get? members key = some old ∧ timeless value = timeless old) :
    timelessMembers (SortedMap.insert members key value) = timelessMembers members := by
  refine SortedMap.ext (sorted_timelessMembers (SortedMap.sorted_insert h key value))
    (sorted_timelessMembers h) fun k => ?_
  rw [get?_timelessMembers, get?_timelessMembers]
  by_cases hk : k = transitionKey
  · rw [if_pos hk, if_pos hk]
  · rw [if_neg hk, if_neg hk]
    by_cases hkey : k = key
    · subst hkey
      rcases hvalue with htime | ⟨old, hold, heq⟩
      · exact absurd htime hk
      · rw [SortedMap.get?_insert_self, hold, Option.map_some, Option.map_some, heq]
    · rw [SortedMap.get?_insert_of_ne _ _ hkey]

/-- A change of a part that changes nothing but times changes nothing else of the whole. -/
theorem timeless_modifyAt {f : Json → Json} {pointer : Pointer} :
    ∀ {json : Json}, json.WellFormed →
      (∀ value, value.WellFormed → timeless (f value) = timeless value) →
        timeless (json.modifyAt f pointer) = timeless json := by
  induction pointer with
  | nil => exact fun hjson hf => hf _ hjson
  | cons token rest ih =>
    intro json hjson hf
    cases json with
    | obj members =>
      rw [modifyAt]
      split
      · next value hvalue =>
        have hpart := ih (WellFormedObject.wellFormed hjson hvalue) hf
        exact congrArg obj (timelessMembers_insert (WellFormedObject.sorted hjson)
          (Or.inr ⟨value, hvalue, hpart⟩))
      · rfl
    | arr items =>
      rw [modifyAt]
      split
      · next i hi =>
        refine congrArg arr ?_
        rw [timelessItems_eq, timelessItems_eq]
        refine List.ext_getElem? fun j => ?_
        rw [List.getElem?_map, List.getElem?_map, List.getElem?_modify]
        cases hitem : items[j]? with
        | none => rfl
        | some item =>
          have hwell := wellFormed_arr.mp hjson item (List.mem_of_getElem? hitem)
          by_cases hij : i = j
          · simp [hij, ih hwell hf]
          · simp [hij]
      · rfl
    | _ => rfl

end Json

namespace Patch

variable {d : Definition} {current r : Object} {strategic : Bool} {document : Json}
  {now : Timestamp}

theorem timeless_settleCondition {previous : List Json} {c : Json} (hc : c.WellFormed) :
    (settleCondition previous now c).timeless = c.timeless := by
  cases c with
  | obj members =>
    rw [settleCondition]
    split
    · exact congrArg Json.obj
        (Json.timelessMembers_insert (Json.WellFormedObject.sorted hc) (Or.inl rfl))
    · rfl
  | _ => rfl

/-- **Settling changes times only.** -/
theorem Settling.timeless_settle {C : Settling} (hC : ∀ e ∈ C, ∀ p ∈ e.2, p.WellFormed)
    {json : Json} (hjson : json.WellFormed) : (C.settle now json).timeless = json.timeless := by
  induction C generalizing json with
  | nil => rfl
  | cons e C ih =>
    have hfirst : ∀ e' ∈ [e], ∀ p ∈ e'.2, p.WellFormed :=
      fun e' he' => hC e' (List.mem_singleton.mp he' ▸ List.mem_cons_self)
    have hrest := ih (fun e' he' => hC e' (List.mem_cons_of_mem _ he'))
      (wellFormed_settle hfirst now hjson)
    refine hrest.trans (Json.timeless_modifyAt hjson fun value hvalue => ?_)
    cases value with
    | arr items =>
      refine congrArg Json.arr ?_
      rw [Json.timelessItems_eq, Json.timelessItems_eq, List.map_map]
      exact List.map_congr_left fun c hc =>
        timeless_settleCondition (Json.wellFormed_arr.mp hvalue c hc)
    | _ => rfl

/-! ## Conditions that stay as they are -/

/-- Each condition agrees with the first of its type, and one without a type has a time. -/
structure Steady (conditions : List Json) : Prop where
  status_eq : ∀ c ∈ conditions, ∀ first, prior? conditions c = some first →
    sameOption (first.member? "status") (c.member? "status") = true
  time_eq : ∀ c ∈ conditions, ∀ first, prior? conditions c = some first →
    ∀ time, transitionTime? first = some time → c.member? transitionKey = some time
  timed : ∀ c ∈ conditions, prior? conditions c = none → c.isObject = true →
    (transitionTime? c).isSome = true

/-- Conditions that are told apart by their types are steady. -/
theorem Distinguished.steady {conditions : List Json} (h : Distinguished conditions) :
    Steady conditions where
  status_eq c hc first hfirst := by
    obtain rfl := Option.some.inj ((h.prior?_eq hc rfl).symm.trans hfirst)
    exact sameOption_self _
  time_eq c hc first hfirst time htime := by
    obtain rfl := Option.some.inj ((h.prior?_eq hc rfl).symm.trans hfirst)
    exact (Option.filter_eq_some_iff.mp htime).1
  timed c hc hnone _ := by
    cases (h.prior?_eq hc rfl).symm.trans hnone

theorem Steady.settleCondition_eq {conditions : List Json} (h : Steady conditions) {c : Json}
    (hc : c ∈ conditions) (hwell : c.WellFormed) (now : Timestamp) :
    settleCondition conditions now c = c := by
  cases c with
  | obj members =>
    rw [settleCondition]
    split
    · next time htime =>
      unfold newTime? at htime
      split at htime
      · next first hfirst =>
        rw [if_pos (h.status_eq _ hc first hfirst)] at htime
        rw [SortedMap.insert_eq_self (Json.WellFormedObject.sorted hwell)
          (h.time_eq _ hc first hfirst time htime)]
      · next hnone =>
        rw [if_pos (h.timed _ hc hnone rfl)] at htime
        cases htime
    · rfl
  | _ => rfl

/-! ## The status -/

/-- **The status of the result** is that of the object, with the conditions in it settled against
themselves. -/
theorem status_settled (hcurrent : current.Normal) (hstatus : d.hasStatus = true)
    (h : applyDocument d current strategic document none now = .ok r) :
    r.status = current.status.map
      (((Settling.of current.toJson (conditionPointers d)).under "status").settle now) := by
  obtain ⟨merged, -, -, hdecode⟩ := exists_applied h
  obtain ⟨isolated, members, metadata, hisolated, hsettled, -, hremade⟩ :=
    exists_remade d hcurrent none now merged
  rw [hisolated, hsettled] at hdecode
  obtain ⟨isolated', hisolated', -, hget⟩ := exists_isolate d none current.toMembers merged
  obtain rfl := Json.obj.inj (hisolated.symm.trans hisolated')
  have hput : SortedMap.get? isolated "status" = current.status := by
    rw [hget, if_pos (Or.inr ⟨rfl, hstatus, rfl⟩), Object.get?_toMembers]
    simp [Object.head, Object.status]
  rw [Object.status, hremade.get?_data hdecode, if_neg (by simp),
    hremade.data_eq "status" (by simp) (by simp) (by simp), hput]

/-- **A patch of the main resource changes nothing of the status but times of transitions.** It
changes nothing at all if every condition there agrees with the first of its type, in the status and
in the time, and those without a type have a time. -/
theorem status_put_back {json : Json} (hjson : json.WellFormed)
    (hdecode : Object.decode json = .ok current) (hstatus : d.hasStatus = true) (p : Patch)
    (h : p.applyTo d current none now = .ok r) :
    r.status.map Json.timeless = current.status.map Json.timeless ∧
      ((∀ rest, "status" :: rest ∈ conditionPointers d → ∀ conditions,
        current.status.bind (·.at? rest) = some (.arr conditions) → Steady conditions) →
          r.status = current.status) := by
  obtain ⟨strategic, document, happly⟩ := exists_applyDocument h
  have hcurrent := Object.wellFormed_of_decode hjson hdecode
  rw [status_settled (Object.normal_of_decode hdecode) hstatus happly]
  cases hvalue : current.status with
  | none => exact ⟨rfl, fun _ => rfl⟩
  | some status =>
    have hget : SortedMap.get? current.toMembers "status" = some status := by
      rw [Object.get?_toMembers]
      simpa [Object.head, Object.status] using hvalue
    have hwell : status.WellFormed := Json.WellFormedObject.wellFormed hcurrent hget
    have hearlier := Settling.wellFormed_of hcurrent (conditionPointers d)
    refine ⟨congrArg some (Settling.timeless_settle (fun e he => ?_) hwell), fun hsteady => ?_⟩
    · exact hearlier ("status" :: e.1, e.2) (Settling.mem_under.mp he)
    · refine congrArg some (Settling.settle_eq_self hwell fun e he items hitems => ?_)
      obtain ⟨pointer, hpointer, heq⟩ := List.mem_map.mp (Settling.mem_under.mp he)
      obtain ⟨rfl, hprevious⟩ := Prod.mk.inj heq
      have hown : e.2 = items := by
        rw [← hprevious, conditionsAt, Object.toJson, Json.at?, hget, Option.bind_some, hitems]
        rfl
      have hlist := hsteady e.1 hpointer items hitems
      refine congrArg Json.arr ((List.map_congr_left fun c hc => ?_).trans (List.map_id items))
      rw [hown]
      exact hlist.settleCondition_eq hc
        (Json.wellFormed_arr.mp (Json.wellFormed_at? hwell hitems) c hc) now

/-- The data of a node that takes no pods. -/
def cordoned (data : Json.Members) : Json.Members :=
  ("spec", .obj [("unschedulable", .bool true)]) :: data

/-- A patch of the main resource does not touch the time of a single condition. -/
theorem status_put_back_node :
    Object.decode readyNode.toJson = .ok readyNode ∧
      (merge (.obj (cordoned []))).applyTo nodeKind.statusApart readyNode none
        ⟨2024, 5, 2, 12, 0, 0, 0⟩ = .ok (nodeOf (cordoned readyNode.data)) ∧
      (nodeOf (cordoned readyNode.data)).status = readyNode.status := by
  have hwell : readyNode.toJson.WellFormed := by decide +kernel
  have happly : (merge (.obj (cordoned []))).applyTo nodeKind.statusApart readyNode none
      ⟨2024, 5, 2, 12, 0, 0, 0⟩ = .ok (nodeOf (cordoned readyNode.data)) := rfl
  have hpointers : conditionPointers nodeKind.statusApart = [["status", "conditions"]] := by
    decide +kernel
  refine ⟨rfl, happly, (status_put_back hwell rfl rfl _ happly).2 fun rest hrest conditions h => ?_⟩
  rw [hpointers, List.mem_singleton] at hrest
  obtain rfl := List.tail_eq_of_cons_eq hrest
  obtain rfl := Json.arr.inj (Option.some.inj h)
  exact (distinguished_singleton rfl).steady

/-- Data with two conditions of one type, the second with a time. -/
def readyTwice (time : String) : Json.Members :=
  [("status", .obj [("conditions", .arr
    [.obj [("lastTransitionTime", .str "2024-01-01T00:00:00Z"), ("status", .str "True"),
        ("type", .str "Ready")],
      .obj [("lastTransitionTime", .str time), ("status", .str "False"),
        ("type", .str "Ready")]])])]

/-- **A repeated type is settled against the first condition.** The patch says nothing about the
status. It is put back, and then the second condition, whose status is not that of the first, gets
the time of the patch. -/
theorem repeated_type_settled :
    Object.decode (nodeOf (readyTwice "2024-01-01T00:00:00Z")).toJson =
        .ok (nodeOf (readyTwice "2024-01-01T00:00:00Z")) ∧
      nodeKind.statusApart.hasStatus = true ∧
      (merge (.obj (cordoned []))).applyTo nodeKind.statusApart
        (nodeOf (readyTwice "2024-01-01T00:00:00Z")) none ⟨2024, 5, 1, 12, 0, 0, 0⟩ =
          .ok (nodeOf (cordoned (readyTwice "2024-05-01T12:00:00Z"))) ∧
      (nodeOf (cordoned (readyTwice "2024-05-01T12:00:00Z"))).status ≠
        (nodeOf (readyTwice "2024-01-01T00:00:00Z")).status := by
  refine ⟨rfl, rfl, rfl, fun h => ?_⟩
  have htime : some "2024-05-01T12:00:00Z" = some "2024-01-01T00:00:00Z" :=
    congrArg (fun status => (status.bind (·.at? ["conditions", "1", transitionKey])).bind
      Json.text?) h
  exact absurd htime (by decide)

end Patch

end ControlPlane
