import ControlPlane.Proofs.StrategicItems
import ControlPlane.Schema.Kinds

/-!
# Deleting from a list with repeated keys

Nothing keeps the keys of a stored list apart: two ports of a service may have one number. A
deletion removes the first element with its key, and any other one stays. So a list in which the key
is repeated has an element with it left when the patch is done, although the last item with the key
deletes it.

An item changes no elements but those with its own key. Of these it removes one, or puts one in the
place of the first; only if there are none can there be one more than before. Hence what is left
after the last deletion is at least one fewer than what was there, and none if no key was repeated.

* `Patch.carries_of_item`: where the key of what comes of an item is from.
* `Patch.filter_unnamed`, `Patch.filter_deleted`, `Patch.countP_item`: what an item does to the
  elements with a key.
* `Patch.filter_elements_unnamed`, `Patch.countP_elements`: what all items do.
* `Patch.last_deletion`: what the last deletion leaves.
* `Patch.second_port_stays`: an element that stays.
-/

namespace ControlPlane

namespace Patch

variable {d : Definition} {path key : String} {skip : Bool} {items merged target : List Json}
  {patch : Json.Members} {id v w item e : Json} {element : Option Json}

/-! ## Elements with a value at the key -/

/-- Values that are equal are carried by the same elements. -/
theorem carries_congr (hv : v.IsScalar) (h : (id == v) = true) :
    carries key id = carries key v := by
  have hid := Json.isScalar_of_beq hv h
  funext e
  refine congrArg (Option.any · (e.member? key)) (funext fun w => ?_)
  rw [Json.beq_comm_of_isScalar hid, Json.beq_congr hv h, Json.beq_comm_of_isScalar hv]

/-- An element with one value does not have another one. -/
theorem carries_apart (hv : v.IsScalar) (h : (id == v) = false) (he : carries key id e = true) :
    carries key v e = false := by
  obtain ⟨w, hw, hid⟩ := (Option.any_eq_true ..).mp he
  rw [carries, hw, Option.any_some, Bool.eq_false_iff]
  intro heq
  rw [Json.beq_congr hv heq, ← Json.beq_comm_of_isScalar hv, h] at hid
  cases hid

theorem carries_obj (hid : SortedMap.get? patch key = some id) :
    carries key v (.obj patch) = (id == v) := congrArg (Option.any (· == v)) hid

/-- How many elements an item may add: a member that looks like a directive is never written. -/
def fresh (key : String) : Nat := if isDirectiveKey key then 0 else 1

/-! ## What comes of an item -/

/-- A patch makes a scalar of itself only. -/
theorem eq_of_strategicValue {value : Json} (hw : w.IsScalar)
    (h : strategicValue d value path element = .ok (some w)) : value = w := by
  cases value with
  | null => cases h
  | obj patch =>
    rcases strategicValue_obj_cases h with ⟨-, hnone⟩ | ⟨-, -, -, out, -, -, hout⟩
    · cases hnone
    · obtain rfl := Option.some.inj hout
      exact hw.elim
  | arr items =>
    rw [strategicValue] at h
    split at h
    · obtain rfl := Option.some.inj (pure_eq_ok_iff.mp h)
      exact hw.elim
    · obtain rfl := Option.some.inj (pure_eq_ok_iff.mp h)
      exact hw.elim
    · obtain ⟨merged, -, h⟩ := bind_eq_ok_iff.mp h
      obtain rfl := Option.some.inj (pure_eq_ok_iff.mp h)
      exact hw.elim
  | _ => exact Option.some.inj (Except.ok.inj h)

/-- A member that is a scalar comes from the patch or from the target. -/
theorem member_cases {members : Json.Members} (hw : w.IsScalar)
    (h : strategicMember d path patch members key = .ok (some w)) :
    isDirectiveKey key = false ∧ SortedMap.get? patch key = some w ∨
      SortedMap.get? members key = some w := by
  unfold strategicMember at h
  by_cases hkey : isDirectiveKey key = true
  · rw [if_pos hkey] at h
    exact Or.inr (Except.ok.inj h)
  · rw [if_neg hkey] at h
    cases hvalue : SortedMap.get? patch key with
    | none =>
      rw [hvalue] at h
      exact Or.inr (Except.ok.inj h)
    | some value =>
      rw [hvalue] at h
      exact Or.inl ⟨by simpa using hkey, congrArg some (eq_of_strategicValue hw h)⟩

theorem member_of_start {action : Directive}
    (h : SortedMap.get? (action.start ((element.bind Json.members?).getD [])) key = some w) :
    ∃ old, element = some old ∧ old.member? key = some w := by
  rcases start_cases action element with hnil | ⟨members, rfl, hmembers⟩
  · rw [hnil] at h
    cases h
  · rw [hmembers] at h
    exact ⟨_, rfl, h⟩

/-- **What comes of an item has the key of the item, or that of the element it is merged into.** -/
theorem carries_of_item (hpatch : SortedMap.Sorted patch) (hv : v.IsScalar)
    (h : strategicValue d (.obj patch) path element = .ok (some e)) (he : carries key v e = true) :
    isDirectiveKey key = false ∧ carries key v (.obj patch) = true ∨
      ∃ old, element = some old ∧ carries key v old = true := by
  obtain ⟨w, hw, hwv⟩ := (Option.any_eq_true ..).mp he
  have hscalar := Json.isScalar_of_beq hv hwv
  rcases strategicValue_obj_cases h with ⟨-, hnone⟩ | ⟨-, action, start, out, hstart, hout, heq⟩
  · cases hnone
  obtain rfl := Option.some.inj heq
  have hmember := strategicMember_eq hpatch hstart key
  rcases get?_applyDeletions hout key with hsame | ⟨-, after, -, hafter⟩
  · rw [← hsame, show SortedMap.get? out key = some w from hw] at hmember
    rcases member_cases hscalar hmember with ⟨hkey, hpatched⟩ | hold
    · exact Or.inl ⟨hkey, (Option.any_eq_true ..).mpr ⟨w, hpatched, hwv⟩⟩
    · obtain ⟨old, hold, hmember⟩ := member_of_start hold
      exact Or.inr ⟨old, hold, (Option.any_eq_true ..).mpr ⟨w, hmember, hwv⟩⟩
  · obtain rfl := Option.some.inj (hafter.symm.trans hw)
    exact hscalar.elim

/-! ## One item -/

section Item

variable (hpatch : SortedMap.Sorted patch) (hv : v.IsScalar)
  (hid : SortedMap.get? patch key = some id)
  (h : strategicValue d (.obj patch) path (target.find? (carries key id)) = .ok element)

include hpatch hv hid h

/-- An item with another key leaves the elements as they are. -/
theorem filter_unnamed (hother : carries key v (.obj patch) = false) :
    (replaceFirst (carries key id) element target).filter (carries key v) =
      target.filter (carries key v) := by
  have hne : (id == v) = false := (carries_obj hid).symm.trans hother
  refine filter_replaceFirst_other (fun e he => carries_apart hv hne he) (fun e he => ?_) target
  subst he
  rw [Bool.eq_false_iff]
  intro hcarries
  rcases carries_of_item hpatch hv h hcarries with ⟨-, hitem⟩ | ⟨old, hold, hcarries⟩
  · rw [hother] at hitem
    cases hitem
  · rw [carries_apart hv hne (List.find?_some hold)] at hcarries
    cases hcarries

omit hpatch in
/-- A deletion removes the first of the elements. -/
theorem filter_deleted (hnamed : carries key v (.obj patch) = true)
    (hdelete : isDeletion (.obj patch) = true) :
    (replaceFirst (carries key id) element target).filter (carries key v) =
      (target.filter (carries key v)).tail := by
  rcases strategicValue_obj_cases h with ⟨-, rfl⟩ | ⟨hfalse, -⟩
  · rw [carries_congr hv ((carries_obj hid).symm.trans hnamed), filter_replaceFirst]
    rfl
  · rw [hdelete] at hfalse
    cases hfalse

/-- No item leaves more elements than there were, except that it may leave one where there were
none. -/
theorem countP_item :
    (replaceFirst (carries key id) element target).countP (carries key v) ≤
      max (target.countP (carries key v)) (fresh key) := by
  by_cases hnamed : carries key v (.obj patch) = true
  · rw [carries_congr hv ((carries_obj hid).symm.trans hnamed)] at h ⊢
    rw [List.countP_eq_length_filter, filter_replaceFirst, List.length_append, List.length_tail,
      ← List.countP_eq_length_filter, ← List.countP_eq_length_filter]
    cases element with
    | none =>
      rw [Option.toList_none, List.countP_nil]
      omega
    | some e =>
      rw [Option.toList_some]
      by_cases he : carries key v e = true
      · have hroom : 1 ≤ target.countP (carries key v) ∨ fresh key = 1 := by
          rcases carries_of_item hpatch hv h he with ⟨hkey, -⟩ | ⟨old, hold, -⟩
          · exact Or.inr (if_neg (by simp [hkey]))
          · exact Or.inl (List.countP_pos_iff.mpr
              ⟨old, List.mem_of_find?_eq_some hold, List.find?_some hold⟩)
        rw [List.countP_cons_of_pos he, List.countP_nil]
        omega
      · rw [List.countP_cons_of_neg he, List.countP_nil]
        omega
  · rw [List.countP_eq_length_filter, filter_unnamed hpatch hv hid h (by simpa using hnamed),
      ← List.countP_eq_length_filter]
    exact Nat.le_max_left ..

end Item

/-! ## All items -/

section Items

variable (hitems : ∀ item ∈ items, item.WellFormed) (hv : v.IsScalar)
  (h : strategicElements d items path key skip target = .ok merged)

include hitems hv h

theorem filter_elements_unnamed (hother : ∀ item ∈ items, carries key v item = false) :
    merged.filter (carries key v) = target.filter (carries key v) := by
  induction items generalizing target with
  | nil =>
    rw [strategicElements] at h
    obtain rfl := Except.ok.inj h
    rfl
  | cons item items ih =>
    have hrestItems := fun i hi => hitems i (List.mem_cons_of_mem item hi)
    have hrestOther := fun i hi => hother i (List.mem_cons_of_mem item hi)
    rcases exists_item h with ⟨-, hrest⟩ | ⟨patch, id, element, rfl, hid, hitem, hrest⟩
    · exact ih hrestItems hrest hrestOther
    · rw [ih hrestItems hrest hrestOther]
      exact filter_unnamed (Json.WellFormedObject.sorted (hitems _ List.mem_cons_self)) hv hid
        hitem (hother _ List.mem_cons_self)

theorem countP_elements :
    merged.countP (carries key v) ≤ max (target.countP (carries key v)) (fresh key) := by
  induction items generalizing target with
  | nil =>
    rw [strategicElements] at h
    obtain rfl := Except.ok.inj h
    exact Nat.le_max_left ..
  | cons item items ih =>
    have hrestItems := fun i hi => hitems i (List.mem_cons_of_mem item hi)
    rcases exists_item h with ⟨-, hrest⟩ | ⟨patch, id, element, rfl, hid, hitem, hrest⟩
    · exact ih hrestItems hrest
    · have hfirst := countP_item (Json.WellFormedObject.sorted (hitems _ List.mem_cons_self)) hv hid
        hitem
      have hrest := ih hrestItems hrest
      omega

end Items

/-! ## The last deletion -/

theorem isDirectiveKey_of_bare (hbare : isBareDirective item = true)
    (h : carries key v item = true) : isDirectiveKey key = true := by
  unfold isBareDirective at hbare
  split at hbare
  · next name value =>
    obtain ⟨w, hw, -⟩ := (Option.any_eq_true ..).mp h
    obtain rfl : name = key := by
      by_contra hne
      rw [Json.member?, Json.members, SortedMap.get?_cons, if_neg hne] at hw
      cases hw
    rw [of_decide_eq_true hbare]
    decide
  · cases hbare

/-- What is left is what was there before the last deletion, without the first. -/
theorem exists_before (hskip : skip = true → isDirectiveKey key = false)
    (hitems : ∀ item ∈ items, item.WellFormed) (hv : v.IsScalar)
    (h : strategicElements d items path key skip target = .ok merged)
    (hlast : (named key v items).getLast? = some item) (hdelete : isDeletion item = true) :
    ∃ before : List Json, before.length ≤ max (target.countP (carries key v)) (fresh key) ∧
      (named key v items = [item] → before = target.filter (carries key v)) ∧
      merged.filter (carries key v) = before.tail := by
  induction items generalizing target with
  | nil => cases hlast
  | cons first items ih =>
    have hrestItems := fun i hi => hitems i (List.mem_cons_of_mem first hi)
    rcases exists_item h with ⟨hleft, hrest⟩ | ⟨patch, id, element, rfl, hid, hitem, hrest⟩
    · -- An item that is left out has no key, as nothing but a directive is left out.
      obtain ⟨hskips, hbare⟩ := Bool.and_eq_true_iff.mp hleft
      have hother : carries key v first = false := by
        rw [Bool.eq_false_iff]
        intro hcarries
        exact Bool.false_ne_true
          ((hskip hskips).symm.trans (isDirectiveKey_of_bare hbare hcarries))
      rw [named, List.filter_cons_of_neg (by simp [hother])] at hlast ⊢
      exact ih hrestItems hrest hlast
    have hpatch : SortedMap.Sorted patch :=
      Json.WellFormedObject.sorted (hitems _ List.mem_cons_self)
    by_cases hnamed : carries key v (.obj patch) = true
    · rw [named, List.filter_cons_of_pos hnamed, ← named] at hlast ⊢
      cases hnext : named key v items with
      | nil =>
        -- This is the last one, and a deletion.
        rw [hnext] at hlast
        obtain rfl := Option.some.inj hlast
        have hother : ∀ i ∈ items, carries key v i = false := by
          simpa [named] using hnext
        refine ⟨target.filter (carries key v), ?_, fun _ => rfl, ?_⟩
        · rw [← List.countP_eq_length_filter]
          exact Nat.le_max_left ..
        · rw [filter_elements_unnamed hrestItems hv hrest hother]
          exact filter_deleted hv hid hitem hnamed hdelete
      | cons next later =>
        rw [hnext, List.getLast?_cons_cons, ← hnext] at hlast
        obtain ⟨before, hbefore, -, heq⟩ := ih hrestItems hrest hlast
        have hfirst := countP_item hpatch hv hid hitem
        refine ⟨before, by omega, fun hone => ?_, heq⟩
        cases hone
    · have hother : carries key v (.obj patch) = false := by simpa using hnamed
      rw [named, List.filter_cons_of_neg hnamed, ← named] at hlast ⊢
      obtain ⟨before, hbefore, hone, heq⟩ := ih hrestItems hrest hlast
      have hfirst := countP_item hpatch hv hid hitem
      refine ⟨before, by omega, fun hsingle => ?_, heq⟩
      rw [hone hsingle, filter_unnamed hpatch hv hid hitem hother]

/-- **The last deletion leaves one element fewer.** If the last item with a scalar key is a
deletion, what is left with the key is at least one element fewer than what was there, and so
nothing if the key was not repeated. If it is the only item with the key, it removes the first of
the elements and leaves the others. -/
theorem last_deletion (hlist : d.listStrategy? path = some (.keyed key))
    (hitems : ∀ item ∈ items, item.WellFormed) (hv : v.IsScalar)
    (hlast : (named key v items).getLast? = some item) (hdelete : isDeletion item = true)
    {result : Option Json}
    (h : strategicValue d (.arr items) path (some (.arr target)) = .ok result) :
    ∃ merged, result = some (.arr merged) ∧
      merged.countP (carries key v) ≤ target.countP (carries key v) - 1 ∧
      (named key v items = [item] → items.any isReplaceMarker = false →
        merged.filter (carries key v) = (target.filter (carries key v)).tail) := by
  obtain ⟨merged, rfl, helements⟩ := strategicValue_keyed hlist h
  have hfresh : fresh key ≤ 1 := by
    unfold fresh
    split <;> omega
  refine ⟨merged, rfl, ?_, fun hone hmarker => ?_⟩
  · by_cases hmarker : items.any isReplaceMarker = true
    · -- The list starts from nothing.
      rw [hmarker, if_pos rfl] at helements
      by_cases hkey : isDirectiveKey key = true
      · have hcount := countP_elements hitems hv helements
        rw [fresh, if_pos hkey, List.countP_nil] at hcount
        omega
      · obtain ⟨before, hbefore, -, heq⟩ :=
          exists_before (fun _ => by simpa using hkey) hitems hv helements hlast hdelete
        rw [List.countP_nil] at hbefore
        rw [List.countP_eq_length_filter, heq, List.length_tail]
        omega
    · rw [if_neg hmarker] at helements
      obtain ⟨before, hbefore, -, heq⟩ :=
        exists_before (fun hskip => absurd hskip hmarker) hitems hv helements hlast hdelete
      replace hbefore : before.length ≤ max (target.countP (carries key v)) (fresh key) := hbefore
      rw [List.countP_eq_length_filter, heq, List.length_tail]
      omega
  · rw [hmarker, if_neg Bool.false_ne_true] at helements
    obtain ⟨before, -, hbefore, heq⟩ :=
      exists_before (fun hskip => absurd hskip Bool.false_ne_true) hitems hv helements hlast hdelete
    rw [heq, hbefore hone]
    rfl

/-- Services, whose ports are known by their numbers. -/
def serviceKind : Definition :=
  (Definition.ofKind Schema.service).listAt "spec.ports" (.keyed "port")

/-- A port of a service. -/
def servicePort (name protocol : String) (number : Int) : Json :=
  .obj [("name", .str name), ("port", .int number), ("protocol", .str protocol)]

/-- An item that deletes a port. -/
def deletePort (number : Int) : Json :=
  .obj [("$patch", .str "delete"), ("port", .int number)]

/-- A port that has a number for itself is gone when it is deleted. -/
theorem last_deletion_port :
    strategicValue serviceKind (.arr [deletePort 53]) "spec.ports"
        (some (.arr [servicePort "dns" "UDP" 53, servicePort "web" "TCP" 80])) =
          .ok (some (.arr [servicePort "web" "TCP" 80])) ∧
      [servicePort "web" "TCP" 80].countP (carries "port" (.int 53)) ≤
        [servicePort "dns" "UDP" 53, servicePort "web" "TCP" 80].countP
          (carries "port" (.int 53)) - 1 ∧
      [servicePort "web" "TCP" 80].filter (carries "port" (.int 53)) = [] := by
  have hlast : (named "port" (.int 53) [deletePort 53]).getLast? = some (deletePort 53) := rfl
  have hscalar : (Json.int 53).IsScalar := trivial
  have hmerge : strategicValue serviceKind (.arr [deletePort 53]) "spec.ports"
      (some (.arr [servicePort "dns" "UDP" 53, servicePort "web" "TCP" 80])) =
        .ok (some (.arr [servicePort "web" "TCP" 80])) := rfl
  obtain ⟨merged, heq, hcount, hfilter⟩ :=
    last_deletion rfl (by decide +kernel) hscalar hlast rfl hmerge
  obtain rfl := Json.arr.inj (Option.some.inj heq)
  exact ⟨hmerge, hcount, hfilter rfl rfl⟩

/-- A service with some ports. -/
def serviceOf (ports : List Json) : Object :=
  ⟨some ⟨"v1", "Service"⟩, { Metadata.empty with name := some "dns", ns := some "default" },
    [("spec", .obj [("ports", .arr ports)])]⟩

/-- A patch of some ports of a service. -/
def portsPatch (items : List Json) : Json := .obj [("spec", .obj [("ports", .arr items)])]

/-- **An element stays.** Two ports have one number. The only item of the patch deletes it, and the
second port is still there. -/
theorem second_port_stays :
    serviceKind.listStrategy? "spec.ports" = some (.keyed "port") ∧
      (named "port" (.int 53) [deletePort 53]).getLast? = some (deletePort 53) ∧
      isDeletion (deletePort 53) = true ∧
      (strategic (portsPatch [deletePort 53])).applyTo serviceKind
        (serviceOf [servicePort "tcp" "TCP" 53, servicePort "udp" "UDP" 53]) none
        ⟨2024, 5, 1, 12, 0, 0, 0⟩ = .ok (serviceOf [servicePort "udp" "UDP" 53]) ∧
      carries "port" (.int 53) (servicePort "udp" "UDP" 53) = true :=
  ⟨rfl, rfl, rfl, rfl, rfl⟩

end Patch

end ControlPlane
