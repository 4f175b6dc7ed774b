import ControlPlane.Proofs.StrategicItems
import ControlPlane.Schema.Kinds
import Mathlib.Data.List.DropRight

/-!
# Lists that are merged by key

In a list whose elements have different keys, a strategic patch loses nothing and puts nothing
twice. What comes of an item has the key of the item, so an item changes the element with its own
key and no other, and the keys stay apart. Then each element can be followed for itself: it is what
the items with its key make of it in turn, and a deletion among them starts it from nothing.

* `Patch.IsKey`, `Patch.AtMostOnce`, `Patch.KeyedItems`: keys, lists in which they are told apart,
  and patches of such lists.
* `Patch.member?_of_item`: what comes of an item has its key.
* `Patch.AtMostOnce.replaceFirst`, `Patch.elements_in_turn`: one item, and all of them.
* `Patch.Ordered`, `Patch.ordered_elements`: where the elements stand.
* `Patch.keyed_merge`: the list as a whole.
* `Patch.directive_key_lost`: a key that looks like a directive.
-/

namespace ControlPlane

namespace Patch

variable {d : Definition} {path key : String} {items merged target : List Json}
  {patch : Json.Members} {id : Json} {element : Option Json}

/-! ## Keys -/

/-- A text or an integer. -/
def IsKey : Json → Prop
  | .str _ | .num (.int _) => True
  | _ => False

theorem IsKey.isNull_eq (h : IsKey id) : id.isNull = false := by
  cases id <;> first | rfl | exact h.elim

theorem IsKey.isScalar (h : IsKey id) : id.IsScalar := by
  cases id <;> trivial

theorem IsKey.beq_iff (h : IsKey id) {v : Json} : (v == id) = true ↔ v = id := by
  constructor
  · intro heq
    cases id with
    | str s =>
      cases v with
      | str t => exact congrArg Json.str (eq_of_beq heq)
      | _ => cases heq
    | num n =>
      cases n with
      | int n =>
        cases v with
        | num m =>
          cases m with
          | int m => exact congrArg (Json.num ∘ Number.int) (eq_of_beq heq)
          | float bits => cases heq
        | _ => cases heq
      | float bits => exact h.elim
    | _ => exact h.elim
  · rintro rfl
    exact Json.beq_self v

theorem carries_iff (h : IsKey id) {e : Json} :
    carries key id e = true ↔ e.member? key = some id := by
  rw [carries]
  cases e.member? key with
  | none => simp
  | some v => rw [Option.any_some, h.beq_iff, Option.some.injEq]

theorem strategicValue_scalar {value : Json} (h : value.IsScalar) (hnull : value.isNull = false)
    (d : Definition) (path : String) (target : Option Json) :
    strategicValue d value path target = .ok (some value) := by
  cases value with
  | null => cases hnull
  | arr items => exact h.elim
  | obj members => exact h.elim
  | _ => rfl

/-- **What an item makes of its element has the key of the item.** -/
theorem member?_of_item {e : Json} (hpatch : SortedMap.Sorted patch)
    (hkey : isDirectiveKey key = false) (hid : SortedMap.get? patch key = some id) (h : IsKey id)
    (hitem : strategicValue d (.obj patch) path element = .ok (some e)) :
    e.member? key = some id := by
  rcases strategicValue_obj_cases hitem with ⟨-, hnone⟩ | ⟨-, action, start, out, hstart, hout, he⟩
  · cases hnone
  · obtain rfl := Option.some.inj he
    have hmember := strategicMember_eq hpatch hstart key
    simp only [strategicMember, hkey, Bool.false_eq_true, if_false, hid,
      strategicValue_scalar h.isScalar h.isNull_eq] at hmember
    rcases get?_applyDeletions hout key with heq | ⟨before, -, hbefore, -⟩
    · exact heq.trans (Except.ok.inj hmember).symm
    · obtain rfl := Option.some.inj ((Except.ok.inj hmember).trans hbefore)
      exact h.elim

/-! ## Lists with keys -/

/-- No value is the key of two elements. -/
def AtMostOnce (key : String) (elements : List Json) : Prop :=
  ∀ v, elements.countP (carries key v) ≤ 1

/-- What some items, one after the other, make of an element. -/
def mergeInTurn (d : Definition) (path : String) (items : List Json) (element : Option Json) :
    Except PatchFault (Option Json) :=
  items.foldlM (fun element item => strategicValue d item path element) element

theorem carries_eq_false (h : IsKey id) {v e : Json} (hv : v ≠ id)
    (he : e.member? key = some id) : carries key v e = false := by
  rw [carries, he, Option.any_some, ← Json.beq_comm_of_isScalar h.isScalar, Bool.eq_false_iff]
  exact fun heq => hv (h.beq_iff.mp heq)

theorem AtMostOnce.tail_eq_nil (h : AtMostOnce key target) (v : Json) :
    (target.filter (carries key v)).tail = [] := by
  have hcount := h v
  rw [List.countP_eq_length_filter] at hcount
  refine List.eq_nil_of_length_eq_zero ?_
  rw [List.length_tail]
  omega

section Step

-- One item with the key `id` puts `element` in the place of the element it names.
variable (hid : IsKey id) (helement : ∀ e, element = some e → e.member? key = some id)

include hid helement

theorem filter_replaceFirst_ne {v : Json} (hv : v ≠ id) (target : List Json) :
    (replaceFirst (carries key id) element target).filter (carries key v) =
      target.filter (carries key v) :=
  filter_replaceFirst_other (fun _ he => carries_eq_false hid hv ((carries_iff hid).mp he))
    (fun e he => carries_eq_false hid hv (helement e he)) target

theorem filter_replaceFirst_self (hunique : AtMostOnce key target) :
    (replaceFirst (carries key id) element target).filter (carries key id) = element.toList := by
  rw [filter_replaceFirst, hunique.tail_eq_nil, List.append_nil, List.filter_eq_self]
  intro e he
  exact (carries_iff hid).mpr (helement e (Option.mem_toList.mp he))

theorem AtMostOnce.replaceFirst (hunique : AtMostOnce key target) :
    AtMostOnce key (replaceFirst (carries key id) element target) := by
  intro v
  rw [List.countP_eq_length_filter]
  by_cases hv : v = id
  · subst hv
    rw [filter_replaceFirst_self hid helement hunique]
    cases element <;> simp
  · rw [filter_replaceFirst_ne hid helement hv, ← List.countP_eq_length_filter]
    exact hunique v

theorem find?_replaceFirst_self (hunique : AtMostOnce key target) :
    (replaceFirst (carries key id) element target).find? (carries key id) = element := by
  rw [← List.head?_filter, filter_replaceFirst_self hid helement hunique]
  cases element <;> rfl

theorem find?_replaceFirst_ne {v : Json} (hv : v ≠ id) (target : List Json) :
    (replaceFirst (carries key id) element target).find? (carries key v) =
      target.find? (carries key v) := by
  rw [← List.head?_filter, filter_replaceFirst_ne hid helement hv, List.head?_filter]

end Step

/-- A patch of a keyed list: its items are objects, whose keys are texts or integers. -/
def KeyedItems (key : String) (items : List Json) : Prop :=
  ∀ item ∈ items, item.WellFormed ∧ ∃ id, item.member? key = some id ∧ IsKey id

/-- A patch of a keyed list, taken apart at its first item. -/
theorem exists_first {item : Json} (hkey : isDirectiveKey key = false)
    (hitems : KeyedItems key (item :: items))
    (h : strategicElements d (item :: items) path key false target = .ok merged) :
    ∃ id element, item.member? key = some id ∧ IsKey id ∧
      strategicValue d item path (target.find? (carries key id)) = .ok element ∧
      (∀ e, element = some e → e.member? key = some id) ∧
      (element = none ↔ isDeletion item = true) ∧
      strategicElements d items path key false (replaceFirst (carries key id) element target) =
        .ok merged := by
  rcases exists_item h with ⟨hskip, -⟩ | ⟨patch, id, element, rfl, hid, helement, hrest⟩
  · cases hskip
  · obtain ⟨hwell, id', hid', hisKey⟩ := hitems _ List.mem_cons_self
    obtain rfl := Option.some.inj (hid'.symm.trans hid)
    refine ⟨id', element, hid', hisKey, helement, ?_, ?_, hrest⟩
    · rintro e rfl
      exact member?_of_item (Json.WellFormedObject.sorted hwell) hkey hid hisKey helement
    · rcases strategicValue_obj_cases helement with ⟨hdelete, rfl⟩ | ⟨hdelete, -, -, out, -, -, rfl⟩
      · simp [hdelete]
      · simp [hdelete]

/-! ## All items -/

theorem named_cons_self {item : Json} (h : IsKey id) (hid : item.member? key = some id)
    (items : List Json) : named key id (item :: items) = item :: named key id items :=
  List.filter_cons_of_pos ((carries_iff h).mpr hid)

theorem named_cons_ne {item v : Json} (h : IsKey id) (hid : item.member? key = some id)
    (hv : v ≠ id) (items : List Json) : named key v (item :: items) = named key v items :=
  List.filter_cons_of_neg (by simp [carries_eq_false h hv hid])

/-- **The keys stay apart, and each element is what the items with its key make of it in turn.** -/
theorem elements_in_turn (hkey : isDirectiveKey key = false) (hitems : KeyedItems key items)
    (hunique : AtMostOnce key target)
    (h : strategicElements d items path key false target = .ok merged) :
    AtMostOnce key merged ∧ ∀ id, IsKey id →
      mergeInTurn d path (named key id items) (target.find? (carries key id)) =
        .ok (merged.find? (carries key id)) := by
  induction items generalizing target with
  | nil =>
    rw [strategicElements] at h
    obtain rfl := Except.ok.inj h
    exact ⟨hunique, fun _ _ => rfl⟩
  | cons item items ih =>
    obtain ⟨id, element, hid, hisKey, hmerge, helement, -, hrest⟩ := exists_first hkey hitems h
    obtain ⟨hmerged, hturn⟩ := ih (fun i hi => hitems i (List.mem_cons_of_mem _ hi))
      (hunique.replaceFirst hisKey helement) hrest
    refine ⟨hmerged, fun v hv => ?_⟩
    have hlater := hturn v hv
    by_cases heq : v = id
    · subst heq
      rw [find?_replaceFirst_self hisKey helement hunique] at hlater
      rw [named_cons_self hisKey hid, mergeInTurn, List.foldlM_cons, hmerge]
      exact hlater
    · rw [find?_replaceFirst_ne hisKey helement heq] at hlater
      rw [named_cons_ne hisKey hid heq]
      exact hlater

/-- No item has the key of the element. -/
def unnamed (key : String) (items : List Json) (e : Json) : Bool :=
  items.all fun item => !(item.member? key).any (carries key · e)

/-- What no item can name stays, in its order. -/
theorem filter_elements {q : Json → Bool} (hkey : isDirectiveKey key = false)
    (hitems : KeyedItems key items)
    (hq : ∀ item ∈ items, ∀ id, item.member? key = some id → ∀ e, carries key id e = true →
      q e = false)
    (h : strategicElements d items path key false target = .ok merged) :
    merged.filter q = target.filter q := by
  induction items generalizing target with
  | nil =>
    rw [strategicElements] at h
    obtain rfl := Except.ok.inj h
    rfl
  | cons item items ih =>
    obtain ⟨id, element, hid, hisKey, -, helement, -, hrest⟩ := exists_first hkey hitems h
    have hfirst := hq item List.mem_cons_self id hid
    rw [ih (fun i hi => hitems i (List.mem_cons_of_mem _ hi))
      (fun i hi => hq i (List.mem_cons_of_mem _ hi)) hrest]
    exact filter_replaceFirst_other hfirst
      (fun e he => hfirst e ((carries_iff hisKey).mpr (helement e he))) target

/-! ## The order of the elements -/

/-- No element of the target has the key of the element, or an item deletes it. -/
def Added (key : String) (items target : List Json) (e : Json) : Prop :=
  ∃ id, e.member? key = some id ∧ IsKey id ∧
    ((∀ t ∈ target, t.member? key ≠ some id) ∨ (named key id items).any isDeletion = true)

/-- The elements of the target come first, in their order, and what is added comes after them. -/
def Ordered (key : String) (items target merged : List Json) : Prop :=
  ∃ kept added, merged = kept ++ added ∧
    (kept.map (·.member? key)).Sublist (target.map (·.member? key)) ∧
    ∀ e ∈ added, Added key items target e

section Ordered

variable {item e : Json} {before after : List Json}

theorem any_isDeletion_cons {v : Json} (h : (named key v items).any isDeletion = true) :
    (named key v (item :: items)).any isDeletion = true := by
  obtain ⟨i, hi, hdeletes⟩ := List.any_eq_true.mp h
  obtain ⟨hmem, hcarries⟩ := List.mem_filter.mp hi
  exact List.any_eq_true.mpr
    ⟨i, List.mem_filter.mpr ⟨List.mem_cons_of_mem _ hmem, hcarries⟩, hdeletes⟩

/-- What is added after an item is added after it and the items before. The element that the item
names was there, so if it is missing then, the item has deleted it. -/
theorem Added.of_replaced (hid : item.member? key = some id) (hisKey : IsKey id)
    (helement : ∀ e, element = some e → e.member? key = some id)
    (hdelete : element = none → isDeletion item = true) (hekey : e.member? key = some id) {a : Json}
    (h : Added key items (before ++ (element.toList ++ after)) a) :
    Added key (item :: items) (before ++ e :: after) a := by
  obtain ⟨v, hv, hvkey, habsent | hdeleted⟩ := h
  · refine ⟨v, hv, hvkey, ?_⟩
    by_cases hsame : v = id
    · subst hsame
      refine Or.inr ?_
      cases element with
      | none => rw [named_cons_self hisKey hid, List.any_cons, hdelete rfl, Bool.true_or]
      | some e' => exact absurd (helement e' rfl) (habsent e' (by simp))
    · refine Or.inl fun t ht => ?_
      rcases List.mem_append.mp ht with ht | ht
      · exact habsent t (List.mem_append_left _ ht)
      · rcases List.mem_cons.mp ht with rfl | ht
        · rw [hekey]
          exact fun heq => hsame (Option.some.inj heq).symm
        · exact habsent t (List.mem_append_right _ (List.mem_append_right _ ht))
  · exact ⟨v, hv, hvkey, Or.inr (any_isDeletion_cons hdeleted)⟩

/-- An element that is there is replaced where it stands, or goes. -/
theorem Ordered.of_replaced (hid : item.member? key = some id) (hisKey : IsKey id)
    (helement : ∀ e, element = some e → e.member? key = some id)
    (hdelete : element = none → isDeletion item = true) (hekey : e.member? key = some id)
    (h : Ordered key items (before ++ (element.toList ++ after)) merged) :
    Ordered key (item :: items) (before ++ e :: after) merged := by
  obtain ⟨kept, added, rfl, hkept, hadded⟩ := h
  refine ⟨kept, added, rfl, hkept.trans ?_, fun a ha =>
    (hadded a ha).of_replaced hid hisKey helement hdelete hekey⟩
  simp only [List.map_append, List.map_cons]
  refine List.Sublist.append_left ?_ _
  cases element with
  | none => exact List.sublist_cons_self _ _
  | some e' =>
    rw [hekey, ← helement e' rfl]
    exact List.Sublist.refl _

/-- What was not there is added at the end. -/
theorem Ordered.of_appended (hisKey : IsKey id)
    (helement : ∀ e, element = some e → e.member? key = some id)
    (hnone : ∀ t ∈ target, t.member? key ≠ some id)
    (h : Ordered key items (target ++ element.toList) merged) :
    Ordered key (item :: items) target merged := by
  obtain ⟨kept, added, rfl, hkept, hadded⟩ := h
  rw [List.map_append] at hkept
  obtain ⟨old, new, hsplit, hold, hnew⟩ := List.sublist_append_iff.mp hkept
  obtain ⟨stay, come, rfl, rfl, rfl⟩ := List.map_eq_append_iff.mp hsplit
  refine ⟨stay, come ++ added, List.append_assoc .., hold, fun a ha => ?_⟩
  rcases List.mem_append.mp ha with ha | ha
  · obtain ⟨e, he, hekey⟩ := List.mem_map.mp (hnew.subset (List.mem_map_of_mem ha))
    exact ⟨id, hekey.symm.trans (helement e (Option.mem_toList.mp he)), hisKey, Or.inl hnone⟩
  · obtain ⟨v, hv, hvkey, habsent | hdeleted⟩ := hadded a ha
    · exact ⟨v, hv, hvkey, Or.inl fun t ht => habsent t (List.mem_append_left _ ht)⟩
    · exact ⟨v, hv, hvkey, Or.inr (any_isDeletion_cons hdeleted)⟩

end Ordered

/-- **The elements that were there come first**, and what was not there or is deleted comes after
them. -/
theorem ordered_elements (hkey : isDirectiveKey key = false) (hitems : KeyedItems key items)
    (h : strategicElements d items path key false target = .ok merged) :
    Ordered key items target merged := by
  induction items generalizing target with
  | nil =>
    rw [strategicElements] at h
    obtain rfl := Except.ok.inj h
    exact ⟨target, [], (List.append_nil _).symm, List.Sublist.refl _, List.forall_mem_nil _⟩
  | cons item items ih =>
    obtain ⟨id, element, hid, hisKey, -, helement, hdelete, hrest⟩ := exists_first hkey hitems h
    have hordered := ih (fun i hi => hitems i (List.mem_cons_of_mem _ hi)) hrest
    rcases replaceFirst_cases (carries key id) element target with
      ⟨before, e, after, rfl, he, heq⟩ | ⟨hnone, heq⟩
    · rw [heq] at hordered
      exact hordered.of_replaced hid hisKey helement hdelete.mp ((carries_iff hisKey).mp he)
    · rw [heq] at hordered
      refine hordered.of_appended hisKey helement fun t ht hcarries => ?_
      exact Bool.false_ne_true ((hnone t ht).symm.trans ((carries_iff hisKey).mpr hcarries))

/-! ## The whole list -/

theorem mergeInTurn_concat {item : Json} {result : Option Json} :
    mergeInTurn d path (items ++ [item]) element = .ok result ↔
      ∃ middle, mergeInTurn d path items element = .ok middle ∧
        strategicValue d item path middle = .ok result := by
  simp only [mergeInTurn, List.foldlM_append, List.foldlM_cons, List.foldlM_nil, bind_pure]
  exact bind_eq_ok_iff

/-- Items after the last deletion start from nothing. -/
theorem mergeInTurn_since {items : List Json} {element result : Option Json}
    (hitems : ∀ item ∈ items, item.isObject = true)
    (h : mergeInTurn d path items element = .ok result) :
    mergeInTurn d path (items.rtakeWhile fun item => !isDeletion item)
      (if items.any isDeletion then none else element) = .ok result := by
  induction items using List.reverseRecOn generalizing result with
  | nil => exact h
  | append_singleton items item ih =>
    obtain ⟨middle, hmiddle, hlast⟩ := mergeInTurn_concat.mp h
    have hbefore := ih (fun i hi => hitems i (List.mem_append_left _ hi)) hmiddle
    have hobject := hitems item (List.mem_append_right _ List.mem_cons_self)
    cases item with
    | obj patch =>
      rw [List.any_append, List.any_cons, List.any_nil, Bool.or_false, List.rtakeWhile_concat]
      rcases strategicValue_obj_cases hlast with ⟨hdelete, rfl⟩ | ⟨hdelete, -⟩
      · simp only [hdelete, Bool.not_true, Bool.false_eq_true, if_false, Bool.or_true, if_true]
        rfl
      · rw [hdelete, Bool.or_false, Bool.not_false, if_pos rfl]
        exact mergeInTurn_concat.mpr ⟨middle, hbefore, hlast⟩
    | _ => cases hobject

/-- What merging a patch into a keyed list comes to. -/
structure MergedByKey (d : Definition) (path key : String) (items target merged : List Json) :
    Prop where
  /-- Elements whose key no item has stay as they are, in their order. -/
  others_eq : merged.filter (unnamed key items) = target.filter (unnamed key items)
  /-- No two elements have the same key. -/
  unique : AtMostOnce key merged
  /-- There is an element with the key of an item exactly if the last such item is no deletion. -/
  present_iff : ∀ id, IsKey id → ∀ item, (named key id items).getLast? = some item →
    ((∃ e ∈ merged, e.member? key = some id) ↔ isDeletion item = false)
  /-- The element with a key is what the items with that key, from the last deletion on, make of the
  element that was there, or of nothing if it is deleted. -/
  element_eq : ∀ id, IsKey id →
    mergeInTurn d path ((named key id items).rtakeWhile fun item => !isDeletion item)
        (if (named key id items).any isDeletion then none else target.find? (carries key id)) =
      .ok (merged.find? (carries key id))
  /-- What is added stands after the elements that were there. -/
  ordered : Ordered key items target merged

/-- **A patch of a keyed list loses nothing and puts nothing twice.** If no two elements have the
same key, the items of the patch are objects whose keys are texts or integers, and none of them
starts the list from nothing, then each element of the result is what the items with its key make of
it. The key must not look like a directive, for members of patches that do are ignored. -/
theorem keyed_merge (hlist : d.listStrategy? path = some (.keyed key))
    (hkey : isDirectiveKey key = false) (hunique : AtMostOnce key target)
    (hitems : KeyedItems key items) (hmarker : items.any isReplaceMarker = false)
    {result : Option Json}
    (h : strategicValue d (.arr items) path (some (.arr target)) = .ok result) :
    ∃ merged, result = some (.arr merged) ∧ MergedByKey d path key items target merged := by
  obtain ⟨merged, rfl, helements⟩ := strategicValue_keyed hlist h
  rw [hmarker, if_neg Bool.false_ne_true] at helements
  obtain ⟨hmerged, hturn⟩ := elements_in_turn hkey hitems hunique helements
  refine ⟨merged, rfl, ?_, hmerged, ?_, ?_, ordered_elements hkey hitems helements⟩
  · refine filter_elements hkey hitems (fun item hitem id hid e he => ?_) helements
    rw [unnamed, List.all_eq_false]
    exact ⟨item, hitem, by simp [hid, he]⟩
  · intro id hid item hlast
    obtain ⟨earlier, hearlier⟩ := List.getLast?_eq_some_iff.mp hlast
    have hlastTurn := hturn id hid
    rw [hearlier] at hlastTurn
    obtain ⟨middle, -, hresult⟩ := mergeInTurn_concat.mp hlastTurn
    have hobject := isObject_of_mem_named (hearlier ▸ List.mem_append_right _ List.mem_cons_self)
    have hfound : (∃ e ∈ merged, e.member? key = some id) ↔
        (merged.find? (carries key id)).isSome = true := by
      simp only [List.find?_isSome, carries_iff hid]
    rw [hfound]
    cases item with
    | obj patch =>
      rcases strategicValue_obj_cases hresult with
        ⟨hdelete, hnone⟩ | ⟨hdelete, -, -, out, -, -, hsome⟩
      · simp [hdelete, hnone]
      · simp [hdelete, hsome]
    | _ => cases hobject
  · intro id hid
    exact mergeInTurn_since (fun item hitem => isObject_of_mem_named hitem) (hturn id hid)

/-- Pods, whose containers are known by their names. -/
def podKind : Definition :=
  (Definition.ofKind Schema.pod).listAt "spec.containers" (.keyed "name")

/-- A container with a name and an image. -/
def container (name image : String) : Json := .obj [("image", .str image), ("name", .str name)]

/-- A patch that adds a container, deletes one, and changes the new one. -/
def containersPatch : List Json :=
  [container "b" "b:1", .obj [("$patch", .str "delete"), ("name", .str "a")], container "b" "b:2"]

/-- The new container is merged twice, and the one that was there is gone. -/
theorem keyed_merge_containers :
    AtMostOnce "name" [container "a" "a:1"] ∧ KeyedItems "name" containersPatch ∧
      strategicValue podKind (.arr containersPatch) "spec.containers"
        (some (.arr [container "a" "a:1"])) = .ok (some (.arr [container "b" "b:2"])) ∧
      MergedByKey podKind "spec.containers" "name" containersPatch [container "a" "a:1"]
        [container "b" "b:2"] := by
  have hunique : AtMostOnce "name" [container "a" "a:1"] := fun v => List.countP_le_length
  have hitems : KeyedItems "name" containersPatch := by
    simp only [KeyedItems, containersPatch, List.forall_mem_cons]
    exact ⟨⟨by decide +kernel, _, rfl, trivial⟩, ⟨by decide +kernel, _, rfl, trivial⟩,
      ⟨by decide +kernel, _, rfl, trivial⟩, List.forall_mem_nil _⟩
  have hmerge : strategicValue podKind (.arr containersPatch) "spec.containers"
      (some (.arr [container "a" "a:1"])) = .ok (some (.arr [container "b" "b:2"])) := rfl
  obtain ⟨merged, heq, hmerged⟩ := keyed_merge rfl rfl hunique hitems rfl hmerge
  obtain rfl := Json.arr.inj (Option.some.inj heq)
  exact ⟨hunique, hitems, hmerge, hmerged⟩

/-- **A key that looks like a directive is lost.** The member is ignored when the item is merged, so
the element that the item adds has no key. -/
theorem directive_key_lost :
    let d := (Definition.ofKind Schema.configMap).listAt "items" (.keyed "$id")
    let items := [Json.obj [("$id", .str "x"), ("size", .int 1)]]
    d.listStrategy? "items" = some (.keyed "$id") ∧ AtMostOnce "$id" [] ∧
      KeyedItems "$id" items ∧ items.any isReplaceMarker = false ∧
      strategicValue d (.arr items) "items" (some (.arr [])) =
        .ok (some (.arr [.obj [("size", .int 1)]])) ∧
      ¬ MergedByKey d "items" "$id" items [] [.obj [("size", .int 1)]] := by
  refine ⟨rfl, fun v => Nat.zero_le 1, ?_, rfl, rfl, fun h => ?_⟩
  · rintro item hitem
    obtain rfl := List.mem_singleton.mp hitem
    exact ⟨by decide +kernel, _, rfl, trivial⟩
  · obtain ⟨e, he, hkey⟩ := (h.present_iff (.str "x") trivial _ rfl).mpr rfl
    obtain rfl := List.mem_singleton.mp he
    cases hkey

end Patch

end ControlPlane
