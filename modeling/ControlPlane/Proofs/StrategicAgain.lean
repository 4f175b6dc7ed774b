import ControlPlane.Proofs.KeyedList

/-!
# Strategic patches that are applied again

A strategic patch that is merged into what came of it changes nothing more. The argument follows the
patch. What it removes is not there any more; a value that takes the place of another one takes its
own place; a set has all the items already. In a list with keys each item finds the element that
came of it, because the items have different keys, and what comes of an item has its key; so the
item is merged into what it made before, which is the same argument one level further down. A map
or a list that is to start from nothing does so again, and comes out the same whatever was there.

Two elements with one key would break this: a deletion removes the first of them, and the second one
the next time. So would a key that starts with a dollar sign, since it is ignored when the item is
merged, and the item is added once more each time.

* `Patch.KeysApart`, `Patch.Repeatable`: what may be patched, and by what.
* `Patch.Stable`: merging the patch again changes nothing.
* `Patch.strategicMembers_again`, `Patch.strategicElements_again`, `Patch.mergeSet_again`: members,
  elements with keys, and sets.
* `Patch.strategic_idempotent`: the whole document.
* `Patch.added_again`: a key that looks like a directive.
-/

namespace ControlPlane

namespace Patch

variable {d : Definition} {path key : String} {skip : Bool} {item : Json}
  {items merged target : List Json} {patch members out : Json.Members}

/-! ## What may be patched, and by what -/

mutual

/-- In the lists with keys that a patch may reach in the value, no two elements have the same
key. -/
def KeysApart (d : Definition) : Json → String → Prop
  | .obj members, path => MembersKeysApart d members path
  | .arr items, path =>
    match d.listStrategy? path with
    | some (.keyed key) => AtMostOnce key items ∧ ItemsKeysApart d items path
    | _ => True
  | _, _ => True
termination_by structural json => json

/-- The same of every member of an object at the path. -/
def MembersKeysApart (d : Definition) : List (String × Json) → String → Prop
  | [], _ => True
  | (key, value) :: members, path =>
    KeysApart d value (joinPath path key) ∧ MembersKeysApart d members path
termination_by structural members => members

/-- The same of every element of a list at the path. -/
def ItemsKeysApart (d : Definition) : List Json → String → Prop
  | [], _ => True
  | item :: items, path => KeysApart d item path ∧ ItemsKeysApart d items path
termination_by structural items => items

end

theorem membersKeysApart_iff :
    MembersKeysApart d members path ↔ ∀ e ∈ members, KeysApart d e.2 (joinPath path e.1) := by
  induction members with
  | nil => simp [MembersKeysApart]
  | cons e members ih => simp only [MembersKeysApart, ih, List.forall_mem_cons]

theorem itemsKeysApart_iff :
    ItemsKeysApart d items path ↔ ∀ item ∈ items, KeysApart d item path := by
  induction items with
  | nil => simp [ItemsKeysApart]
  | cons item items ih => simp only [ItemsKeysApart, ih, List.forall_mem_cons]

/-- The items have texts or integers as keys, and no two have the same. -/
def NamedOnce (key : String) (items : List Json) : Prop :=
  (∀ item ∈ items, ∃ id, item.member? key = some id ∧ IsKey id) ∧ AtMostOnce key items

mutual

/-- The patch deletes no values from sets, and the items it has for lists with keys, apart from
markers, have texts or integers as keys, and no two have the same. -/
def Repeatable (d : Definition) : Json → String → Prop
  | .obj members, path => MembersRepeatable d members path
  | .arr items, path =>
    match d.listStrategy? path with
    | some (.keyed key) =>
      NamedOnce key (items.filter fun item => !isReplaceMarker item) ∧ ItemsRepeatable d items path
    | _ => True
  | _, _ => True
termination_by structural patch => patch

/-- The same of every member of an object at the path. -/
def MembersRepeatable (d : Definition) : List (String × Json) → String → Prop
  | [], _ => True
  | (key, value) :: members, path =>
    deletionField? key = none ∧
      (isDirectiveKey key = false → Repeatable d value (joinPath path key)) ∧
        MembersRepeatable d members path
termination_by structural members => members

/-- The same of every item of a list at the path. -/
def ItemsRepeatable (d : Definition) : List Json → String → Prop
  | [], _ => True
  | item :: items, path => Repeatable d item path ∧ ItemsRepeatable d items path
termination_by structural items => items

end

theorem membersRepeatable_iff :
    MembersRepeatable d patch path ↔ ∀ e ∈ patch, deletionField? e.1 = none ∧
      (isDirectiveKey e.1 = false → Repeatable d e.2 (joinPath path e.1)) := by
  induction patch with
  | nil => simp [MembersRepeatable]
  | cons e patch ih => simp only [MembersRepeatable, ih, List.forall_mem_cons, and_assoc]

theorem itemsRepeatable_iff :
    ItemsRepeatable d items path ↔ ∀ item ∈ items, Repeatable d item path := by
  induction items with
  | nil => simp [ItemsRepeatable]
  | cons item items ih => simp only [ItemsRepeatable, ih, List.forall_mem_cons]

/-- The value may be patched: its keys ascend, and are apart where a patch may reach them. -/
def Patchable (d : Definition) (path : String) (value : Option Json) : Prop :=
  ∀ v, value = some v → v.WellFormed ∧ KeysApart d v path

/-- Merging the patch into what came of it changes nothing. -/
def Stable (d : Definition) (patch : Json) : Prop :=
  patch.WellFormed → ∀ (path : String) (target result : Option Json), Patchable d path target →
    Repeatable d patch path → strategicValue d patch path target = .ok result →
    strategicValue d patch path result = .ok result

/-! ## Maps -/

theorem strategicMembers_eq_self (hmembers : SortedMap.Sorted members)
    (h : ∀ e ∈ patch, isDirectiveKey e.1 = false →
      strategicValue d e.2 (joinPath path e.1) (SortedMap.get? members e.1) =
        .ok (SortedMap.get? members e.1)) :
    strategicMembers d patch path members = .ok members := by
  induction patch with
  | nil => rw [strategicMembers]
  | cons entry patch ih =>
    obtain ⟨name, value⟩ := entry
    obtain ⟨hvalue, hpatch⟩ := List.forall_mem_cons.mp h
    rw [strategicMembers]
    by_cases hkey : isDirectiveKey name = true
    · rw [if_pos hkey]
      exact ih hpatch
    · rw [if_neg hkey, hvalue (by simpa using hkey)]
      simp only [bind, Except.bind, SortedMap.set_eq_self hmembers]
      exact ih hpatch

/-- **Members that are merged again stay.** -/
theorem strategicMembers_again (hstable : ∀ e ∈ patch, Stable d e.2)
    (hpatch : Json.WellFormedObject patch) (hmembers : SortedMap.Sorted members)
    (htarget : ∀ key, Patchable d (joinPath path key) (SortedMap.get? members key))
    (hrepeat : MembersRepeatable d patch path)
    (h : strategicMembers d patch path members = .ok out) :
    strategicMembers d patch path out = .ok out := by
  refine strategicMembers_eq_self (sorted_strategicMembers hmembers h) fun e he hkey => ?_
  have hvalue := SortedMap.get?_of_mem hpatch.sorted he
  have hfirst := strategicMember_eq hpatch.sorted h e.1
  rw [strategicMember, if_neg (by simp [hkey]), hvalue] at hfirst
  exact hstable e he (hpatch.wellFormed hvalue) _ _ _ (htarget e.1)
    ((membersRepeatable_iff.mp hrepeat e he).2 hkey) hfirst

theorem sorted_start (action : Directive) {value : Option Json}
    (h : ∀ v, value = some v → v.WellFormed) :
    SortedMap.Sorted (action.start ((value.bind Json.members?).getD [])) := by
  rcases start_cases action value with hnil | ⟨members, rfl, hmembers⟩
  · rw [hnil]
    exact SortedMap.sorted_nil
  · rw [hmembers]
    exact Json.WellFormedObject.sorted (h _ rfl)

theorem patchable_start (action : Directive) {value : Option Json} (h : Patchable d path value)
    (key : String) : Patchable d (joinPath path key)
      (SortedMap.get? (action.start ((value.bind Json.members?).getD [])) key) := by
  rcases start_cases action value with hnil | ⟨members, rfl, hmembers⟩
  · rw [hnil]
    nofun
  · rw [hmembers]
    intro v hv
    obtain ⟨hwell, hapart⟩ := h _ rfl
    exact ⟨Json.WellFormedObject.wellFormed hwell hv,
      membersKeysApart_iff.mp hapart _ (SortedMap.mem_of_get? hv)⟩

theorem stable_obj (hstable : ∀ e ∈ patch, Stable d e.2) : Stable d (.obj patch) := by
  intro hpatch path target result htarget hrepeat h
  rw [strategicValue] at h
  obtain ⟨action, haction, h⟩ := bind_eq_ok_iff.mp h
  by_cases hdelete : action = .delete
  · rw [if_pos hdelete] at h
    obtain rfl := pure_eq_ok_iff.mp h
    rw [strategicValue, haction]
    exact if_pos hdelete
  · rw [if_neg hdelete] at h
    have hdeletions : ∀ members, applyDeletions path patch members = .ok members :=
      applyDeletions_eq_self fun e he => (membersRepeatable_iff.mp hrepeat e he).1
    obtain ⟨members, hmembers, h⟩ := bind_eq_ok_iff.mp h
    rw [hdeletions] at h
    obtain rfl := pure_eq_ok_iff.mp h
    -- A map that starts from nothing does so again, and any other one from what came of it.
    have hagain : strategicMembers d patch path (action.start members) = .ok members := by
      by_cases hreplace : action = .replace
      · rw [Directive.start, if_pos hreplace] at hmembers ⊢
        exact hmembers
      · rw [Directive.start, if_neg hreplace]
        have hsorted := sorted_start action fun v hv => (htarget v hv).1
        exact strategicMembers_again hstable hpatch hsorted (patchable_start action htarget) hrepeat
          hmembers
    rw [strategicValue, haction]
    simp only [bind, Except.bind, if_neg hdelete, Option.bind_some, Json.members?, Option.getD_some,
      hagain, hdeletions]
    rfl

/-! ## Sets -/

theorem mergeSet_eq_self
    (h : ∀ item ∈ items, ((skip && isBareDirective item) || target.contains item) = true) :
    mergeSet skip items target = target := by
  induction items with
  | nil => rfl
  | cons item items ih =>
    obtain ⟨hitem, hitems⟩ := List.forall_mem_cons.mp h
    rw [mergeSet, List.foldl_cons, if_pos hitem]
    exact ih hitems

theorem contains_mergeSet_of_contains (h : target.contains item = true) :
    (mergeSet skip items target).contains item = true := by
  induction items generalizing target with
  | nil => exact h
  | cons first items ih =>
    rw [mergeSet, List.foldl_cons]
    refine ih ?_
    split
    · exact h
    · rw [List.contains_append, h, Bool.true_or]

theorem contains_mergeSet (h : item ∈ items) :
    ((skip && isBareDirective item) || (mergeSet skip items target).contains item) = true := by
  induction items generalizing target with
  | nil => cases h
  | cons first items ih =>
    rw [mergeSet, List.foldl_cons]
    rcases List.mem_cons.mp h with rfl | h
    · split
      · next hold =>
        rcases Bool.or_eq_true_iff.mp hold with hskip | hold
        · rw [hskip, Bool.true_or]
        · exact Bool.or_eq_true_iff.mpr (Or.inr (contains_mergeSet_of_contains hold))
      · refine Bool.or_eq_true_iff.mpr (Or.inr (contains_mergeSet_of_contains ?_))
        rw [List.contains_append, List.contains_cons, Json.beq_self, Bool.true_or, Bool.or_true]
    · exact ih h

/-- **Items that are added again are there.** -/
theorem mergeSet_again (skip : Bool) (items target : List Json) :
    mergeSet skip items (mergeSet skip items target) = mergeSet skip items target :=
  mergeSet_eq_self fun _ hitem => contains_mergeSet hitem

/-! ## Lists with keys -/

/-- Each item finds what it makes. -/
theorem strategicElements_eq_self
    (h : ∀ item ∈ items, ∃ id, item.member? key = some id ∧ IsKey id ∧
      strategicValue d item path (merged.find? (carries key id)) =
        .ok (merged.find? (carries key id))) :
    strategicElements d items path key false merged = .ok merged := by
  induction items with
  | nil => rw [strategicElements]
  | cons item items ih =>
    obtain ⟨⟨id, hid, hisKey, hitem⟩, hitems⟩ := List.forall_mem_cons.mp h
    cases item with
    | obj patch =>
      have hget : (SortedMap.get? patch key).filter (!·.isNull) = some id :=
        Option.filter_eq_some_iff.mpr ⟨hid, by rw [hisKey.isNull_eq]; rfl⟩
      rw [strategicElements_cons (Bool.false_and _) hget, hitem]
      simp only [bind, Except.bind, replaceFirst_find?]
      exact ih hitems
    | _ => cases hid

theorem named_eq_singleton {id : Json} (hone : AtMostOnce key items) (hitem : item ∈ items)
    (hisKey : IsKey id) (hid : item.member? key = some id) : named key id items = [item] := by
  have hmem : item ∈ named key id items := List.mem_filter.mpr ⟨hitem, (carries_iff hisKey).mpr hid⟩
  have hlength : (named key id items).length ≤ 1 := by
    rw [named, ← List.countP_eq_length_filter]
    exact hone id
  obtain ⟨other, hother⟩ := List.length_eq_one_iff.mp
    (Nat.le_antisymm hlength (List.length_pos_of_mem hmem))
  rw [hother] at hmem ⊢
  rw [List.mem_singleton.mp hmem]

/-- **Elements with keys that are merged again stay.** Each of them is what one item makes of the
element that was there. -/
theorem strategicElements_again (hstable : ∀ item ∈ items, Stable d item)
    (hkey : isDirectiveKey key = false) (hwell : ∀ item ∈ items, item.WellFormed)
    (hnamed : NamedOnce key items) (hrepeat : ∀ item ∈ items, Repeatable d item path)
    (hunique : AtMostOnce key target) (htarget : ∀ e ∈ target, e.WellFormed ∧ KeysApart d e path)
    (h : strategicElements d items path key false target = .ok merged) :
    strategicElements d items path key false merged = .ok merged := by
  have hkeyed : KeyedItems key items := fun item hitem => ⟨hwell item hitem, hnamed.1 item hitem⟩
  refine strategicElements_eq_self fun item hitem => ?_
  obtain ⟨id, hid, hisKey⟩ := hnamed.1 item hitem
  have hturn := (elements_in_turn hkey hkeyed hunique h).2 id hisKey
  rw [named_eq_singleton hnamed.2 hitem hisKey hid] at hturn
  simp only [mergeInTurn, List.foldlM_cons, List.foldlM_nil, bind_pure] at hturn
  exact ⟨id, hid, hisKey, hstable item hitem (hwell item hitem) _ _ _
    (fun e he => htarget e (List.mem_of_find?_eq_some he)) (hrepeat item hitem) hturn⟩

theorem filter_markers (h : items.any isReplaceMarker = false) :
    items.filter (fun item => !isReplaceMarker item) = items := by
  rw [List.filter_eq_self]
  intro item hitem
  rw [Bool.not_eq_true', Bool.eq_false_iff]
  exact List.any_eq_false.mp h item hitem

theorem mem_lists (hlist : d.listStrategy? path = some (.keyed key)) :
    (path, ListStrategy.keyed key) ∈ d.lists := by
  obtain ⟨⟨path', strategy⟩, he, hstrategy⟩ := Option.map_eq_some_iff.mp hlist
  obtain rfl : path' = path := by simpa using List.find?_some he
  obtain rfl : strategy = .keyed key := hstrategy
  exact List.mem_of_find?_eq_some he

theorem patchable_base (hlist : d.listStrategy? path = some (.keyed key)) {value : Option Json}
    (h : Patchable d path value) :
    AtMostOnce key ((value.bind Json.items?).getD []) ∧
      ∀ e ∈ (value.bind Json.items?).getD [], e.WellFormed ∧ KeysApart d e path := by
  rcases items_cases value with hnil | ⟨elements, rfl, helements⟩
  · rw [hnil]
    exact ⟨fun _ => Nat.zero_le _, List.forall_mem_nil _⟩
  · rw [helements]
    obtain ⟨hwell, hapart⟩ := h _ rfl
    simp only [KeysApart, hlist] at hapart
    exact ⟨hapart.1, fun e he =>
      ⟨Json.wellFormed_arr.mp hwell e he, itemsKeysApart_iff.mp hapart.2 e he⟩⟩

theorem stable_arr (hkeys : ∀ path key, (path, ListStrategy.keyed key) ∈ d.lists →
      isDirectiveKey key = false)
    (hstable : ∀ item ∈ items, Stable d item) : Stable d (.arr items) := by
  intro hwell path target result htarget hrepeat h
  cases hlist : d.listStrategy? path with
  | none =>
    simp only [strategicValue, hlist] at h ⊢
    obtain rfl := pure_eq_ok_iff.mp h
    rfl
  | some strategy =>
    cases strategy with
    | set =>
      simp only [strategicValue, hlist] at h ⊢
      obtain rfl := pure_eq_ok_iff.mp h
      by_cases hmarker : items.any isReplaceMarker = true
      · rw [if_pos hmarker, if_pos hmarker]
        rfl
      · rw [if_neg hmarker, if_neg hmarker, Option.bind_some, Json.items?, Option.getD_some,
          mergeSet_again]
        rfl
    | keyed key =>
      rw [strategicValue_keyed_eq hlist] at h ⊢
      obtain ⟨merged, hmerged, h⟩ := bind_eq_ok_iff.mp h
      obtain rfl := pure_eq_ok_iff.mp h
      refine bind_eq_ok_iff.mpr ⟨merged, ?_, rfl⟩
      by_cases hmarker : items.any isReplaceMarker = true
      · -- The list starts from nothing again.
        rw [if_pos hmarker] at hmerged ⊢
        exact hmerged
      · rw [Bool.not_eq_true] at hmarker
        simp only [Repeatable, hlist, filter_markers hmarker] at hrepeat
        simp only [hmarker, Bool.false_eq_true, if_false] at hmerged ⊢
        obtain ⟨hunique, helements⟩ := patchable_base hlist htarget
        exact strategicElements_again hstable (hkeys path key (mem_lists hlist))
          (Json.wellFormed_arr.mp hwell) hrepeat.1 (itemsRepeatable_iff.mp hrepeat.2) hunique
          helements hmerged

/-! ## The whole document -/

/-- **A strategic patch is stable**, unless it merges lists by keys that look like directives. -/
theorem stable (hkeys : ∀ path key, (path, ListStrategy.keyed key) ∈ d.lists →
    isDirectiveKey key = false) (patch : Json) : Stable d patch := by
  induction patch using Json.induction_parts with
  | scalar json h =>
    intro _ path target result _ _ hmerge
    cases json with
    | arr items => exact h.elim
    | obj members => exact h.elim
    | _ =>
      obtain rfl := Except.ok.inj hmerge
      rfl
  | arr items ih => exact stable_arr hkeys ih
  | obj members ih => exact stable_obj ih

/-- **Strategic merging is idempotent.** If no two elements of a list with keys have the same key,
and the patch deletes no values from sets and has, for each list with keys, items with different
texts or integers as keys, then merging it into what came of it changes nothing. The keys of lists
must not look like directives, for members of patches that do are ignored. -/
theorem strategic_idempotent (hkeys : ∀ path key, (path, ListStrategy.keyed key) ∈ d.lists →
      isDirectiveKey key = false)
    {original document result : Json} (horiginal : original.WellFormed)
    (hapart : KeysApart d original "") (hdocument : document.WellFormed)
    (hrepeat : Repeatable d document "") (h : applyStrategic d original document = .ok result) :
    applyStrategic d result document = .ok result := by
  obtain ⟨value, hvalue, h⟩ := bind_eq_ok_iff.mp h
  have htarget : Patchable d "" (some original) := by
    intro v hv
    obtain rfl := Option.some.inj hv
    exact ⟨horiginal, hapart⟩
  have hagain := stable hkeys document hdocument "" _ _ htarget hrepeat hvalue
  cases value with
  | none => cases h
  | some merged =>
    obtain rfl := pure_eq_ok_iff.mp h
    exact bind_eq_ok_iff.mpr ⟨some merged, hagain, rfl⟩

/-- A pod with some labels and some containers. -/
def labelledPod (labels : Json.Members) (containers : List Json) : Json :=
  .obj [("metadata", .obj [("labels", .obj labels)]),
    ("spec", .obj [("containers", .arr containers)])]

/-- A patch that replaces the labels and deletes a container. -/
def cleanUpPatch : Json :=
  labelledPod [("$patch", .str "replace"), ("new", .str "1")]
    [.obj [("$patch", .str "delete"), ("name", .str "a")]]

/-- Labels are replaced and a container is deleted, and the same patch again finds nothing to do. -/
theorem strategic_idempotent_pod :
    applyStrategic podKind (labelledPod [("old", .str "1")] [container "a" "a:1"]) cleanUpPatch =
        .ok (labelledPod [("new", .str "1")] []) ∧
      applyStrategic podKind (labelledPod [("new", .str "1")] []) cleanUpPatch =
        .ok (labelledPod [("new", .str "1")] []) := by
  have hkeys : ∀ path key, (path, ListStrategy.keyed key) ∈ podKind.lists →
      isDirectiveKey key = false := by
    intro path key h
    simp only [podKind, Definition.listAt, Definition.ofKind, List.cons_append, List.nil_append,
      List.mem_cons, Prod.mk.injEq, ListStrategy.keyed.injEq, List.not_mem_nil] at h
    rcases h with ⟨-, rfl⟩ | ⟨-, h⟩ | ⟨-, rfl⟩ | h
    · rfl
    · cases h
    · rfl
    · cases h
  have hlist : podKind.listStrategy? (joinPath (joinPath "" "spec") "containers") =
      some (.keyed "name") := rfl
  have hapart : KeysApart podKind (labelledPod [("old", .str "1")] [container "a" "a:1"]) "" := by
    simp only [labelledPod, container, KeysApart, MembersKeysApart, ItemsKeysApart, hlist, and_true,
      true_and]
    exact fun v => List.countP_le_length
  have hrepeat : Repeatable podKind cleanUpPatch "" := by
    simp only [cleanUpPatch, labelledPod, Repeatable, MembersRepeatable, ItemsRepeatable, hlist]
    refine ⟨rfl, fun _ => ⟨rfl, fun _ => ⟨rfl, nofun, rfl, fun _ => trivial, trivial⟩, trivial⟩,
      rfl, fun _ => ⟨rfl, fun _ => ⟨⟨?_, fun v => List.countP_le_length⟩, ?_⟩, trivial⟩, trivial⟩
    · exact List.forall_mem_singleton.mpr ⟨.str "a", rfl, trivial⟩
    · exact ⟨⟨rfl, nofun, rfl, fun _ => trivial, trivial⟩, trivial⟩
  have hmerge : applyStrategic podKind (labelledPod [("old", .str "1")] [container "a" "a:1"])
      cleanUpPatch = .ok (labelledPod [("new", .str "1")] []) := rfl
  exact ⟨hmerge, strategic_idempotent hkeys (by decide +kernel) hapart (by decide +kernel)
    hrepeat hmerge⟩

/-- **An item is added again.** Its key looks like a directive and is ignored when the item is
merged, so the element that comes of it has no key, and the item does not find it. -/
theorem added_again :
    let d := (Definition.ofKind Schema.configMap).listAt "items" (.keyed "$id")
    let document := Json.obj [("items", .arr [.obj [("$id", .str "x"), ("size", .int 1)]])]
    let once := Json.obj [("items", .arr [.obj [("size", .int 1)]])]
    let twice := Json.obj [("items", .arr [.obj [("size", .int 1)], .obj [("size", .int 1)]])]
    document.WellFormed ∧ KeysApart d (.obj []) "" ∧ Repeatable d document "" ∧
      applyStrategic d (.obj []) document = .ok once ∧
      applyStrategic d once document = .ok twice ∧ once ≠ twice := by
  intro d document once twice
  have hlist : d.listStrategy? (joinPath "" "items") = some (.keyed "$id") := rfl
  refine ⟨by decide +kernel, trivial, ?_, rfl, rfl, by simp [once, twice]⟩
  simp only [document, Repeatable, MembersRepeatable, ItemsRepeatable, hlist]
  refine ⟨rfl, fun _ => ⟨⟨?_, fun v => List.countP_le_length⟩, ?_⟩, trivial⟩
  · exact List.forall_mem_singleton.mpr ⟨.str "x", rfl, trivial⟩
  · exact ⟨⟨rfl, nofun, rfl, fun _ => trivial, trivial⟩, trivial⟩

end Patch

end ControlPlane
