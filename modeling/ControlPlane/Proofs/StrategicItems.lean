import ControlPlane.Proofs.Patched

/-!
# The items of a strategic patch

A strategic patch of a keyed list takes its items one after the other. Each is merged into the first
element that has its key, and takes its place; if there is none, what comes of the item is added at
the end. A deletion has nothing come of it. So the list is searched and changed at one place only,
which `Patch.replaceFirst` is about, and the rest is what the patch of a single element does.

* `Patch.carries`, `Patch.replaceFirst`: the elements with a key, and a change of the first of them.
* `Patch.strategicElements_cons`, `Patch.exists_item`: one item, as a merge and a change of the
  list.
* `Patch.start_cases`, `Patch.items_cases`: what members and items are merged into.
* `Patch.strategicValue_obj_cases`: what comes of an item.
* `Patch.strategicMember_eq`, `Patch.get?_applyDeletions`, `Patch.applyDeletions_eq_self`: its
  members.
-/

namespace ControlPlane

namespace Patch

/-! ## The first element with a key -/

/-- The element has the value at the key. -/
def carries (key : String) (v element : Json) : Bool := (element.member? key).any (· == v)

/-- The list with the first element that is meant replaced, or left out if there is nothing in its
place. What is put in place of an element that is not there is added at the end. -/
def replaceFirst (p : Json → Bool) (element : Option Json) : List Json → List Json
  | [] => element.toList
  | e :: target => if p e then element.toList ++ target else e :: replaceFirst p element target

variable {p q : Json → Bool} {element : Option Json} {target : List Json}

theorem erase_position (p : Json → Bool) (target : List Json) :
    (match target.findIdx? p with
      | some i => target.eraseIdx i
      | none => target) = replaceFirst p none target := by
  induction target with
  | nil => rfl
  | cons e target ih =>
    rw [List.findIdx?_cons, replaceFirst]
    by_cases he : p e = true
    · simp [he]
    · rw [if_neg he, if_neg he, ← ih]
      cases target.findIdx? p <;> rfl

theorem put_position (p : Json → Bool) (element : Json) (target : List Json) :
    put target (target.findIdx? p) element = replaceFirst p (some element) target := by
  induction target with
  | nil => rfl
  | cons e target ih =>
    rw [List.findIdx?_cons, replaceFirst]
    by_cases he : p e = true
    · simp [he, put]
    · rw [if_neg he, if_neg he, ← ih]
      cases target.findIdx? p <;> rfl

theorem filter_replaceFirst (p : Json → Bool) (element : Option Json) (target : List Json) :
    (replaceFirst p element target).filter p =
      element.toList.filter p ++ (target.filter p).tail := by
  induction target with
  | nil => simp [replaceFirst]
  | cons e target ih =>
    rw [replaceFirst]
    by_cases he : p e = true
    · simp [he]
    · simp [he, ih]

/-- What is no element that is meant stays. -/
theorem filter_replaceFirst_other (hpq : ∀ e, p e = true → q e = false)
    (helement : ∀ e, element = some e → q e = false) (target : List Json) :
    (replaceFirst p element target).filter q = target.filter q := by
  have hnew : element.toList.filter q = [] := by
    cases element with
    | none => rfl
    | some e => simp [helement e rfl]
  induction target with
  | nil => exact hnew
  | cons e target ih =>
    rw [replaceFirst]
    by_cases he : p e = true
    · rw [if_pos he, List.filter_append, hnew, List.nil_append, List.filter_cons_of_neg]
      simp [hpq e he]
    · rw [if_neg he, List.filter_cons, List.filter_cons, ih]

/-- Where the first element that is meant stands. -/
theorem replaceFirst_cases (p : Json → Bool) (element : Option Json) (target : List Json) :
    (∃ before e after, target = before ++ e :: after ∧ p e = true ∧
      replaceFirst p element target = before ++ (element.toList ++ after)) ∨
    (∀ e ∈ target, p e = false) ∧ replaceFirst p element target = target ++ element.toList := by
  induction target with
  | nil => exact Or.inr ⟨List.forall_mem_nil _, rfl⟩
  | cons e target ih =>
    rw [replaceFirst]
    by_cases he : p e = true
    · exact Or.inl ⟨[], e, target, rfl, he, if_pos he⟩
    · rw [if_neg he]
      rcases ih with ⟨before, e', after, rfl, he', heq⟩ | ⟨hnone, heq⟩
      · exact Or.inl ⟨e :: before, e', after, rfl, he', congrArg (e :: ·) heq⟩
      · rw [heq]
        exact Or.inr ⟨List.forall_mem_cons.mpr ⟨by simpa using he, hnone⟩, rfl⟩

theorem mem_replaceFirst {e : Json} (h : e ∈ replaceFirst p element target) :
    element = some e ∨ e ∈ target := by
  rcases replaceFirst_cases p element target with ⟨before, old, after, rfl, -, heq⟩ | ⟨-, heq⟩
  · rw [heq] at h
    rcases List.mem_append.mp h with h | h
    · exact Or.inr (List.mem_append_left _ h)
    · rcases List.mem_append.mp h with h | h
      · exact Or.inl (Option.mem_toList.mp h)
      · exact Or.inr (List.mem_append_right _ (List.mem_cons_of_mem _ h))
  · rw [heq, List.mem_append, Option.mem_toList] at h
    exact h.symm

/-- Putting the element that is meant in its own place changes nothing. -/
theorem replaceFirst_find? (p : Json → Bool) (target : List Json) :
    replaceFirst p (target.find? p) target = target := by
  induction target with
  | nil => rfl
  | cons e target ih =>
    rw [replaceFirst]
    by_cases he : p e = true
    · rw [if_pos he, List.find?_cons_of_pos he]
      rfl
    · rw [if_neg he, List.find?_cons_of_neg he, ih]

/-! ## One item -/

variable {d : Definition} {path key : String} {skip : Bool} {items merged : List Json}
  {patch : Json.Members} {id : Json}

/-- **One item of a patch is merged into the first element with its key**, as if that were the
target of the item. -/
theorem strategicElements_cons (hskip : (skip && isBareDirective (.obj patch)) = false)
    (hid : (SortedMap.get? patch key).filter (!·.isNull) = some id) :
    strategicElements d (.obj patch :: items) path key skip target = (do
      let element ← strategicValue d (.obj patch) path (target.find? (carries key id))
      strategicElements d items path key skip (replaceFirst (carries key id) element target)) := by
  have hfind : target.find? (carries key id) = (position? key id target).bind (target[·]?) :=
    List.find?_eq_bind_findIdx?_getElem?
  rw [strategicElements, if_neg (by simpa using hskip)]
  simp only [hid]
  rw [strategicValue, ← hfind]
  cases directive patch with
  | error fault => rfl
  | ok action =>
    by_cases haction : action = .delete
    · subst haction
      simp only [bind, Except.bind, if_true, pure, Except.pure]
      rw [← erase_position]
      rfl
    · simp only [bind, Except.bind, if_neg haction]
      cases strategicMembers d patch path _ with
      | error fault => rfl
      | ok members =>
        dsimp only
        cases applyDeletions path patch members with
        | error fault => rfl
        | ok members =>
          simp only [pure, Except.pure]
          rw [← put_position]
          rfl

/-- The item deletes the element with its key. -/
def isDeletion (item : Json) : Bool :=
  match item.member? directiveKey with
  | some (.str "delete") => true
  | _ => false

theorem directive_eq_delete_iff :
    directive patch = .ok .delete ↔ isDeletion (.obj patch) = true := by
  unfold directive isDeletion Json.member? Json.members
  split <;> simp_all

/-- The members of a patch are merged into nothing, or into those of an object. -/
theorem start_cases (action : Directive) (value : Option Json) :
    action.start ((value.bind Json.members?).getD []) = [] ∨
      ∃ members, value = some (.obj members) ∧
        action.start ((value.bind Json.members?).getD []) = members := by
  unfold Directive.start
  split
  · exact Or.inl rfl
  · cases value with
    | none => exact Or.inl rfl
    | some value =>
      cases value with
      | obj members => exact Or.inr ⟨members, rfl, rfl⟩
      | _ => exact Or.inl rfl

/-- The items of a patch are merged into nothing, or into those of a list. -/
theorem items_cases (value : Option Json) :
    (value.bind Json.items?).getD [] = [] ∨
      ∃ items, value = some (.arr items) ∧ (value.bind Json.items?).getD [] = items := by
  cases value with
  | none => exact Or.inl rfl
  | some value =>
    cases value with
    | arr items => exact Or.inr ⟨items, rfl, rfl⟩
    | _ => exact Or.inl rfl

/-- What an item makes of its element: nothing if it is a deletion, and else an object. -/
theorem strategicValue_obj_cases {element' : Option Json}
    (h : strategicValue d (.obj patch) path element = .ok element') :
    isDeletion (.obj patch) = true ∧ element' = none ∨
    isDeletion (.obj patch) = false ∧ ∃ action members out,
      strategicMembers d patch path
          (Directive.start action ((element.bind Json.members?).getD [])) = .ok members ∧
        applyDeletions path patch members = .ok out ∧ element' = some (.obj out) := by
  rw [strategicValue] at h
  obtain ⟨action, haction, h⟩ := bind_eq_ok_iff.mp h
  split at h
  · next hdelete =>
    subst hdelete
    exact Or.inl ⟨directive_eq_delete_iff.mp haction, (pure_eq_ok_iff.mp h).symm⟩
  · next hdelete =>
    obtain ⟨members, hmembers, h⟩ := bind_eq_ok_iff.mp h
    obtain ⟨out, hout, h⟩ := bind_eq_ok_iff.mp h
    refine Or.inr ⟨?_, action, members, out, hmembers, hout, (pure_eq_ok_iff.mp h).symm⟩
    rw [Bool.eq_false_iff]
    intro hitem
    exact hdelete (Except.ok.inj (haction.symm.trans (directive_eq_delete_iff.mpr hitem)))

/-- What a patch makes of one member of its target. Directives make nothing of it. -/
def strategicMember (d : Definition) (path : String) (patch target : Json.Members) (key : String) :
    Except PatchFault (Option Json) :=
  match if isDirectiveKey key then none else SortedMap.get? patch key with
  | none => .ok (SortedMap.get? target key)
  | some value => strategicValue d value (joinPath path key) (SortedMap.get? target key)

/-- **Members are merged each for itself.** -/
theorem strategicMember_eq {members out : Json.Members} (hpatch : SortedMap.Sorted patch)
    (h : strategicMembers d patch path members = .ok out) (key : String) :
    strategicMember d path patch members key = .ok (SortedMap.get? out key) := by
  induction patch generalizing members with
  | nil =>
    rw [strategicMembers] at h
    obtain rfl := Except.ok.inj h
    unfold strategicMember
    split
    · rfl
    · next hvalue => simp at hvalue
  | cons entry patch ih =>
    obtain ⟨name, value⟩ := entry
    obtain ⟨hname, hpatch⟩ := SortedMap.sorted_cons.mp hpatch
    rw [strategicMembers] at h
    by_cases hdirective : isDirectiveKey name = true
    · rw [if_pos hdirective] at h
      rw [← ih hpatch h, strategicMember, strategicMember, SortedMap.get?_cons]
      by_cases hkey : name = key
      · subst hkey
        rw [if_pos hdirective, if_pos hdirective]
      · rw [if_neg hkey]
    · rw [if_neg hdirective] at h
      obtain ⟨value', hvalue', h⟩ := bind_eq_ok_iff.mp h
      rw [← ih hpatch h, strategicMember, strategicMember, SortedMap.get?_cons, SortedMap.get?_set]
      by_cases hkey : name = key
      · subst hkey
        have hfresh : SortedMap.get? patch name = none := SortedMap.get?_eq_none_of_lt hname
        simp only [if_neg hdirective, if_true, hfresh, hvalue']
      · rw [if_neg hkey, if_neg (Ne.symm hkey)]

/-- Values are deleted from lists only, and what is left is a list. -/
theorem get?_applyDeletions {members out : Json.Members}
    (h : applyDeletions path patch members = .ok out) (key : String) :
    SortedMap.get? out key = SortedMap.get? members key ∨
      ∃ before after, SortedMap.get? members key = some (.arr before) ∧
        SortedMap.get? out key = some (.arr after) := by
  induction patch generalizing members with
  | nil =>
    rw [applyDeletions] at h
    obtain rfl := Except.ok.inj h
    exact Or.inl rfl
  | cons entry patch ih =>
    obtain ⟨name, value⟩ := entry
    rw [applyDeletions] at h
    split at h
    · exact ih h
    · next field _ =>
      split at h
      · split at h
        · next before hbefore =>
          by_cases hkey : key = field
          · subst hkey
            rcases ih h with heq | ⟨_, after, -, hafter⟩
            · exact Or.inr ⟨before, _, hbefore, heq.trans (SortedMap.get?_insert_self ..)⟩
            · exact Or.inr ⟨before, after, hbefore, hafter⟩
          · rw [← SortedMap.get?_insert_of_ne members _ hkey]
            exact ih h
        · exact ih h
      · cases h

/-- A key that deletes values from a set starts with a dollar sign. -/
theorem isDirectiveKey_of_deletionField? {field : String} (h : deletionField? key = some field) :
    isDirectiveKey key = true := by
  obtain ⟨rest, hrest, -⟩ := Option.map_eq_some_iff.mp h
  have hstart : deletionStart.toList.head? = some '$' := by decide
  rw [isDirectiveKey, Text.after?_eq_some_iff.mp hrest, List.head?_append, hstart]
  rfl

theorem deletionField?_eq_none (h : isDirectiveKey key = false) : deletionField? key = none := by
  rw [Option.eq_none_iff_forall_ne_some]
  intro field hfield
  exact Bool.false_ne_true (h.symm.trans (isDirectiveKey_of_deletionField? hfield))

/-- A patch without keys that delete values deletes none. -/
theorem applyDeletions_eq_self (h : ∀ e ∈ patch, deletionField? e.1 = none)
    (members : Json.Members) : applyDeletions path patch members = .ok members := by
  induction patch with
  | nil => rfl
  | cons e patch ih =>
    obtain ⟨key, value⟩ := e
    obtain ⟨hkey, hpatch⟩ := List.forall_mem_cons.mp h
    simp only [applyDeletions, hkey]
    exact ih hpatch

/-- What is left to do after the first item, which is left out or merged. -/
theorem exists_item {item : Json}
    (h : strategicElements d (item :: items) path key skip target = .ok merged) :
    (skip && isBareDirective item) = true ∧
        strategicElements d items path key skip target = .ok merged ∨
      ∃ patch id element, item = .obj patch ∧ SortedMap.get? patch key = some id ∧
        strategicValue d item path (target.find? (carries key id)) = .ok element ∧
        strategicElements d items path key skip (replaceFirst (carries key id) element target) =
          .ok merged := by
  have hcases := h
  unfold strategicElements at hcases
  by_cases hskip : (skip && isBareDirective item) = true
  · rw [if_pos hskip] at hcases
    exact Or.inl ⟨hskip, hcases⟩
  · rw [if_neg hskip] at hcases
    cases item with
    | obj patch =>
      cases hid : (SortedMap.get? patch key).filter (!·.isNull) with
      | none =>
        simp only [hid] at hcases
        cases hcases
      | some id =>
        rw [strategicElements_cons (Bool.eq_false_iff.mpr hskip) hid] at h
        obtain ⟨element, helement, hrest⟩ := bind_eq_ok_iff.mp h
        have hget := (Option.filter_eq_some_iff.mp hid).1
        exact Or.inr ⟨patch, id, element, rfl, hget, helement, hrest⟩
    | _ => cases hcases

/-! ## The whole list -/

/-- The items with a value at the key. -/
def named (key : String) (v : Json) (items : List Json) : List Json :=
  items.filter (carries key v)

theorem strategicValue_keyed_eq (hlist : d.listStrategy? path = some (.keyed key))
    (value : Option Json) :
    strategicValue d (.arr items) path value = (do
      let merged ← strategicElements d items path key (items.any isReplaceMarker)
        (if items.any isReplaceMarker then [] else (value.bind Json.items?).getD [])
      return some (.arr merged)) := by
  rw [strategicValue]
  simp only [hlist]

/-- The list that an element of a patch is merged into, and the elements that are merged. -/
theorem strategicValue_keyed (hlist : d.listStrategy? path = some (.keyed key))
    {value : Option Json} {result : Option Json}
    (h : strategicValue d (.arr items) path value = .ok result) :
    ∃ merged, result = some (.arr merged) ∧
      strategicElements d items path key (items.any isReplaceMarker)
        (if items.any isReplaceMarker then [] else (value.bind Json.items?).getD []) =
          .ok merged := by
  rw [strategicValue_keyed_eq hlist] at h
  obtain ⟨merged, hmerged, h⟩ := bind_eq_ok_iff.mp h
  exact ⟨merged, (pure_eq_ok_iff.mp h).symm, hmerged⟩

theorem isObject_of_mem_named {item v : Json} (hitem : item ∈ named key v items) :
    item.isObject = true := by
  have hcarries := (List.mem_filter.mp hitem).2
  rw [carries] at hcarries
  cases hmember : item.member? key with
  | none => simp [hmember] at hcarries
  | some value => exact Json.isObject_of_member? hmember

end Patch

end ControlPlane
