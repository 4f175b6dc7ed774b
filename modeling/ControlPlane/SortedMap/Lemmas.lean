import ControlPlane.SortedMap.Basic

/-!
# Laws of sorted maps

* `get?_insert_self`, `get?_insert_of_ne`, `get?_erase_self`, `get?_erase_of_ne`: reading after a
  write, for every list of entries.
* `sorted_insert`, `sorted_erase`, `sorted_set`: writing keeps the order.
* `get?_eq_some_iff`, `ext`: a sorted map is determined by its values.
* `length_insert_of_none`, `length_insert_of_some`, `length_erase_of_some`: how many entries a write
  leaves.
* `SortedSet.mem_ofMembers`: the set of the members of a list has the members of the list.
* `SortedSet.ofMembers_eq_self`: the set of the members of a set is the set.
-/

namespace ControlPlane

namespace SortedMap

variable {κ α : Type}

/-! ## Reading after a write -/

@[simp] theorem get?_nil [DecidableEq κ] (k : κ) : get? ([] : SortedMap κ α) k = none := rfl

theorem get?_cons [DecidableEq κ] (k k' : κ) (v : α) (m : SortedMap κ α) :
    get? ((k', v) :: m) k = if k' = k then some v else get? m k := rfl

@[simp] theorem get?_erase_self [DecidableEq κ] (m : SortedMap κ α) (k : κ) :
    get? (erase m k) k = none := by
  induction m with
  | nil => rfl
  | cons e m ih =>
    obtain ⟨k', v⟩ := e
    by_cases h : k' = k
    · simpa [erase, h] using ih
    · have : get? ((k', v) :: erase m k) k = none := by simp [get?_cons, h, ih]
      simpa [erase, h] using this

theorem get?_erase_of_ne [DecidableEq κ] (m : SortedMap κ α) {k k' : κ} (h : k' ≠ k) :
    get? (erase m k) k' = get? m k' := by
  induction m with
  | nil => rfl
  | cons e m ih =>
    obtain ⟨j, v⟩ := e
    by_cases hj : j = k
    · subst hj
      have : get? (erase ((j, v) :: m) j) k' = get? (erase m j) k' := by simp [erase]
      rw [this, ih, get?_cons, if_neg (Ne.symm h)]
    · have : get? (erase ((j, v) :: m) k) k' = get? ((j, v) :: erase m k) k' := by
        simp [erase, hj]
      rw [this, get?_cons, get?_cons, ih]

theorem mem_of_get? [DecidableEq κ] {m : SortedMap κ α} {k : κ} {v : α} (h : get? m k = some v) :
    (k, v) ∈ m := by
  induction m with
  | nil => simp at h
  | cons e m ih =>
    obtain ⟨j, w⟩ := e
    rw [get?_cons] at h
    split at h
    · next hj =>
      obtain rfl := Option.some.inj h
      exact hj ▸ List.mem_cons_self
    · exact List.mem_cons_of_mem _ (ih h)

section Lawful

variable [Ord κ] [Std.LawfulEqOrd κ] [DecidableEq κ]

@[simp] theorem get?_insert_self (m : SortedMap κ α) (k : κ) (v : α) :
    get? (insert m k v) k = some v := by
  induction m with
  | nil => simp [insert, get?_cons]
  | cons e m ih =>
    obtain ⟨k', v'⟩ := e
    cases h : compare k k' with
    | lt => simp [insert, h, get?_cons]
    | eq => simp [insert, h, get?_cons]
    | gt =>
      have hne : k' ≠ k := by
        rintro rfl
        simp at h
      simp [insert, h, get?_cons, hne, ih]

theorem get?_insert_of_ne (m : SortedMap κ α) {k k' : κ} (v : α) (hne : k' ≠ k) :
    get? (insert m k v) k' = get? m k' := by
  induction m with
  | nil => simp [insert, get?_cons, hne.symm]
  | cons e m ih =>
    obtain ⟨j, w⟩ := e
    cases h : compare k j with
    | lt => simp [insert, h, get?_cons, hne.symm]
    | eq =>
      have : k = j := Std.LawfulEqCmp.eq_of_compare h
      subst this
      simp [insert, get?_cons, hne.symm]
    | gt => simp [insert, h, get?_cons, ih]

end Lawful

/-! ## The order of the entries -/

section Order

variable [Ord κ]

@[simp] theorem sorted_nil : Sorted ([] : SortedMap κ α) := .nil

theorem sorted_cons {k : κ} {v : α} {m : SortedMap κ α} :
    Sorted ((k, v) :: m) ↔ (∀ e ∈ m, compare k e.1 = .lt) ∧ Sorted m := List.pairwise_cons

theorem sorted_filter {m : SortedMap κ α} (h : Sorted m) (p : κ × α → Bool) :
    Sorted (m.filter p) := List.Pairwise.filter _ h

theorem sorted_erase [DecidableEq κ] {m : SortedMap κ α} (h : Sorted m) (k : κ) :
    Sorted (erase m k) := sorted_filter h _

/-- What is in a map after a write was written or was there before. -/
theorem eq_or_mem_of_mem_insert {m : SortedMap κ α} {k : κ} {v : α} {e : κ × α}
    (h : e ∈ insert m k v) : e = (k, v) ∨ e ∈ m := by
  induction m with
  | nil => simpa [insert] using h
  | cons d m ih =>
    obtain ⟨j, w⟩ := d
    simp only [insert] at h
    split at h
    · simpa using h
    · rcases List.mem_cons.mp h with h | h
      · exact Or.inl h
      · exact Or.inr (List.mem_cons_of_mem _ h)
    · rcases List.mem_cons.mp h with h | h
      · exact Or.inr (h ▸ List.mem_cons_self)
      · exact (ih h).imp_right (List.mem_cons_of_mem _)

/-- Writing a value twice is writing it once. -/
theorem insert_insert [Std.ReflOrd κ] (m : SortedMap κ α) (k : κ) (v : α) :
    insert (insert m k v) k v = insert m k v := by
  induction m with
  | nil => simp [insert]
  | cons e m ih =>
    obtain ⟨k', v'⟩ := e
    rw [insert]
    cases hk : compare k k' with
    | lt => simp [insert]
    | eq => simp [insert]
    | gt => simp [insert, hk, ih]

theorem sorted_insert [Std.TransOrd κ] [Std.LawfulEqOrd κ] {m : SortedMap κ α} (h : Sorted m)
    (k : κ) (v : α) : Sorted (insert m k v) := by
  induction m with
  | nil => exact List.pairwise_singleton _ _
  | cons d m ih =>
    obtain ⟨j, w⟩ := d
    obtain ⟨hj, hm⟩ := sorted_cons.mp h
    simp only [insert]
    split
    · next hlt =>
      refine sorted_cons.mpr ⟨fun e he => ?_, h⟩
      rcases List.mem_cons.mp he with rfl | he
      · exact hlt
      · exact Std.TransCmp.lt_trans hlt (hj e he)
    · next heq =>
      obtain rfl := Std.LawfulEqCmp.eq_of_compare heq
      exact sorted_cons.mpr ⟨hj, hm⟩
    · next hgt =>
      refine sorted_cons.mpr ⟨fun e he => ?_, ih hm⟩
      rcases eq_or_mem_of_mem_insert he with rfl | he
      · exact Std.OrientedCmp.lt_of_gt hgt
      · exact hj e he

theorem sorted_set [Std.TransOrd κ] [Std.LawfulEqOrd κ] [DecidableEq κ] {m : SortedMap κ α}
    (h : Sorted m) (k : κ) (v? : Option α) : Sorted (set m k v?) := by
  cases v? with
  | none => exact sorted_erase h k
  | some v => exact sorted_insert h k v

/-! ## Sorted maps by their values -/

variable [Std.LawfulEqOrd κ] [DecidableEq κ]

theorem get?_of_mem {m : SortedMap κ α} (hm : Sorted m) {k : κ} {v : α} (h : (k, v) ∈ m) :
    get? m k = some v := by
  induction m with
  | nil => simp at h
  | cons e m ih =>
    obtain ⟨j, w⟩ := e
    obtain ⟨hj, hm⟩ := sorted_cons.mp hm
    rw [get?_cons]
    rcases List.mem_cons.mp h with h | h
    · obtain ⟨rfl, rfl⟩ := Prod.mk.inj h
      exact if_pos rfl
    · have hne : j ≠ k := by
        rintro rfl
        have := hj _ h
        simp at this
      rw [if_neg hne, ih hm h]

theorem get?_eq_some_iff {m : SortedMap κ α} (hm : Sorted m) {k : κ} {v : α} :
    get? m k = some v ↔ (k, v) ∈ m := ⟨mem_of_get?, get?_of_mem hm⟩

/-- A key before all the others is not among them. -/
theorem get?_eq_none_of_lt {m : SortedMap κ α} {k : κ} (h : ∀ e ∈ m, compare k e.1 = .lt) :
    get? m k = none := by
  cases hget : get? m k with
  | none => rfl
  | some v =>
    have hlt := h _ (mem_of_get? hget)
    simp at hlt

/-- Filtering the entries of a sorted map by their values filters its values. -/
theorem get?_filter {m : SortedMap κ α} (hm : Sorted m) (p : α → Bool) (k : κ) :
    get? (m.filter fun e => p e.2) k = (get? m k).filter p := by
  refine Option.ext fun v => ?_
  rw [get?_eq_some_iff (sorted_filter hm _), Option.filter_eq_some_iff, get?_eq_some_iff hm,
    List.mem_filter]

/-- Sorted maps with the same values at every key are equal. -/
theorem ext [Std.TransOrd κ] {m n : SortedMap κ α} (hm : Sorted m) (hn : Sorted n)
    (h : ∀ k, get? m k = get? n k) : m = n := by
  have hmem : ∀ e, e ∈ m ↔ e ∈ n := fun e => by
    rw [← get?_eq_some_iff hm, ← get?_eq_some_iff hn, h]
  induction m generalizing n with
  | nil =>
    cases n with
    | nil => rfl
    | cons e n => simpa using hmem e
  | cons e m ih =>
    cases n with
    | nil => simpa using hmem e
    | cons e' n =>
      obtain ⟨hle, hm'⟩ := List.pairwise_cons.mp hm
      obtain ⟨hle', hn'⟩ := List.pairwise_cons.mp hn
      have he : e = e' := by
        rcases List.mem_cons.mp ((hmem e).mp List.mem_cons_self) with he | he
        · exact he
        · rcases List.mem_cons.mp ((hmem e').mpr List.mem_cons_self) with he' | he'
          · exact he'.symm
          · have := Std.TransCmp.lt_trans (hle e' he') (hle' e he)
            simp at this
      subst he
      have hirr : ∀ d ∈ m, d ≠ e := fun d hd heq => by
        have := hle d hd
        simp [heq] at this
      have hirr' : ∀ d ∈ n, d ≠ e := fun d hd heq => by
        have := hle' d hd
        simp [heq] at this
      have htail : ∀ d, d ∈ m ↔ d ∈ n := fun d => by
        have := hmem d
        simp only [List.mem_cons] at this
        constructor
        · exact fun hd => (this.mp (Or.inr hd)).resolve_left (hirr d hd)
        · exact fun hd => (this.mpr (Or.inr hd)).resolve_left (hirr' d hd)
      congr 1
      refine ih hm' hn' (fun k => ?_) htail
      refine Option.ext fun v => ?_
      rw [get?_eq_some_iff hm', get?_eq_some_iff hn', htail]

/-! ## How many entries there are -/

/-- Writing the value at a new key makes one entry more. -/
theorem length_insert_of_none {m : SortedMap κ α} {k : κ} (h : get? m k = none) (v : α) :
    (insert m k v).length = m.length + 1 := by
  induction m with
  | nil => rfl
  | cons e m ih =>
    obtain ⟨j, w⟩ := e
    rw [get?_cons] at h
    split at h
    · cases h
    · next hj =>
      rw [insert]
      split
      · rfl
      · next heq => exact absurd (Std.LawfulEqCmp.eq_of_compare heq).symm hj
      · rw [List.length_cons, ih h, List.length_cons]

/-- Writing the value at a key that has one makes no entry more. -/
theorem length_insert_of_some [Std.TransOrd κ] {m : SortedMap κ α} (hm : Sorted m) {k : κ} {v : α}
    (h : get? m k = some v) (v' : α) : (insert m k v').length = m.length := by
  induction m with
  | nil => cases h
  | cons e m ih =>
    obtain ⟨j, w⟩ := e
    obtain ⟨hj, hm⟩ := sorted_cons.mp hm
    rw [get?_cons] at h
    rw [insert]
    split at h
    · next hjk =>
      subst hjk
      have hself : compare j j = .eq := Std.ReflCmp.compare_self
      rw [hself]
      rfl
    · have hgt : compare j k = .lt := hj _ (mem_of_get? h)
      split
      · next hlt =>
        rw [Std.OrientedCmp.gt_of_lt hgt] at hlt
        cases hlt
      · rfl
      · rw [List.length_cons, ih hm h, List.length_cons]

theorem length_erase_of_some {m : SortedMap κ α} (hm : Sorted m) {k : κ} {v : α}
    (h : get? m k = some v) : (erase m k).length + 1 = m.length := by
  induction m with
  | nil => cases h
  | cons e m ih =>
    obtain ⟨j, w⟩ := e
    obtain ⟨hj, hm⟩ := sorted_cons.mp hm
    rw [get?_cons] at h
    split at h
    · next hjk =>
      subst hjk
      have hrest : m.filter (fun e => decide (e.1 ≠ j)) = m := by
        refine List.filter_eq_self.mpr fun e he => ?_
        have hlt := hj e he
        have : e.1 ≠ j := by
          rintro rfl
          simp at hlt
        simpa using this
      have : erase ((j, w) :: m) j = m := by simpa [erase] using hrest
      rw [this, List.length_cons]
    · next hjk =>
      have : erase ((j, w) :: m) k = (j, w) :: erase m k := by simp [erase, hjk]
      rw [this, List.length_cons, ih hm h, List.length_cons]

end Order

end SortedMap

namespace SortedSet

variable {κ : Type} [Ord κ] [Std.LawfulEqOrd κ]

@[simp] theorem mem_insert {s : SortedSet κ} {x y : κ} : y ∈ insert s x ↔ y = x ∨ y ∈ s := by
  induction s with
  | nil => simp [insert]
  | cons z s ih =>
    simp only [insert]
    split
    · simp
    · next h =>
      obtain rfl := Std.LawfulEqCmp.eq_of_compare h
      simp
    · simp only [List.mem_cons, ih]
      exact or_left_comm

theorem mem_ofMembers {members : List κ} {y : κ} : y ∈ ofMembers members ↔ y ∈ members := by
  suffices ∀ s : SortedSet κ, y ∈ members.foldl insert s ↔ y ∈ members ∨ y ∈ s by
    simpa [ofMembers] using this []
  induction members with
  | nil => simp
  | cons x members ih =>
    intro s
    rw [List.foldl_cons, ih, mem_insert, List.mem_cons, or_left_comm, or_assoc]

/-- The members ascend strictly. -/
def Sorted (s : SortedSet κ) : Prop := s.Pairwise fun x y => compare x y = .lt

theorem sorted_insert [Std.TransOrd κ] {s : SortedSet κ} (h : Sorted s) (x : κ) :
    Sorted (insert s x) := by
  induction s with
  | nil => exact List.pairwise_singleton _ _
  | cons y s ih =>
    obtain ⟨hy, hs⟩ := List.pairwise_cons.mp h
    simp only [insert]
    split
    · next hlt =>
      exact List.pairwise_cons.mpr ⟨List.forall_mem_cons.mpr ⟨hlt, fun z hz =>
        Std.TransCmp.lt_trans hlt (hy z hz)⟩, h⟩
    · next heq =>
      obtain rfl := Std.LawfulEqCmp.eq_of_compare heq
      exact h
    · next hgt =>
      refine List.pairwise_cons.mpr ⟨fun z hz => ?_, ih hs⟩
      rcases mem_insert.mp hz with rfl | hz
      · exact Std.OrientedCmp.lt_of_gt hgt
      · exact hy z hz

theorem sorted_ofMembers [Std.TransOrd κ] (members : List κ) : Sorted (ofMembers members) := by
  suffices ∀ s : SortedSet κ, Sorted s → Sorted (members.foldl insert s) from this [] .nil
  induction members with
  | nil => exact fun s h => h
  | cons x members ih => exact fun s h => ih _ (sorted_insert h x)

omit [Std.LawfulEqOrd κ] in
/-- A member after all the others is added at the end. -/
theorem insert_of_forall_lt [Std.OrientedOrd κ] {s : SortedSet κ} {x : κ}
    (h : ∀ y ∈ s, compare y x = .lt) : insert s x = s ++ [x] := by
  induction s with
  | nil => rfl
  | cons y s ih =>
    obtain ⟨hy, hs⟩ := List.forall_mem_cons.mp h
    have hgt : compare x y = .gt := Std.OrientedCmp.gt_of_lt hy
    rw [insert, hgt, List.cons_append, ← ih hs]

omit [Std.LawfulEqOrd κ] in
/-- **The set of the members of a set is the set.** -/
theorem ofMembers_eq_self [Std.OrientedOrd κ] {s : SortedSet κ} (h : Sorted s) :
    ofMembers s = s := by
  suffices ∀ s t : SortedSet κ, Sorted (t ++ s) → s.foldl insert t = t ++ s from this s [] h
  intro s
  induction s with
  | nil => exact fun t _ => (List.append_nil t).symm
  | cons x s ih =>
    intro t h
    have hlt : ∀ y ∈ t, compare y x = .lt := fun y hy =>
      (List.pairwise_append.mp h).2.2 y hy x List.mem_cons_self
    rw [List.append_cons] at h
    rw [List.foldl_cons, insert_of_forall_lt hlt, ih (t ++ [x]) h, ← List.append_cons]

end SortedSet

end ControlPlane
