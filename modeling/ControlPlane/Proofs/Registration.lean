import ControlPlane.Catalog
import ControlPlane.SortedMap.Lemmas

/-!
# Where the names of a catalog lead

A catalog is built by registering kinds one after the other. A full name leads to the definition of
that full name, whatever was registered. A short name leads to the kind that took it first, so of
several kinds that bear one name only one is found by it.

* `Catalog.Built`: what registering keeps. One registration keeps it, and so do all.
* `Catalog.lookup_fullName`: the full name of a definition leads to it.
* `Catalog.lookup_own`: so does its short name, if no other kind bears that name.
-/

namespace ControlPlane

namespace Catalog

/-- The kind is found under the name: it is the full name, or one of the short ones. -/
def Bears (d : Definition) (name : String) : Prop := name = d.fullName ∨ name ∈ shortNames d

/-! ## Names that are reserved -/

theorem get?_reserve (position : Nat) (names : SortedMap String Nat) (name x : String) :
    SortedMap.get? (reserve position names name) x =
      (SortedMap.get? names x).or (if x = name then some position else none) := by
  unfold reserve SortedMap.has
  cases hname : SortedMap.get? names name with
  | some i =>
    rw [Option.isSome_some, if_pos rfl]
    by_cases hx : x = name
    · rw [hx, hname, Option.some_or]
    · rw [if_neg hx, Option.or_none]
  | none =>
    rw [Option.isSome_none, if_neg (by simp)]
    by_cases hx : x = name
    · rw [hx, SortedMap.get?_insert_self, hname, if_pos rfl, Option.none_or]
    · rw [SortedMap.get?_insert_of_ne _ _ hx, if_neg hx, Option.or_none]

/-- Names that lead somewhere are not taken again. -/
theorem get?_reserveAll (position : Nat) (names : SortedMap String Nat) (taken : List String)
    (x : String) :
    SortedMap.get? (taken.foldl (reserve position) names) x =
      (SortedMap.get? names x).or (if x ∈ taken then some position else none) := by
  induction taken generalizing names with
  | nil => simp
  | cons name taken ih =>
    rw [List.foldl_cons, ih, get?_reserve, Option.or_assoc]
    by_cases hx : x = name
    · simp [hx]
    · simp [hx]

/-! ## One registration -/

/-- The position at which a kind is registered: the one it has, or the next. -/
def position (c : Catalog) (d : Definition) : Nat :=
  (SortedMap.get? c.names d.fullName).getD c.definitions.length

/-- The full name always leads to the new definition, other names only if they led nowhere. -/
theorem get?_names_register (c : Catalog) (d : Definition) (x : String) :
    SortedMap.get? (c.register d).names x =
      if x = d.fullName then some (c.position d)
      else (SortedMap.get? c.names x).or
        (if x ∈ shortNames d then some (c.position d) else none) := by
  have hnames : (c.register d).names =
      SortedMap.insert ((shortNames d).foldl (reserve (c.position d)) c.names) d.fullName
        (c.position d) := rfl
  rw [hnames]
  by_cases hx : x = d.fullName
  · rw [if_pos hx, hx, SortedMap.get?_insert_self]
  · rw [if_neg hx, SortedMap.get?_insert_of_ne _ _ hx, get?_reserveAll]

/-- What a catalog of some registered kinds is like. -/
structure Built (c : Catalog) (registered : List Definition) : Prop where
  /-- Every name leads to a definition. -/
  leads : ∀ x i, SortedMap.get? c.names x = some i → i < c.definitions.length
  /-- The full name of a definition leads to it. -/
  full : ∀ (i : Nat) (d : Definition), c.definitions[i]? = some d →
    SortedMap.get? c.names d.fullName = some i
  /-- The short names of a definition lead somewhere. -/
  short : ∀ (i : Nat) (d : Definition), c.definitions[i]? = some d →
    ∀ x ∈ shortNames d, ∃ j, SortedMap.get? c.names x = some j
  /-- A name leads to where the full name of a kind leads that bears it. -/
  borne : ∀ x i, SortedMap.get? c.names x = some i →
    ∃ d ∈ registered, Bears d x ∧ SortedMap.get? c.names d.fullName = some i

theorem built_empty : empty.Built [] where
  leads x i h := by cases h
  full i d h := by cases h
  short i d h := by cases h
  borne x i h := by cases h

namespace Built

variable {c : Catalog} {registered : List Definition}

/-- A kind that is not known yet is registered after the others. -/
theorem definitions_register {c : Catalog} {d : Definition}
    (h : SortedMap.get? c.names d.fullName = none) :
    (c.register d).definitions = c.definitions ++ [d] := by
  rw [Catalog.register, h]

/-- A registration puts the definition at its position and leaves the others where they are. -/
theorem getElem?_register (hc : c.Built registered) (d : Definition) (i : Nat) :
    (c.register d).definitions[i]? =
      if i = c.position d then some d else c.definitions[i]? := by
  unfold register position
  cases h : SortedMap.get? c.names d.fullName with
  | none =>
    dsimp only [Option.getD_none]
    by_cases hi : i = c.definitions.length
    · simp [hi]
    · rw [if_neg hi, List.getElem?_append]
      by_cases hlt : i < c.definitions.length
      · rw [if_pos hlt]
      · have hpast : [d][i - c.definitions.length]? = none := by
          rw [List.getElem?_eq_none_iff, List.length_singleton]
          omega
        rw [if_neg hlt, hpast, List.getElem?_eq_none (by omega)]
  | some p =>
    dsimp only [Option.getD_some]
    rw [List.getElem?_set]
    by_cases hi : i = p
    · subst hi
      rw [if_pos rfl, if_pos rfl, if_pos (hc.leads _ _ h)]
    · rw [if_neg (Ne.symm hi), if_neg hi]

theorem length_register (hc : c.Built registered) (d : Definition) :
    c.definitions.length ≤ (c.register d).definitions.length ∧
      c.position d < (c.register d).definitions.length := by
  have hat := hc.getElem?_register d (c.position d)
  rw [if_pos rfl] at hat
  refine ⟨?_, (List.getElem?_eq_some_iff.mp hat).1⟩
  unfold register
  cases SortedMap.get? c.names d.fullName with
  | none => simp
  | some p => simp

/-- A kind that is registered already keeps its position. -/
theorem position_eq {d : Definition} {i : Nat}
    (h : SortedMap.get? c.names d.fullName = some i) : c.position d = i := by
  rw [position, h, Option.getD_some]

/-- Names that lead somewhere lead there still. -/
theorem get?_names_of_some {x : String} {i : Nat} (h : SortedMap.get? c.names x = some i)
    (d : Definition) : SortedMap.get? (c.register d).names x = some i := by
  rw [get?_names_register]
  by_cases hx : x = d.fullName
  · rw [if_pos hx, position_eq (hx ▸ h)]
  · rw [if_neg hx, h, Option.some_or]

/-- A name leads where it led, or to what was just registered, which then bears it. -/
theorem names_cases {d : Definition} {x : String} {i : Nat}
    (h : SortedMap.get? (c.register d).names x = some i) :
    SortedMap.get? c.names x = some i ∨ (Bears d x ∧ i = c.position d) := by
  rw [get?_names_register] at h
  by_cases hx : x = d.fullName
  · rw [if_pos hx] at h
    exact Or.inr ⟨Or.inl hx, (Option.some.inj h).symm⟩
  · rw [if_neg hx] at h
    cases hold : SortedMap.get? c.names x with
    | some j =>
      rw [hold, Option.some_or] at h
      exact Or.inl h
    | none =>
      rw [hold, Option.none_or] at h
      split at h
      · next hshort => exact Or.inr ⟨Or.inr hshort, (Option.some.inj h).symm⟩
      · cases h

/-- **One registration keeps what a catalog is like.** -/
theorem register (hc : c.Built registered) (d : Definition) :
    (c.register d).Built (registered ++ [d]) where
  leads x i h := by
    obtain ⟨hlength, hposition⟩ := hc.length_register d
    rcases names_cases h with hold | ⟨-, rfl⟩
    · exact Nat.lt_of_lt_of_le (hc.leads _ _ hold) hlength
    · exact hposition
  full i d' h := by
    rw [hc.getElem?_register] at h
    by_cases hi : i = c.position d
    · rw [if_pos hi] at h
      obtain rfl := Option.some.inj h
      rw [get?_names_register, if_pos rfl, hi]
    · rw [if_neg hi] at h
      exact get?_names_of_some (hc.full i d' h) d
  short i d' h x hx := by
    rw [hc.getElem?_register] at h
    by_cases hi : i = c.position d
    · rw [if_pos hi] at h
      obtain rfl := Option.some.inj h
      rw [get?_names_register]
      by_cases hfull : x = d.fullName
      · exact ⟨_, if_pos hfull⟩
      · rw [if_neg hfull, if_pos hx]
        cases SortedMap.get? c.names x with
        | some j => exact ⟨j, rfl⟩
        | none => exact ⟨_, rfl⟩
    · rw [if_neg hi] at h
      obtain ⟨j, hj⟩ := hc.short i d' h x hx
      exact ⟨j, get?_names_of_some hj d⟩
  borne x i h := by
    rcases names_cases h with hold | ⟨hbears, rfl⟩
    · obtain ⟨d', hd', hbears, hfull⟩ := hc.borne x i hold
      exact ⟨d', List.mem_append_left _ hd', hbears, get?_names_of_some hfull d⟩
    · exact ⟨d, by simp, hbears, by rw [get?_names_register, if_pos rfl]⟩

/-- **All registrations keep it.** -/
theorem registerAll (hc : c.Built registered) (ds : List Definition) :
    (c.registerAll ds).Built (registered ++ ds) := by
  induction ds generalizing c registered with
  | nil => simpa [Catalog.registerAll] using hc
  | cons d ds ih =>
    have h := ih (hc.register d)
    rw [List.append_assoc, List.singleton_append] at h
    exact h

/-! ## Look-ups -/

variable {i : Nat} {d : Definition}

theorem lookup_eq {x : String} (hx : SortedMap.get? c.names x = some i)
    (hd : c.definitions[i]? = some d) : c.lookup x = .ok d := by
  simp only [lookup, lookup?, hx, Option.bind_some, hd]

/-- **The full name of a definition leads to it.** -/
theorem lookup_fullName (hc : c.Built registered) (hd : c.definitions[i]? = some d) :
    c.lookup d.fullName = .ok d := lookup_eq (hc.full i d hd) hd

/-- No two definitions have one full name. -/
theorem position_of_fullName (hc : c.Built registered) {j : Nat} {d' : Definition}
    (hd : c.definitions[i]? = some d) (hd' : c.definitions[j]? = some d')
    (h : d.fullName = d'.fullName) : i = j := by
  have hi := hc.full i d hd
  rw [h, hc.full j d' hd'] at hi
  exact (Option.some.inj hi).symm

/-- A short name of a definition leads where the full name of a registered kind leads that bears
it. -/
theorem lookup_short (hc : c.Built registered) (hd : c.definitions[i]? = some d) {x : String}
    (hx : x ∈ shortNames d) :
    ∃ (j : Nat) (d' : Definition), c.definitions[j]? = some d' ∧ c.lookup x = .ok d' ∧
      ∃ e ∈ registered, Bears e x ∧ c.lookup e.fullName = .ok d' := by
  obtain ⟨j, hj⟩ := hc.short i d hd x hx
  have hd' := List.getElem?_eq_getElem (hc.leads x j hj)
  obtain ⟨e, he, hbears, hfull⟩ := hc.borne x j hj
  exact ⟨j, _, hd', lookup_eq hj hd', e, he, hbears, lookup_eq hfull hd'⟩

/-- **A short name that no other kind bears leads to its own kind.** -/
theorem lookup_own (hc : c.Built registered) (hd : c.definitions[i]? = some d) {x : String}
    (hx : x ∈ shortNames d) (hown : ∀ e ∈ registered, Bears e x → e.fullName = d.fullName) :
    c.lookup x = .ok d := by
  obtain ⟨j, d', -, hlookup, e, he, hbears, hfull⟩ := hc.lookup_short hd hx
  rw [hown e he hbears, hc.lookup_fullName hd] at hfull
  rw [hlookup, hfull]

end Built

end Catalog

end ControlPlane
