/-!
# Resource versions

Every committed change of a store gets the next number of one sequence as its version. Objects carry
the version of their last change as decimal text.

* `Version.parse?_text`: the text of a version reads as that version.
-/

namespace ControlPlane

/-- The version of a change. Versions start at one; zero is the version of a store without changes.
A version has 64 bits in text. -/
abbrev Version := Nat

namespace Version

/-- The version of the change after the one at `v`. -/
def next (v : Version) : Version := v + 1

/-- The decimal text of a version. -/
def text (v : Version) : String := String.ofList (Nat.toDigits 10 v)

/-- The number that decimal digits stand for. -/
def ofDigits? : List Char → Nat → Option Nat
  | [], n => some n
  | c :: cs, n => if c.isDigit then ofDigits? cs (10 * n + (c.toNat - '0'.toNat)) else none

/-- Reads a version: decimal digits, at least one, with an optional plus sign before them, for a
number of 64 bits. -/
def parse? (s : String) : Option Version :=
  let digits := match s.toList with
    | '+' :: digits => digits
    | digits => digits
  match digits with
  | [] => none
  | digits => (ofDigits? digits 0).filter fun n => n < UInt64.size

theorem ofDigits?_eq {cs : List Char} (h : ∀ c ∈ cs, c.isDigit = true) (n : Nat) :
    ofDigits? cs n = some (Nat.ofDigitChars 10 cs n) := by
  induction cs generalizing n with
  | nil => rfl
  | cons c cs ih =>
    have htail : ∀ c' ∈ cs, c'.isDigit = true := fun c' hc' => h c' (List.mem_cons_of_mem _ hc')
    rw [ofDigits?, if_pos (h c List.mem_cons_self), ih htail, Nat.ofDigitChars_cons]

/-- The text of a version reads as that version, if it has 64 bits. -/
theorem parse?_text (v : Version) :
    parse? v.text = if v < UInt64.size then some v else none := by
  have hdigits : ∀ c ∈ Nat.toDigits 10 v, c.isDigit = true := by
    intro c hc
    exact Nat.isDigit_of_mem_toDigits (by decide) (by decide) hc
  have hread := ofDigits?_eq hdigits 0
  rw [Nat.ofDigitChars_ten_toDigits] at hread
  unfold parse? text
  rw [String.toList_ofList]
  cases hcs : Nat.toDigits 10 v with
  | nil => exact absurd hcs Nat.toDigits_ne_nil
  | cons c cs =>
    rw [hcs] at hdigits hread
    split
    · next digits heq =>
      -- A sign is no digit.
      obtain rfl := (List.cons.inj heq).1
      exact absurd (hdigits '+' List.mem_cons_self) (by decide)
    · dsimp only
      rw [hread, Option.filter_some]
      simp only [decide_eq_true_eq]

end Version

end ControlPlane
