import ControlPlane.Decimal.Shortest

/-!
# The nearest float

A fraction is rounded to the 64-bit float nearest to it; of two that are equally near the one with
the even mantissa is taken. A product or quotient of floats is the float nearest to the exact one.
-/

namespace ControlPlane.Decimal

/-- The quotient rounded to the nearest integer, a half going to the even one. -/
def roundQuotient (value denominator : Nat) : Nat :=
  let d := value / denominator
  let twice := 2 * (value % denominator)
  if twice < denominator || (twice == denominator && d % 2 == 0) then d else d + 1

/-- The bits of the float nearest to a fraction that is not negative; none if it is too large. -/
def nearestFraction? (value denominator : Nat) : Option UInt64 :=
  let q₀ : Int := (value.log2 : Int) - denominator.log2 - 53
  let scaled (q : Int) := (value * Nat.pow 2 (-q).toNat, denominator * Nat.pow 2 q.toNat)
  let q₁ := if 2 * leadingBit ≤ (scaled q₀).1 / (scaled q₀).2 then q₀ + 1 else q₀
  let q := max q₁ (-1074)
  let m := roundQuotient (scaled q).1 (scaled q).2
  let (m, q) := if m = 2 * leadingBit then (leadingBit, q + 1) else (m, q)
  if 971 < q then none
  else if m < leadingBit then some (UInt64.ofNat m)
  else some (UInt64.ofNat ((q + 1075).toNat * leadingBit + (m - leadingBit)))

/-- A positive float, given by its bits, as a fraction. -/
def fraction (bits : UInt64) : Nat × Nat :=
  let (m, q) := significand bits
  (m * Nat.pow 2 q.toNat, Nat.pow 2 (-q).toNat)

/-- The float nearest to the product of two positive floats; none if it is too large. -/
def product? (a b : UInt64) : Option UInt64 :=
  let (n, d) := fraction a
  let (n', d') := fraction b
  nearestFraction? (n * n') (d * d')

/-- The float nearest to the quotient of two positive floats; none if it is too large. -/
def quotient? (a b : UInt64) : Option UInt64 :=
  let (n, d) := fraction a
  let (n', d') := fraction b
  nearestFraction? (n * d') (d * n')

example : nearestFraction? 1 10 = some 0x3FB999999999999A := by decide +kernel
example : nearestFraction? 0 1 = some 0 := by decide +kernel
example : nearestFraction? 17976931348623157 1 = some 0x434FEEF63F97D79A := by decide +kernel
example : quotient? 0x3FF0000000000000 0x4024000000000000 = some 0x3FB999999999999A := by
  decide +kernel
example : product? 0x7FE0000000000000 0x4000000000000000 = none := by decide +kernel

end ControlPlane.Decimal
