/-!
# The shortest decimal of a float

A finite 64-bit float is `m · 2 ^ q`. Every real number closer to it than to its neighbours reads
back as the float, and so do the two midpoints if `m` is even. Among the decimals in that interval
the shortest has the coarsest grid of powers of ten; of two on that grid the nearer is taken, and an
exact tie goes to the even digit.

All arithmetic is exact: a real number is a fraction of natural numbers.
-/

namespace ControlPlane.Decimal

/-- The leading bit of a mantissa of full length; the bits hold only what stands below it. -/
def leadingBit : Nat := 0x10000000000000

/-- The number of exponents that the bits distinguish. The last one marks what is not finite. -/
def exponents : Nat := 0x800

/-- The mantissa and the exponent of a float given by its bits, the sign aside. -/
def significand (bits : UInt64) : Nat × Int :=
  let fraction := bits.toNat % leadingBit
  let exponent := bits.toNat / leadingBit % exponents
  if exponent = 0 then (fraction, -1074)
  else (fraction + leadingBit, (exponent : Int) - 1075)

/-- The sign bit is set. -/
def isNegative (bits : UInt64) : Bool := leadingBit * exponents ≤ bits.toNat

/-- The float is neither infinite nor a NaN. -/
def isFinite (bits : UInt64) : Bool := bits.toNat / leadingBit % exponents + 1 < exponents

/-- A positive fraction and the interval around it, over one denominator. -/
structure Interval where
  low : Nat
  value : Nat
  high : Nat
  denominator : Nat
  /-- The ends belong to the interval. -/
  closed : Bool

namespace Interval

/-- The reals that read back as `m · 2 ^ q`. Below a power of two the neighbour is half as far. -/
def ofSignificand (m : Nat) (q : Int) : Interval :=
  let below := if m = leadingBit ∧ -1074 < q then 1 else 2
  let scale := Nat.pow 2 (q - 2).toNat
  { low := (4 * m - below) * scale
    value := 4 * m * scale
    high := (4 * m + 2) * scale
    denominator := Nat.pow 2 (2 - q).toNat
    closed := m % 2 = 0 }

/-- The interval in units of `10 ^ k`. -/
def scaled (i : Interval) (k : Int) : Interval :=
  let up := Nat.pow 10 (-k).toNat
  { i with
    low := i.low * up
    value := i.value * up
    high := i.high * up
    denominator := i.denominator * Nat.pow 10 k.toNat }

/-- The integer `d` lies in the interval. -/
def holds (i : Interval) (d : Nat) : Bool :=
  let x := d * i.denominator
  if i.closed then i.low ≤ x && x ≤ i.high else i.low < x && x < i.high

/-- The integer of the interval that is nearest to the value, if there is one. -/
def integer? (i : Interval) : Option Nat :=
  let d := i.value / i.denominator
  let below := i.value - d * i.denominator
  let above := (d + 1) * i.denominator - i.value
  let lower := d ≠ 0 && i.holds d
  let upper := i.holds (d + 1)
  if lower && upper then
    some (if below < above || (below == above && d % 2 == 0) then d else d + 1)
  else if lower then some d
  else if upper then some (d + 1)
  else none

end Interval

/-- The least `j` from `j₀` on with `denominator ≤ value · 10 ^ j`, within `fuel` steps. -/
def leadingZeros (value denominator : Nat) : Nat → Nat → Nat
  | 0, j => j
  | fuel + 1, j =>
    if denominator ≤ value * Nat.pow 10 j then j else leadingZeros value denominator fuel (j + 1)

/-- The exponent of the leading decimal digit of a positive fraction. -/
def leadingExponent (value denominator : Nat) : Int :=
  if denominator ≤ value then ((Nat.toDigits 10 (value / denominator)).length : Int) - 1
  else -(leadingZeros value denominator 400 1 : Int)

/-- The first grid at or below `10 ^ k` that meets the interval, with the digits found there. -/
def search (i : Interval) : Nat → Int → Nat × Int
  | 0, k => (i.value, k)
  | fuel + 1, k =>
    match (i.scaled k).integer? with
    | some d => (d, k)
    | none => search i fuel (k - 1)

/-- The digits without trailing zeros, which go into the exponent. -/
def stripZeros : Nat → Nat × Int → Nat × Int
  | 0, x => x
  | fuel + 1, (d, k) =>
    if d ≠ 0 ∧ d % 10 = 0 then stripZeros fuel (d / 10, k + 1) else (d, k)

/-- The digits `d` and the exponent `k` of the shortest decimal `d · 10 ^ k` that reads back as
the float, the sign aside. -/
def shortest (bits : UInt64) : Nat × Int :=
  let (m, q) := significand bits
  if m = 0 then (0, 0)
  else
    let i := Interval.ofSignificand m q
    stripZeros 20 (search i 20 (leadingExponent i.value i.denominator))

example : shortest 0x3FB999999999999A = (1, -1) := by decide +kernel
example : shortest 1 = (5, -324) := by decide +kernel
example : shortest 0x7FEFFFFFFFFFFFFF = (17976931348623157, 292) := by decide +kernel
example : shortest 0x4340000000000000 = (9007199254740992, 0) := by decide +kernel

end ControlPlane.Decimal
