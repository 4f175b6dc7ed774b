import ControlPlane.Decimal.Nearest

/-!
# Decimals in floating steps

A decimal `d · 10 ^ k` is made a float in two steps, each of which rounds: the integer `d` becomes a
float, and this is multiplied or divided by a float power of ten. While `d` and the power are exact,
that is while `d ≤ 2 ^ 53` and `|k| ≤ 22`, the result is the float nearest to the decimal; otherwise
it need not be. The greatest power is `10 ^ 308`, so that a smaller decimal is divided once more.
-/

namespace ControlPlane.Decimal

/-- The greatest exponent of a float power of ten. -/
def greatestPower : Nat := 308

/-- The float nearest to `10 ^ k`, for `k` up to the greatest power. -/
def power? (k : Nat) : Option UInt64 := nearestFraction? (Nat.pow 10 k) 1

/-- The float `d · 10 ^ k`, of a `d` with at most 64 bits; none if it is too large. Two divisions by
the greatest power leave nothing of such a `d`. -/
def scaled? (d : Nat) (k : Int) : Option UInt64 := do
  let x ← nearestFraction? d 1
  if d = 0 then some 0
  else if 0 ≤ k then
    if k ≤ greatestPower then product? x (← power? k.toNat) else none
  else
    let k := (-k).toNat
    if k ≤ greatestPower then quotient? x (← power? k)
    else if k ≤ 2 * greatestPower then
      quotient? (← quotient? x (← power? greatestPower)) (← power? (k - greatestPower))
    else some 0

/-- The float with the sign put before it. -/
def signed (negative : Bool) (bits : UInt64) : UInt64 :=
  if negative then bits + 0x8000000000000000 else bits

example : scaled? 1 (-1) = some 0x3FB999999999999A := by decide +kernel
example : scaled? 5 (-324) = some 1 := by decide +kernel
example : scaled? 17976931348623157 292 = some 0x7FEFFFFFFFFFFFFF := by decide +kernel
example : scaled? 18 307 = none := by decide +kernel
example : scaled? 90071992547409910 (-1) = some 0x433FFFFFFFFFFFFE := by decide +kernel

end ControlPlane.Decimal
