/-!
# Base64

The standard alphabet with padding. A text is read only if it is the form that writing gives: the
padding is complete and the bits it leaves over are zero.
-/

namespace ControlPlane.Base64

/-- The six bits of a character. -/
def sextet? (c : Char) : Option Nat :=
  if 'A' ≤ c ∧ c ≤ 'Z' then some (c.toNat - 'A'.toNat)
  else if 'a' ≤ c ∧ c ≤ 'z' then some (c.toNat - 'a'.toNat + 26)
  else if '0' ≤ c ∧ c ≤ '9' then some (c.toNat - '0'.toNat + 52)
  else if c = '+' then some 62
  else if c = '/' then some 63
  else none

/-- The character of six bits. -/
def letter (n : Nat) : Char :=
  if n < 26 then Char.ofNat ('A'.toNat + n)
  else if n < 52 then Char.ofNat ('a'.toNat + (n - 26))
  else if n < 62 then Char.ofNat ('0'.toNat + (n - 52))
  else if n = 62 then '+'
  else '/'

/-- The bytes of a text, as numbers below 256. -/
def decode? : List Char → Option (List Nat)
  | [] => some []
  | [a, b, '=', '='] => do
    let a ← sextet? a
    let b ← sextet? b
    if b % 16 = 0 then some [a * 4 + b / 16] else none
  | [a, b, c, '='] => do
    let a ← sextet? a
    let b ← sextet? b
    let c ← sextet? c
    if c % 4 = 0 then some [a * 4 + b / 16, b % 16 * 16 + c / 4] else none
  | a :: b :: c :: d :: rest => do
    let a ← sextet? a
    let b ← sextet? b
    let c ← sextet? c
    let d ← sextet? d
    let bytes ← decode? rest
    some ((a * 4 + b / 16) :: (b % 16 * 16 + c / 4) :: (c % 4 * 64 + d) :: bytes)
  | _ => none

/-- The text of some bytes. -/
def encode : List Nat → List Char
  | [] => []
  | [x] => [letter (x / 4), letter (x % 4 * 16), '=', '=']
  | [x, y] => [letter (x / 4), letter (x % 4 * 16 + y / 16), letter (y % 16 * 4), '=']
  | x :: y :: z :: rest =>
    letter (x / 4) :: letter (x % 4 * 16 + y / 16) :: letter (y % 16 * 4 + z / 64) ::
      letter (z % 64) :: encode rest

example : decode? "aGVsbG8=".toList = some [104, 101, 108, 108, 111] := by decide +kernel
example : encode [104, 101, 108, 108, 111] = "aGVsbG8=".toList := by decide +kernel
example : decode? "aGVsbG9=".toList = none ∧ decode? "aGVsbG8".toList = none := by decide +kernel

end ControlPlane.Base64
