import ControlPlane.Decimal.Scaled
import ControlPlane.Json.Basic

/-!
# Reading JSON text

The reader accepts the JSON grammar and builds a value with sorted objects; of two members with one
key the later wins. A number without point and exponent is an integer if it lies between `-2 ^ 63`
and `2 ^ 64 - 1`, except that `-0` is a float. Every other number is a float: its digits count as
long as they form a number of 64 bits, and a power of ten puts the point in its place. A float that
is too large is refused.

Each step consumes at least one character, so the length of the text bounds the depth.
-/

namespace ControlPlane.Json

/-- The blanks of JSON text. -/
def isSpace (c : Char) : Bool := c = ' ' || c = '\n' || c = '\r' || c = '\t'

/-- The text without the blanks at its start. -/
def skipSpaces (cs : List Char) : List Char := cs.dropWhile isSpace

/-- The value of a hexadecimal digit. -/
def hexValue? (c : Char) : Option Nat :=
  if '0' ≤ c ∧ c ≤ '9' then some (c.toNat - '0'.toNat)
  else if 'a' ≤ c ∧ c ≤ 'f' then some (c.toNat - 'a'.toNat + 10)
  else if 'A' ≤ c ∧ c ≤ 'F' then some (c.toNat - 'A'.toNat + 10)
  else none

/-- The value of decimal digits. -/
def digitsValue (cs : List Char) : Nat :=
  cs.foldl (fun n c => 10 * n + (c.toNat - '0'.toNat)) 0

/-- Four hexadecimal digits and the text after them. -/
def readUnit? : List Char → Option (Nat × List Char)
  | a :: b :: c :: d :: rest => do
    let a ← hexValue? a
    let b ← hexValue? b
    let c ← hexValue? c
    let d ← hexValue? d
    some (((a * 16 + b) * 16 + c) * 16 + d, rest)
  | _ => none

/-- The character of an escape whose letter has been read, and the text after it. Two surrogates
form one character, and a lone one is refused. -/
def readEscape? (letter : Char) (rest : List Char) : Option (Char × List Char) :=
  match letter with
  | '"' | '\\' | '/' => some (letter, rest)
  | 'b' => some ('\x08', rest)
  | 'f' => some ('\x0c', rest)
  | 'n' => some ('\n', rest)
  | 'r' => some ('\r', rest)
  | 't' => some ('\t', rest)
  | 'u' => do
    let (high, rest) ← readUnit? rest
    if 0xD800 ≤ high ∧ high < 0xDC00 then
      match rest with
      | '\\' :: 'u' :: rest =>
        let (low, rest) ← readUnit? rest
        if 0xDC00 ≤ low ∧ low < 0xE000 then
          some (Char.ofNat (0x10000 + (high - 0xD800) * 0x400 + (low - 0xDC00)), rest)
        else none
      | _ => none
    else if 0xDC00 ≤ high ∧ high < 0xE000 then none
    else some (Char.ofNat high, rest)
  | _ => none

/-- The rest of a string whose characters so far are `read`, last first. -/
def readString? : Nat → List Char → List Char → Option (String × List Char)
  | 0, _, _ => none
  | _ + 1, _, [] => none
  | _ + 1, read, '"' :: rest => some (String.ofList read.reverse, rest)
  | fuel + 1, read, '\\' :: letter :: rest => do
    let (c, rest) ← readEscape? letter rest
    readString? fuel (c :: read) rest
  | fuel + 1, read, c :: rest =>
    if c = '\\' ∨ c.toNat < 0x20 then none else readString? fuel (c :: read) rest

/-- The digits at the start of a text, of which there must be one, and the text after them. -/
def readDigits? (cs : List Char) : Option (List Char × List Char) :=
  match cs.takeWhile Char.isDigit with
  | [] => none
  | digits => some (digits, cs.dropWhile Char.isDigit)

/-- The part of a number after its point, if it has one. -/
def readFraction? : List Char → Option (Option (List Char) × List Char)
  | '.' :: rest => do
    let (digits, rest) ← readDigits? rest
    some (some digits, rest)
  | rest => some (none, rest)

/-- The exponent of a number, if it has one. -/
def readExponent? : List Char → Option (Option Int × List Char)
  | [] => some (none, [])
  | c :: rest =>
    if c = 'e' ∨ c = 'E' then do
      let (negative, rest) := match rest with
        | '-' :: rest => (true, rest)
        | '+' :: rest => (false, rest)
        | rest => (false, rest)
      let (digits, rest) ← readDigits? rest
      let n : Int := digitsValue digits
      some (some (if negative then -n else n), rest)
    else some (none, c :: rest)

/-- Appends digits to a number as long as it keeps to 64 bits. Gives the number and how many digits
are left over. -/
def appendDigits (n : Nat) : List Char → Nat × Nat
  | [] => (n, 0)
  | c :: cs =>
    let next := digitsValue [c] + 10 * n
    if next < UInt64.size then appendDigits next cs else (n, cs.length + 1)

/-- The float with some digits before its point, some after it, and an exponent; none if it is too
large. Digits left over before the point count as places, those after it not at all. -/
def floatOf? (negative : Bool) (whole fraction : List Char) (exponent : Int) : Option Number := do
  let (n, places) := appendDigits 0 whole
  let (n, rest) := appendDigits n fraction
  let bits ← Decimal.scaled? n (exponent + places - (fraction.length - rest))
  some (.float (Decimal.signed negative bits))

/-- The integer with some digits, if it is in range. -/
def integerOf? (negative : Bool) (digits : List Char) : Option Number :=
  let n := digitsValue digits
  if negative then
    if 0 < n ∧ n ≤ UInt64.size / 2 then some (.int (-(n : Int))) else none
  else if n < UInt64.size then some (.int n)
  else none

/-- A number and the text after it. -/
def readNumber? (cs : List Char) : Option (Number × List Char) := do
  let (negative, cs) := match cs with
    | '-' :: cs => (true, cs)
    | cs => (false, cs)
  let (digits, rest) ← readDigits? cs
  if digits.head? = some '0' ∧ digits.length ≠ 1 then none
  else
    let (fraction?, rest) ← readFraction? rest
    let (exponent?, rest) ← readExponent? rest
    let float? := floatOf? negative digits (fraction?.getD []) (exponent?.getD 0)
    let number ← if fraction?.isNone ∧ exponent?.isNone then
      integerOf? negative digits <|> float? else float?
    some (number, rest)

mutual

/-- A value and the text after it. -/
def readValue? : Nat → List Char → Option (Json × List Char)
  | 0, _ => none
  | fuel + 1, cs =>
    match skipSpaces cs with
    | 'n' :: 'u' :: 'l' :: 'l' :: rest => some (.null, rest)
    | 't' :: 'r' :: 'u' :: 'e' :: rest => some (.bool true, rest)
    | 'f' :: 'a' :: 'l' :: 's' :: 'e' :: rest => some (.bool false, rest)
    | '"' :: rest => (readString? rest.length.succ [] rest).map fun r => (.str r.1, r.2)
    | '[' :: rest =>
      match skipSpaces rest with
      | ']' :: rest => some (.arr [], rest)
      | rest => (readItems? fuel rest).map fun r => (.arr r.1, r.2)
    | '\x7b' :: rest =>
      match skipSpaces rest with
      | '\x7d' :: rest => some (.obj [], rest)
      | rest => (readMembers? fuel [] rest).map fun r => (.obj r.1, r.2)
    | rest => (readNumber? rest).map fun r => (.num r.1, r.2)

/-- The items of a list from one of them on, and the text after its bracket. -/
def readItems? : Nat → List Char → Option (List Json × List Char)
  | 0, _ => none
  | fuel + 1, cs => do
    let (item, rest) ← readValue? fuel cs
    match skipSpaces rest with
    | ']' :: rest => some ([item], rest)
    | ',' :: rest =>
      let (items, rest) ← readItems? fuel rest
      some (item :: items, rest)
    | _ => none

/-- The members of an object from one of them on, added to those before it, and the text after its
brace. -/
def readMembers? : Nat → Members → List Char → Option (Members × List Char)
  | 0, _, _ => none
  | fuel + 1, members, cs =>
    match skipSpaces cs with
    | '"' :: rest => do
      let (key, rest) ← readString? rest.length.succ [] rest
      match skipSpaces rest with
      | ':' :: rest =>
        let (value, rest) ← readValue? fuel rest
        let members := SortedMap.insert members key value
        match skipSpaces rest with
        | '\x7d' :: rest => some (members, rest)
        | ',' :: rest => readMembers? fuel members rest
        | _ => none
      | _ => none
    | _ => none

end

/-- The value that a text stands for. -/
def read? (s : String) : Option Json := do
  let cs := s.toList
  let (value, rest) ← readValue? (cs.length + 1) cs
  if (skipSpaces rest).isEmpty then some value else none

end ControlPlane.Json
