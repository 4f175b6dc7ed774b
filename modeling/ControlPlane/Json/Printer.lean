import ControlPlane.Decimal.Shortest
import ControlPlane.Json.Basic
import ControlPlane.Text.Quoted

/-!
# The compact text of a JSON value

The text has no blanks, and the members of an object stand in the order of their keys. A float is
written with the fewest digits that read back as the same float: positionally if its leading digit
stands between the fifth place after the point and the sixteenth before it, otherwise with a signed
exponent, and with a point if it is positional, so that it cannot be read as an integer.
-/

namespace ControlPlane

/-- The decimal digits of a natural number. -/
def decimalDigits (n : Nat) : List Char := Nat.toDigits 10 n

/-- The decimal text of an integer. -/
def integerText (n : Int) : String :=
  let digits := String.ofList (decimalDigits n.natAbs)
  if n < 0 then "-" ++ digits else digits

/-- The decimal text of an integer with its sign, which is `+` for zero. -/
def signedText (n : Int) : String := if n < 0 then integerText n else "+" ++ integerText n

/-- The text of the positive float `d · 10 ^ k`, whose digits `d` have no trailing zeros. -/
def floatDigits (d : Nat) (k : Int) : List Char :=
  let digits := decimalDigits d
  let point : Int := digits.length + k
  let zeros (n : Int) := List.replicate n.toNat '0'
  if 0 ≤ k ∧ point ≤ 16 then digits ++ zeros k ++ ['.', '0']
  else if 0 < point ∧ point ≤ 16 then
    digits.take point.toNat ++ '.' :: digits.drop point.toNat
  else if -5 < point ∧ point ≤ 0 then '0' :: '.' :: zeros (-point) ++ digits
  else
    let exponent := 'e' :: (signedText (point - 1)).toList
    match digits with
    | [digit] => digit :: exponent
    | digit :: rest => digit :: '.' :: rest ++ exponent
    | [] => exponent

/-- The text of a float given by its bits. JSON has no word for the floats that are not finite. -/
def floatText (bits : UInt64) : String :=
  if Decimal.isFinite bits then
    let (d, k) := Decimal.shortest bits
    let text := if d = 0 then ['0', '.', '0'] else floatDigits d k
    String.ofList (if Decimal.isNegative bits then '-' :: text else text)
  else "null"

/-- The text of a number. -/
def Number.text : Number → String
  | .int n => integerText n
  | .float bits => floatText bits

namespace Json

/-- The form of one character inside a JSON string. -/
def escapeChar (c : Char) : List Char :=
  match c with
  | '"' => ['\\', '"']
  | '\\' => ['\\', '\\']
  | '\n' => ['\\', 'n']
  | '\r' => ['\\', 'r']
  | '\t' => ['\\', 't']
  | '\x08' => ['\\', 'b']
  | '\x0c' => ['\\', 'f']
  | c =>
    if c.toNat < 0x20 then
      let digits := Text.hexDigits c.toNat
      ['\\', 'u'] ++ List.replicate (4 - digits.length) '0' ++ digits
    else [c]

/-- A JSON string with its quotes. -/
def stringText (s : String) : String :=
  String.ofList ('"' :: s.toList.flatMap escapeChar ++ ['"'])

mutual

/-- The compact text of a value. -/
def text : Json → String
  | .null => "null"
  | .bool true => "true"
  | .bool false => "false"
  | .num n => n.text
  | .str s => stringText s
  | .arr items => "[" ++ itemsText items ++ "]"
  | .obj members => "\x7b" ++ membersText members ++ "\x7d"

/-- The items of a list, separated by commas. -/
def itemsText : List Json → String
  | [] => ""
  | [item] => text item
  | item :: items => text item ++ "," ++ itemsText items

/-- The members of an object, separated by commas. -/
def membersText : List (String × Json) → String
  | [] => ""
  | [(key, value)] => stringText key ++ ":" ++ text value
  | (key, value) :: members => stringText key ++ ":" ++ text value ++ "," ++ membersText members

end

end Json

example : floatText 0x3FF8000000000000 = "1.5" := by decide +kernel
example : floatText 0x4341C37937E08000 = "1e+16" := by decide +kernel
example : floatText 0x430C6BF526340000 = "1000000000000000.0" := by decide +kernel
example : floatText 0x3EE4F8B588E368F1 = "0.00001" := by decide +kernel
example : floatText 0x3EB0C6F7A0B5ED8D = "1e-6" := by decide +kernel
example : floatText 0x8000000000000000 = "-0.0" := by decide +kernel

end ControlPlane
