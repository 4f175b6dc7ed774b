import ControlPlane.Text.Printable

/-!
# Quoted text

Names and selectors are quoted in messages: between double quotes, with a backslash before quotes
and backslashes, short escapes for the common controls, and the code point in braces for every other
character that is not printable. A single quote is not escaped.
-/

namespace ControlPlane.Text

/-- The hexadecimal digits of a number, in lower case and without leading zeros. -/
def hexDigits (n : Nat) : List Char := Nat.toDigits 16 n

/-- The form of one character inside quotes. -/
def escapeChar (c : Char) : List Char :=
  match c with
  | '"' => ['\\', '"']
  | '\\' => ['\\', '\\']
  | '\n' => ['\\', 'n']
  | '\r' => ['\\', 'r']
  | '\t' => ['\\', 't']
  | '\x00' => ['\\', '0']
  | c => if isPrintable c then [c] else ['\\', 'u', '\x7b'] ++ hexDigits c.toNat ++ ['\x7d']

/-- The text between quotes, with escapes. -/
def quoted (s : String) : String :=
  String.ofList ('"' :: s.toList.flatMap escapeChar ++ ['"'])

/-- The texts quoted, in square brackets. -/
def quotedList : List String → String
  | [] => "[]"
  | s :: rest => "[" ++ rest.foldl (fun text t => text ++ ", " ++ quoted t) (quoted s) ++ "]"

end ControlPlane.Text
