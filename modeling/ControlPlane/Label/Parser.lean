import ControlPlane.Label.Selector
import ControlPlane.Text.Blank

/-!
# Label selectors as text

The text of a label selector is a list of terms separated by the commas outside parentheses:

* `key`, `!key`: the key is present, or absent;
* `key = value`, `key == value`, `key != value`: the key has the value, or has it not;
* `key in (a, b)`, `key notin (a, b)`: the key has one of the values, or none of them.

Blanks around every part are ignored. A key is a *token*, a non-empty run of ASCII letters, digits
and the characters `-`, `_`, `.`, `/`; a value is a token or empty. A blank text has no terms.
-/

namespace ControlPlane

open Text (trim words cut? splitAt after? before?)

namespace LabelSelector

/-- The character may stand in a key or a value. -/
def isTokenChar (c : Char) : Bool :=
  c.isAlphanum || c = '-' || c = '_' || c = '.' || c = '/'

/-- The text is a token. -/
def isToken (cs : List Char) : Bool := !cs.isEmpty && cs.all isTokenChar

/-- The text is a token or empty. -/
def isValue (cs : List Char) : Bool := cs.all isTokenChar

/-- The token that a text is between its blanks. -/
def token? (cs : List Char) : Option String :=
  let cs := trim cs
  if isToken cs then some (String.ofList cs) else none

/-- The value that a text is between its blanks. -/
def value? (cs : List Char) : Option String :=
  let cs := trim cs
  if isValue cs then some (String.ofList cs) else none

/-- The terms of a text, where `depth` parentheses are open: the rest of the current term, and the
terms after it. None if a parenthesis has no partner. -/
def termsFrom? (depth : Nat) : List Char → Option (List Char × List (List Char))
  | [] => if depth = 0 then some ([], []) else none
  | c :: cs =>
    if c = ',' ∧ depth = 0 then
      (termsFrom? 0 cs).map fun t => ([], t.1 :: t.2)
    else if c = ')' ∧ depth = 0 then none
    else
      let depth := if c = '(' then depth + 1 else if c = ')' then depth - 1 else depth
      (termsFrom? depth cs).map fun t => (c :: t.1, t.2)

/-- The terms of a selector, without the one term of a blank text. -/
def terms? (cs : List Char) : Option (List (List Char)) :=
  (termsFrom? 0 cs).map fun t =>
    if t.2.isEmpty && (trim t.1).isEmpty then [] else t.1 :: t.2

/-- The requirement of a term with a list of values, given what stands before the parenthesis and
what stands after it. -/
def setTerm? (head tail : List Char) : Option LabelRequirement := do
  let list ← before? ')' tail
  match words head with
  | [key, operator] =>
    let key ← token? key
    let operator ← match String.ofList operator with
      | "in" => some LabelOperator.oneOf
      | "notin" => some LabelOperator.noneOf
      | _ => none
    let values ← (splitAt ',' list).mapM value?
    some (.of key operator values)
  | _ => none

/-- The requirement of a term that compares with one value, or only names its key. -/
def valueTerm? (term : List Char) : Option LabelRequirement :=
  let compared (operator : LabelOperator) (parts : List Char × List Char) := do
    let key ← token? parts.1
    let value ← value? parts.2
    some (LabelRequirement.of key operator [value])
  match cut? ['!', '='] term with
  | some parts => compared .noneOf parts
  | none =>
    match cut? ['=', '='] term with
    | some parts => compared .oneOf parts
    | none =>
      match cut? ['='] term with
      | some parts => compared .oneOf parts
      | none => (token? term).map fun key => .of key .present []

/-- The requirement of a term without blanks at its ends. -/
def term? (term : List Char) : Option LabelRequirement :=
  match after? ['!'] term with
  | some key => (token? key).map fun key => .of key .absent []
  | none =>
    match cut? ['('] term with
    | some (head, tail) => setTerm? head tail
    | none => valueTerm? term

/-- Reads a requirement. -/
def parseTerm (cs : List Char) : Except Error LabelRequirement :=
  let term := trim cs
  match term? term with
  | some r => .ok r
  | none => .error (.invalidSelector (.labelTerm (String.ofList term)))

/-- Reads a selector. The first term at fault is reported. -/
def parse (s : String) : Except Error LabelSelector :=
  match terms? s.toList with
  | none => .error (.invalidSelector (.unbalanced s))
  | some terms => (terms.mapM parseTerm).map ofRequirements

end LabelSelector

end ControlPlane
