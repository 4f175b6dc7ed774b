import ControlPlane.SortedMap.Basic

/-!
# JSON values

A JSON object is a map sorted by key, so two texts that differ only in the order of their members
are one value. A number is an integer or a 64-bit float: `1` and `1.0` are different values, while
the two zeros of the floats are equal under `==`.

* `Json.WellFormed`: every object in the value has strictly ascending keys.
-/

namespace ControlPlane

/-- A number: an exact integer, or a 64-bit binary float given by its bits. -/
inductive Number where
  | int (value : Int)
  | float (bits : UInt64)
deriving DecidableEq, Repr, Inhabited

namespace Number

/-- The bits of the float `-0.0`. -/
def minusZeroBits : UInt64 := 0x8000000000000000

/-- Equality of numbers. An integer never equals a float; of the floats only the two zeros are
equal without having the same bits. -/
def same : Number → Number → Bool
  | .int a, .int b => a == b
  | .float a, .float b =>
    a == b || ((a == 0 || a == minusZeroBits) && (b == 0 || b == minusZeroBits))
  | _, _ => false

instance : BEq Number := ⟨same⟩

end Number

/-- A JSON value. The members of an object are sorted by key. -/
inductive Json where
  | null
  | bool (value : Bool)
  | num (value : Number)
  | str (value : String)
  | arr (items : List Json)
  | obj (members : List (String × Json))
deriving Repr, Inhabited

namespace Json

/-- The members of an object, by key. -/
abbrev Members := SortedMap String Json

/-! ## Equality -/

mutual

/-- Whether two values are equal, numbers being compared by `Number.same`. -/
def same : Json → Json → Bool
  | .null, .null => true
  | .bool a, .bool b => a == b
  | .num a, .num b => a == b
  | .str a, .str b => a == b
  | .arr a, .arr b => sameItems a b
  | .obj a, .obj b => sameMembers a b
  | _, _ => false

/-- Whether two lists have equal items. -/
def sameItems : List Json → List Json → Bool
  | [], [] => true
  | a :: as, b :: bs => same a b && sameItems as bs
  | _, _ => false

/-- Whether two objects have the same keys with equal values. -/
def sameMembers : List (String × Json) → List (String × Json) → Bool
  | [], [] => true
  | (j, a) :: as, (k, b) :: bs => j == k && same a b && sameMembers as bs
  | _, _ => false

end

instance : BEq Json := ⟨same⟩

/-! ## Well-formed values -/

mutual

/-- Every object in the value has strictly ascending keys. -/
def WellFormed : Json → Prop
  | .arr items => WellFormedItems items
  | .obj members => SortedMap.Sorted members ∧ WellFormedMembers members
  | _ => True

/-- Every item is well formed. -/
def WellFormedItems : List Json → Prop
  | [] => True
  | item :: items => WellFormed item ∧ WellFormedItems items

/-- Every member's value is well formed. -/
def WellFormedMembers : List (String × Json) → Prop
  | [] => True
  | (_, value) :: members => WellFormed value ∧ WellFormedMembers members

end

/-! ## Parts of a value -/

/-- The integer `n`. -/
def int (n : Int) : Json := .num (.int n)

/-- The value is `null`. -/
def isNull : Json → Bool
  | .null => true
  | _ => false

/-- The value is an object. -/
def isObject : Json → Bool
  | .obj _ => true
  | _ => false

/-- The text of a string. -/
def text? : Json → Option String
  | .str s => some s
  | _ => none

/-- The items of a list. -/
def items? : Json → Option (List Json)
  | .arr items => some items
  | _ => none

/-- The members of an object. -/
def members? : Json → Option Members
  | .obj members => some members
  | _ => none

/-- The members of an object; no members for any other value. -/
def members : Json → Members
  | .obj members => members
  | _ => []

/-- The value of a member; only an object has members. -/
def member? (json : Json) (key : String) : Option Json := SortedMap.get? json.members key

theorem isObject_of_member? {json value : Json} {key : String}
    (h : json.member? key = some value) : json.isObject = true := by
  cases json with
  | obj members => rfl
  | _ => cases h

/-- The object with the given members, which may come in any order. -/
def ofMembers (members : List (String × Json)) : Json := .obj (SortedMap.ofEntries members)

end Json

end ControlPlane
