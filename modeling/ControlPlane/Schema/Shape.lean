import ControlPlane.Base64
import ControlPlane.Timestamp

/-!
# Shapes

A shape says which JSON values a member may have. Decoding a value by its shape gives the *normal
form* of the value: unknown members are dropped, members that are required but missing get their
empty value, and times are written in UTC.

Shapes are finite trees. A member of a record is optional, required with an empty value to fall back
on, or mandatory.

* `Shape.decode?`: the normal form of a value, if it has the shape.
* `Shape.empty`: the empty value of a shape.
-/

namespace ControlPlane

/-- What a record asks of a member. A member whose value is `null` counts as missing. -/
inductive Presence where
  /-- The member may be missing. -/
  | optional
  /-- A missing member gets its empty value. -/
  | defaulted
  /-- The member must be there. -/
  | mandatory
deriving DecidableEq, Repr

/-- A member of a record. -/
structure Field where
  name : String
  presence : Presence
deriving DecidableEq, Repr

/-- The shape of a JSON value. -/
inductive Shape where
  | string
  | bool
  | int32
  | int64
  /-- An RFC 3339 time, written to whole seconds. -/
  | time
  /-- An RFC 3339 time, written to microseconds. -/
  | microTime
  /-- A quantity, as any text. -/
  | quantity
  /-- A text or a 32-bit integer. -/
  | intOrString
  /-- Bytes in base64; `null` stands for no bytes. -/
  | base64
  /-- Any value. -/
  | any
  | list (item : Shape)
  /-- An object with any keys and values of one shape. -/
  | map (value : Shape)
  /-- An object with the given members, in the order of their names. -/
  | record (fields : List (Field × Shape))
deriving Repr, Inhabited

namespace Shape

/-- The integer is one of the `size` integers around zero, of which one more is negative. -/
def fits (size : Nat) (n : Int) : Bool := -(size / 2 : Nat) ≤ n && n < (size / 2 : Nat)

/-- The normal form of a time. -/
def decodeTime? (write : Timestamp → String) (s : String) : Option Json :=
  (Timestamp.parse? s).map fun t => .str (write t)

mutual

/-- The empty value of a shape. -/
def empty : Shape → Json
  | string | quantity | base64 => .str ""
  | bool => .bool false
  | int32 | int64 | intOrString => .int 0
  | time => .str Timestamp.epoch.seconds
  | microTime => .str Timestamp.epoch.microseconds
  | any => .null
  | list _ => .arr []
  | map _ => .obj []
  | record fields => .obj (emptyMembers fields)

/-- The members of an empty record: those that are not optional. -/
def emptyMembers : List (Field × Shape) → List (String × Json)
  | [] => []
  | (field, shape) :: fields =>
    if field.presence = .optional then emptyMembers fields
    else (field.name, empty shape) :: emptyMembers fields

end

mutual

/-- The normal form of a value, if it has the shape. -/
def decode? : Shape → Json → Option Json
  | string, .str s => some (.str s)
  | quantity, .str s => some (.str s)
  | bool, .bool b => some (.bool b)
  | int32, .num (.int n) => if fits UInt32.size n then some (.int n) else none
  | int64, .num (.int n) => if fits UInt64.size n then some (.int n) else none
  | time, .str s => decodeTime? Timestamp.seconds s
  | microTime, .str s => decodeTime? Timestamp.microseconds s
  | intOrString, .str s => some (.str s)
  | intOrString, .num (.int n) => if fits UInt32.size n then some (.int n) else none
  | base64, .null => some (.str "")
  | base64, .str s => (Base64.decode? s.toList).map fun b => .str (String.ofList (Base64.encode b))
  | any, value => some value
  | list item, .arr items => (items.mapM (decode? item)).map .arr
  | map shape, .obj members =>
    (members.mapM fun e => (decode? shape e.2).map fun v => (e.1, v)).map .obj
  | record fields, .obj members => (decodeFields? fields members).map .obj
  | _, _ => none
termination_by structural shape => shape

/-- The members of a record in normal form. -/
def decodeFields? : List (Field × Shape) → List (String × Json) → Option (List (String × Json))
  | [], _ => some []
  | (field, shape) :: fields, members =>
    match (SortedMap.get? members field.name).filter (!·.isNull) with
    | some value =>
      (decode? shape value).bind fun value =>
        (decodeFields? fields members).map ((field.name, value) :: ·)
    | none =>
      match field.presence with
      | .optional => decodeFields? fields members
      | .defaulted =>
        (decodeFields? fields members).map ((field.name, empty shape) :: ·)
      | .mandatory => none
termination_by structural fields => fields

end

/-- The members that a record names; none for other shapes. -/
def fields : Shape → List (Field × Shape)
  | record fields => fields
  | _ => []

end Shape

/-- A member that may be missing. -/
def optional (name : String) (shape : Shape) : Field × Shape := (⟨name, .optional⟩, shape)

/-- A required member with an empty value to fall back on. -/
def defaulted (name : String) (shape : Shape) : Field × Shape := (⟨name, .defaulted⟩, shape)

/-- A required member without an empty value. -/
def mandatory (name : String) (shape : Shape) : Field × Shape := (⟨name, .mandatory⟩, shape)

end ControlPlane
