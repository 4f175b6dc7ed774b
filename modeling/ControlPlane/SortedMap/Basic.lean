/-!
# Sorted maps

A finite map is kept as the list of its entries, ascending by key. The order of the entries is what
answers show (members of a document, labels of an object, records of a table), so it is part of the
value.

* `SortedMap.get?`, `SortedMap.insert`, `SortedMap.erase`: the value at a key, and writing it.
* `SortedMap.Sorted`: the keys ascend strictly.
* `SortedSet`: a finite set as the list of its members, kept the same way.
-/

namespace ControlPlane

/-- The entries of a finite map, in ascending order of their keys. -/
abbrev SortedMap (κ α : Type) := List (κ × α)

namespace SortedMap

variable {κ α : Type}

/-- The value at a key. -/
def get? [DecidableEq κ] : SortedMap κ α → κ → Option α
  | [], _ => none
  | (k', v) :: m, k => if k' = k then some v else get? m k

/-- Puts a value at a key, in place of the value that was there. -/
def insert [Ord κ] : SortedMap κ α → κ → α → SortedMap κ α
  | [], k, v => [(k, v)]
  | (k', v') :: m, k, v =>
    match compare k k' with
    | .lt => (k, v) :: (k', v') :: m
    | .eq => (k, v) :: m
    | .gt => (k', v') :: insert m k v

/-- Removes a key. -/
def erase [DecidableEq κ] (m : SortedMap κ α) (k : κ) : SortedMap κ α :=
  m.filter fun e => e.1 ≠ k

/-- Writes or removes the value at a key. -/
def set [Ord κ] [DecidableEq κ] (m : SortedMap κ α) (k : κ) : Option α → SortedMap κ α
  | some v => insert m k v
  | none => erase m k

/-- Whether a key has a value. -/
def has [DecidableEq κ] (m : SortedMap κ α) (k : κ) : Bool := (get? m k).isSome

/-- The keys, in their order. -/
def keys (m : SortedMap κ α) : List κ := m.map (·.1)

/-- The map of a list of entries. Of two entries with one key the later wins. -/
def ofEntries [Ord κ] (entries : List (κ × α)) : SortedMap κ α :=
  entries.foldl (fun m e => insert m e.1 e.2) []

/-- The keys ascend strictly. -/
def Sorted [Ord κ] (m : SortedMap κ α) : Prop :=
  m.Pairwise fun a b => compare a.1 b.1 = .lt

end SortedMap

/-- A finite set as the list of its members, ascending. -/
abbrev SortedSet (κ : Type) := List κ

namespace SortedSet

variable {κ : Type}

/-- Adds a member, once. -/
def insert [Ord κ] : SortedSet κ → κ → SortedSet κ
  | [], x => [x]
  | y :: s, x =>
    match compare x y with
    | .lt => x :: y :: s
    | .eq => x :: s
    | .gt => y :: insert s x

/-- The set of the members of a list. -/
def ofMembers [Ord κ] (members : List κ) : SortedSet κ := members.foldl insert []

end SortedSet

end ControlPlane
