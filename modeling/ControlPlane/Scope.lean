import ControlPlane.Error
import ControlPlane.Object

/-!
# Scopes

A scope is the part of a store that is visible through a view: everything, or the objects that carry
the label of the view. A partition may also restrict namespaced objects to some namespaces; it never
restricts objects without a namespace.

* `Scope.contains`: an object lies in the scope.
* `Scope.enroll`: an object is marked as lying in the scope, unless it lies in another one.
-/

namespace ControlPlane

/-- The objects that carry a label with a given value. -/
structure Partition where
  label : String
  value : String
  /-- If given, namespaced objects are in one of these namespaces. -/
  namespaces : Option (SortedSet String)
deriving DecidableEq, Repr

/-- The part of a store that is visible. -/
inductive Scope where
  | all
  | partition (p : Partition)
deriving DecidableEq, Repr

/-- The partition does not restrict the namespace. -/
def Partition.allows (p : Partition) (ns : Option String) : Bool :=
  match p.namespaces, ns with
  | some allowed, some ns => allowed.contains ns
  | _, _ => true

namespace Scope

/-- The partition by a label, in all namespaces. -/
def byLabel (label value : String) : Scope := .partition ⟨label, value, none⟩

/-- The scope restricted to some namespaces. A scope that is everything stays so. -/
def within (namespaces : List String) : Scope → Scope
  | .all => .all
  | .partition p => .partition { p with namespaces := some (SortedSet.ofMembers namespaces) }

/-- The object lies in the scope. -/
def contains (s : Scope) (o : Object) : Bool :=
  match s with
  | .all => true
  | .partition p =>
    SortedMap.get? o.labels p.label == some p.value && p.allows o.metadata.ns

/-- The object with the label of the scope, if it has none of that key. -/
def mark (s : Scope) (o : Object) : Object :=
  match s with
  | .all => o
  | .partition p =>
    let labels :=
      if SortedMap.has o.labels p.label then o.labels
      else SortedMap.insert o.labels p.label p.value
    { o with metadata := { o.metadata with labels := some labels } }

/-- Why a marked object does not lie in the scope, if it does not. -/
def fault? (kind : String) (s : Scope) (o : Object) : Option ViewFault :=
  match s with
  | .all => none
  | .partition p =>
    let actual := (SortedMap.get? o.labels p.label).getD p.value
    if actual ≠ p.value then some (.otherLabel kind p.label actual p.value)
    else if p.allows o.metadata.ns then none
    else some (.otherNamespace (o.metadata.ns.getD "") p.value)

/-- Prepares an object for a write through the scope: it is marked, and refused if it lies outside.
The kind is only named in the error. -/
def enroll (kind : String) (s : Scope) (o : Object) : Except Error Object :=
  match s.fault? kind (s.mark o) with
  | some fault => .error (.forbidden fault)
  | none => .ok (s.mark o)

end Scope

end ControlPlane
