/-!
# Object keys

Within its kind an object is known by its name and, if the kind is namespaced, by its namespace.
Keys without a namespace come first; otherwise keys are ordered by namespace and then by name, both
by code point.

* `Key.compare_eq`: the order of keys. It is a linear order, so keys can index sorted maps.
-/

namespace ControlPlane

/-- The key of an object within its kind. -/
structure Key where
  ns : Option String
  name : String
deriving DecidableEq, Repr, Inhabited

namespace Key

instance : Ord Key := ⟨compareLex (compareOn ns) (compareOn name)⟩

theorem compare_eq (a b : Key) :
    compare a b = (compare a.ns b.ns).then (compare a.name b.name) := rfl

instance : Std.TransOrd Key :=
  inferInstanceAs (Std.TransCmp (compareLex (compareOn ns) (compareOn name)))

instance : Std.LawfulEqOrd Key where
  compare_self := Std.ReflCmp.compare_self
  eq_of_compare {a b} h := by
    rw [compare_eq, Ordering.then_eq_eq] at h
    cases a
    cases b
    simp_all

/-- The key in messages: the name, after the namespace and a slash if there is one. -/
def text (k : Key) : String :=
  match k.ns with
  | some ns => ns ++ "/" ++ k.name
  | none => k.name

end Key

end ControlPlane
