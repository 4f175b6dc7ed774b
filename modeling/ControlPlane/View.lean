import ControlPlane.Scope
import ControlPlane.Text.Cut

/-!
# Views

The base view of a store sees everything. A derived view has a name, sees the objects that carry its
label, and is addressed by a path under a common root.

* `ViewScheme.path`, `ViewScheme.viewName?`: the path of a name, and the name that a path addresses.
-/

namespace ControlPlane

/-- How derived views are addressed and marked. -/
structure ViewScheme where
  /-- The path under which derived views are addressed. -/
  root : String
  /-- The label that says to which derived view an object belongs. -/
  label : String
deriving DecidableEq, Repr

namespace ViewScheme

/-- The scheme that holds unless told otherwise. -/
def standard : ViewScheme := ⟨"/views", "kubemem.io/view"⟩

/-- The root without slashes at its end. -/
def stem (x : ViewScheme) : List Char := (x.root.toList.reverse.dropWhile (· = '/')).reverse

/-- The path of a derived view. -/
def path (x : ViewScheme) (name : String) : String := String.ofList (x.stem ++ '/' :: name.toList)

/-- The name of the derived view that a path addresses: the path is the view's or lies below it. -/
def viewName? (x : ViewScheme) (path : String) : Option String := do
  let rest ← Text.after? x.stem path.toList
  let rest ← Text.after? ['/'] rest
  let name := rest.takeWhile (· ≠ '/')
  if name.isEmpty then none else some (String.ofList name)

end ViewScheme

/-- A named and scoped way into a store. -/
structure View where
  /-- The base view has no name. -/
  name : Option String
  path : String
  scope : Scope
deriving DecidableEq, Repr

namespace View

/-- The view that sees everything. -/
def base : View := ⟨none, "/", .all⟩

/-- The derived view of a name, which may be restricted to some namespaces. -/
def derived (x : ViewScheme) (name : String) (namespaces : Option (List String)) : View :=
  let scope := Scope.byLabel x.label name
  { name := some name
    path := x.path name
    scope := match namespaces with
      | some namespaces => scope.within namespaces
      | none => scope }

end View

end ControlPlane
