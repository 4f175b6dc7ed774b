import ControlPlane.Store.Basic
import ControlPlane.View

/-!
# The server

A server is a store with its views: the base view, which sees everything, and derived views by name.
A request path below the root of the derived views addresses one of them, and every other path
addresses the base view.

* `Server.route`: the view a path addresses.
* `Server.addView`: a derived view is made once and never changes.
-/

namespace ControlPlane

/-- A store and its views. -/
structure Server where
  store : Store
  scheme : ViewScheme
  /-- The derived views by name. -/
  views : SortedMap String View
deriving Repr

namespace Server

/-- The derived view of a name. -/
def view? (s : Server) (name : String) : Option View := SortedMap.get? s.views name

/-- The derived view of a name, made if there is none. The namespaces matter only then. -/
def addView (s : Server) (name : String) (namespaces : Option (List String)) : View × Server :=
  match s.view? name with
  | some v => (v, s)
  | none =>
    let v := View.derived s.scheme name namespaces
    (v, { s with views := SortedMap.insert s.views name v })

/-- The names of the derived views, ascending. -/
def viewNames (s : Server) : List String := SortedMap.keys s.views

/-- The server with an empty store and some derived views. -/
def start (catalog : Catalog) (limits : WatchLimits) (scheme : ViewScheme)
    (views : List (String × Option (List String))) : Server :=
  views.foldl (fun s v => (s.addView v.1 v.2).2) ⟨Store.empty catalog limits, scheme, []⟩

/-- The view that a path addresses. -/
def route (s : Server) (path : String) : Except Error View :=
  match s.scheme.viewName? path with
  | none => .ok View.base
  | some name =>
    match s.view? name with
    | some v => .ok v
    | none => .error (.notFound "view" name)

/-- Refuses further mutations and watches, and closes every watch. -/
def stop (s : Server) : Server := { s with store := s.store.shutdown }

/-- What a request for a kind, at a path, does to a server. -/
def perform (s : Server) (path kind : String) (m : Moment) (r : Store.Request) :
    Except Error Store.Reply × Server :=
  match s.route path with
  | .error e => (.error e, s)
  | .ok v =>
    let (result, store) := s.store.perform kind v.scope m r
    (result, { s with store := store })

end Server

end ControlPlane
