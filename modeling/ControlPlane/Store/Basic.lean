import ControlPlane.Catalog
import ControlPlane.Store.Mutation
import ControlPlane.Store.Reading

/-!
# The store

A store has one table for each kind of its catalog. Its tables share one sequence of versions, so
the changes of all kinds are totally ordered, and one set of counters.

* `Store.onKind`: a table of a store in focus. Every request goes through it.
* `Store.perform`: what a request does to a store.
-/

namespace ControlPlane

/-- The objects of every registered kind. -/
structure Store where
  catalog : Catalog
  limits : WatchLimits
  /-- One table for each kind, in the order of the catalog. -/
  tables : List Table
  /-- The version of the last change. -/
  version : Version
  counters : Counters
deriving Repr

/-- A watch of a store: the full name of its kind, and its number there. -/
structure WatchHandle where
  kind : String
  id : Nat
deriving DecidableEq, Repr

namespace Store

/-- The store without objects. -/
def empty (catalog : Catalog) (limits : WatchLimits) : Store where
  catalog := catalog
  limits := limits
  tables := catalog.definitions.map (Table.empty · limits.history)
  version := 0
  counters := []

/-- The position of the table of a kind given by its full name. -/
def position? (s : Store) (fullName : String) : Option Nat :=
  s.tables.findIdx? (·.definition.fullName == fullName)

/-- The position of the table of a kind given by any of its names. -/
def find (s : Store) (kind : String) : Except Error Nat := do
  let d ← s.catalog.lookup kind
  match s.position? d.fullName with
  | some i => return i
  | none => throw (.unknownKind kind)

/-- The table of a kind given by any of its names. -/
def table (s : Store) (kind : String) : Except Error Table := do
  let i ← s.find kind
  match s.tables[i]? with
  | some t => return t
  | none => throw (.unknownKind kind)

/-- A table of the store in focus. -/
def focus (s : Store) (t : Table) : Focus := ⟨t, s.limits, s.version, s.counters⟩

/-- The store with the table at a position, and what it shares, as a focus leaves them. -/
def absorb (s : Store) (i : Nat) (f : Focus) : Store :=
  { s with tables := s.tables.set i f.table, version := f.version, counters := f.counters }

/-- An operation on the table of a kind. -/
def onKind {α : Type} (s : Store) (kind : String)
    (operation : Focus → Except Error α × Focus) : Except Error α × Store :=
  match s.find kind with
  | .error e => (.error e, s)
  | .ok i =>
    match s.tables[i]? with
    | none => (.error (.unknownKind kind), s)
    | some t =>
      let (result, f) := operation (s.focus t)
      (result, s.absorb i f)

/-- An operation on the table of a watch; nothing if there is no such table. -/
def onWatch {α : Type} (s : Store) (w : WatchHandle) (operation : Focus → α × Focus) :
    Option α × Store :=
  match s.position? w.kind with
  | none => (none, s)
  | some i =>
    match s.tables[i]? with
    | none => (none, s)
    | some t =>
      let (result, f) := operation (s.focus t)
      (some result, s.absorb i f)

/-! ## Watches -/

/-- The watch of a handle. -/
def watch? (s : Store) (w : WatchHandle) : Option Watch :=
  ((s.position? w.kind).bind (s.tables[·]?)).bind (·.watch? w.id)

/-- What the consumer of a watch takes next. -/
def poll (s : Store) (now : Nat) (w : WatchHandle) : Watch.Item × Store :=
  let (item, s) := s.onWatch w (·.poll now w.id)
  (item.getD .over, s)

/-- Ends a watch on behalf of its consumer. -/
def stopWatch (s : Store) (w : WatchHandle) : Store :=
  (s.onWatch w fun f => ((), f.stopWatch w.id)).2

/-- Forgets a watch. -/
def dropWatch (s : Store) (w : WatchHandle) : Store :=
  (s.onWatch w fun f => ((), f.dropWatch w.id)).2

/-! ## The whole store -/

/-- Refuses further mutations and watches, and closes every watch. -/
def shutdown (s : Store) : Store :=
  let close (counters : Counters) (t : Table) : Counters :=
    counters.addClosings t.name (t.liveWatches.map fun _ => .closed .shuttingDown)
  { s with tables := s.tables.map Table.stop, counters := s.tables.foldl close s.counters }

/-- The sizes of the tables, in the order of their names. -/
def sizes (s : Store) : List TableSize := TableSize.byName (s.tables.map Table.size)

/-- The lines of the metrics text. -/
def metrics (s : Store) : List String := Metrics.lines s.counters s.sizes

/-! ## Requests -/

/-- What a client asks of the table of a kind. -/
inductive Request where
  | create (object : Object)
  | get (key : Key)
  | list (criteria : Criteria)
  | watch (criteria : Criteria) (since : Option Version) (timeout : Option Nat)
  | update (object : Object) (expected : Option Version) (subresource : Option String)
  | patch (key : Key) (subresource : Option String) (patch : Patch)
  | delete (key : Key) (precondition : Option Version)
  | deleteCollection (criteria : Criteria)

/-- The answer to a request that succeeds. -/
inductive Reply where
  | object (o : Object)
  | listing (l : Listing)
  | watching (w : WatchHandle)
  | tombstones (objects : List Object)

/-- What a request does to a table in focus. -/
def serve (scope : Scope) (m : Moment) (r : Request) (f : Focus) : Except Error Reply × Focus :=
  let answer {α : Type} (reply : α → Reply) (result : Except Error α × Focus) :=
    (result.1.map reply, result.2)
  let d := f.table.definition
  match r with
  | .create o => answer .object (f.create scope m o)
  | .get key => answer .object (f.get scope key, f)
  | .list criteria => answer .listing (f.list scope criteria, f)
  | .watch criteria since timeout =>
    answer (fun id => .watching ⟨d.fullName, id⟩) (f.watch scope m criteria since timeout)
  | .update o expected subresource =>
    match subresource.mapM d.subresource with
    | .error e => (.error e, f)
    | .ok subresource => answer .object (f.update scope m o expected subresource)
  | .patch key subresource patch =>
    match subresource.mapM d.subresource with
    | .error e => (.error e, f)
    | .ok subresource => answer .object (f.patch scope m key subresource patch)
  | .delete key precondition => answer .object (f.delete scope m key precondition)
  | .deleteCollection criteria => answer .tombstones (f.deleteCollection scope m criteria)

/-- What a request for a kind, through a scope, does to a store. -/
def perform (s : Store) (kind : String) (scope : Scope) (m : Moment) (r : Request) :
    Except Error Reply × Store :=
  s.onKind kind (serve scope m r)

end Store

end ControlPlane
