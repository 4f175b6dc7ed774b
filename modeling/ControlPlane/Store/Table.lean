import ControlPlane.Metrics
import ControlPlane.Moment
import ControlPlane.Patch.Application
import ControlPlane.Watch.History
import ControlPlane.Watch.Stream

/-!
# Tables

A table holds the objects of one kind, by key, with the version of their last change; the watches of
the kind; and its history. The tables of a store share one sequence of versions and one set of
counters: a table *in focus* is a table together with what it shares.

* `Focus.commit`: the only way in which records change. It advances the sequence by one, broadcasts
  the change, keeps it in the history, and counts it.
-/

namespace ControlPlane

/-- A stored object and the version of its last change. -/
structure Record where
  object : Object
  version : Version
deriving Repr

/-- The limits of every watch of a store. -/
structure WatchLimits where
  /-- How many events a watch may leave untaken. -/
  queueCapacity : Nat
  /-- The longest lifetime, in milliseconds. -/
  lifetime : Nat
  /-- How many changes of a kind are held for watches that resume. -/
  history : Nat
deriving DecidableEq, Repr

namespace WatchLimits

/-- The limits that hold unless told otherwise. -/
def standard : WatchLimits := ⟨1024, 1800000, 1024⟩

/-- The lifetime of a watch that asks for one, or for none in particular. -/
def grant (l : WatchLimits) (requested : Option Nat) : Nat :=
  match requested with
  | some t => min t l.lifetime
  | none => l.lifetime

end WatchLimits

/-- The objects of one kind. -/
structure Table where
  definition : Definition
  records : SortedMap Key Record
  /-- The watches whose consumers have not dropped them. -/
  watches : List Watch
  /-- The number of the next watch. -/
  nextWatch : Nat
  history : History
  /-- No mutation and no watch is accepted any more. -/
  stopped : Bool
deriving Repr

namespace Table

/-- The table without objects. -/
def empty (d : Definition) (history : Nat) : Table := ⟨d, [], [], 0, .empty history, false⟩

/-- The name of the kind. -/
def name (t : Table) : String := t.definition.name

/-- Refuses everything once the table is stopped. -/
def requireRunning (t : Table) : Except Error Unit :=
  if t.stopped then .error .shuttingDown else .ok ()

/-- Refuses criteria that name a field the kind does not declare. -/
def requireDeclared (t : Table) (c : Criteria) : Except Error Unit :=
  c.requireDeclared t.definition.declares

/-- The error for a key without a visible object. -/
def missing (t : Table) (key : Key) : Error := .notFound t.name key.text

/-- The record at a key, if it is visible. -/
def visible? (t : Table) (scope : Scope) (key : Key) : Option Record :=
  (SortedMap.get? t.records key).filter fun r => scope.contains r.object

/-- The visible record at a key. -/
def record (t : Table) (scope : Scope) (key : Key) : Except Error Record :=
  match t.visible? scope key with
  | some r => .ok r
  | none => .error (t.missing key)

/-- The records that a selection contains, in the order of their keys. -/
def select (t : Table) (x : Selection) : List (Key × Record) :=
  t.records.filter fun e => x.selects t.definition e.2.object

/-- Refuses a write that expects another version than the current one. -/
def requireVersion (t : Table) (key : Key) (expected : Option Version) (current : Version) :
    Except Error Unit :=
  match expected with
  | some v => if v = current then .ok () else .error (.conflict t.name key.text v current)
  | none => .ok ()

/-- The watches that are broadcast to. -/
def liveWatches (t : Table) : List Watch := t.watches.filter Watch.isLive

/-- The watch of a number. -/
def watch? (t : Table) (id : Nat) : Option Watch := t.watches.find? (·.id == id)

/-- The table with one of its watches changed. -/
def setWatch (t : Table) (w : Watch) : Table :=
  { t with watches := t.watches.map fun v => if v.id = w.id then w else v }

/-- The table that accepts no mutation and no watch any more, all its watches being closed. -/
def stop (t : Table) : Table :=
  { t with stopped := true, watches := t.watches.map (·.close (some .shuttingDown)) }

/-- The size of the table, for metrics. -/
def size (t : Table) : TableSize := ⟨t.name, t.records.length, t.liveWatches.length⟩

end Table

/-- A table with what it shares with the other tables of its store. -/
structure Focus where
  table : Table
  limits : WatchLimits
  /-- The version of the last change in the store. -/
  version : Version
  counters : Counters
deriving Repr

/-- The counters after what commits or a shutdown did to some watches of a kind. -/
def Counters.addClosings (counters : Counters) (kind : String) (deliveries : List Watch.Delivery) :
    Counters :=
  deliveries.foldl (fun counters delivery => match delivery with
    | .closed reason => counters.add (.closed kind reason) 1
    | _ => counters) counters

namespace Focus

/-- Broadcasts a change at a version to the watches of the table, with what that did to each. -/
def broadcast (f : Focus) (now : Nat) (version : Version) (change : Change) :
    List (Watch × Watch.Delivery) :=
  Watch.deliverAll f.table.definition f.limits.queueCapacity now version change none f.table.watches

/-- Commits a change that leaves the records given. -/
def commit (f : Focus) (now : Nat) (verb : Verb) (records : SortedMap Key Record)
    (change : Change) : Focus :=
  let t := f.table
  let version := f.version.next
  let deliveries := f.broadcast now version change
  { f with
    table :=
      { t with
        records := records
        watches := deliveries.map (·.1)
        history := t.history.push version change }
    version := version
    counters :=
      ((f.counters.addDelivered t.name (deliveries.countP (·.2 = .queued))).addClosings t.name
        (deliveries.map (·.2))).add (.mutations t.name verb) 1 }

end Focus

end ControlPlane
