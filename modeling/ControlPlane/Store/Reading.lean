import ControlPlane.Store.Table

/-!
# Reading a table

A list gives the selected objects and the version of the store. A watch from that version sees every
change committed after the list. A watch without a version begins with every selected object as
added, in the order of their last changes.
-/

namespace ControlPlane

/-- The selected objects, and the version of the store they were read at. -/
structure Listing where
  items : List Object
  version : Version
deriving Repr

namespace Table

/-- Every selected object as added, in the order of their versions. -/
def snapshot (t : Table) (selection : Selection) : List Event :=
  let events := (t.select selection).map fun e => (⟨.added, e.2.object, e.2.version⟩ : Event)
  events.mergeSort fun a b => a.version ≤ b.version

/-- The events a watch begins with: what it missed since a version, or what is there. -/
def initialEvents (t : Table) (selection : Selection) (since : Option Version) :
    Except Error (List Event) :=
  match since with
  | some since =>
    match t.history.replay? t.definition selection since with
    | some events => .ok events
    | none => .error (.gone t.name since t.history.oldest)
  | none => .ok (t.snapshot selection)

/-- The events a new watch begins with, if it may be opened. -/
def opening (t : Table) (selection : Selection) (since : Option Version) :
    Except Error (List Event) := do
  t.requireDeclared selection.criteria
  t.requireRunning
  t.initialEvents selection since

end Table

namespace Focus

/-- The object at a key. -/
def get (f : Focus) (scope : Scope) (key : Key) : Except Error Object :=
  (f.table.record scope key).map (·.object)

/-- The objects that criteria select. -/
def list (f : Focus) (scope : Scope) (criteria : Criteria) : Except Error Listing := do
  f.table.requireDeclared criteria
  return ⟨(f.table.select ⟨criteria, scope⟩).map (·.2.object), f.version⟩

/-- Opens a watch. The answer is its number. -/
def watch (f : Focus) (scope : Scope) (m : Moment) (criteria : Criteria)
    (since : Option Version) (timeout : Option Nat) : Except Error Nat × Focus :=
  let selection : Selection := ⟨criteria, scope⟩
  match f.table.opening selection since with
  | .error e => (.error e, f)
  | .ok events =>
    let t := f.table
    let w : Watch :=
      { id := t.nextWatch
        selection := selection
        deadline := m.now + f.limits.grant timeout
        initial := events
        queue := []
        phase := .live
        finished := false }
    (.ok w.id, { f with
      table := { t with watches := t.watches ++ [w], nextWatch := t.nextWatch + 1 } })

/-- The focus with a watch in place of an earlier state of it. If the server closed the watch in
between, that is counted. -/
def settle (f : Focus) (before after : Watch) : Focus :=
  let counters := match before.phase, after.phase with
    | .live, .ended (some reason) => f.counters.add (.closed f.table.name reason) 1
    | _, _ => f.counters
  { f with table := f.table.setWatch after, counters := counters }

/-- What the consumer of a watch takes next. A watch that does not exist is over. -/
def poll (f : Focus) (now id : Nat) : Watch.Item × Focus :=
  match f.table.watch? id with
  | some w =>
    let (item, next) := w.poll now
    (item, f.settle w next)
  | none => (.over, f)

/-- Ends a watch on behalf of its consumer. What is queued can still be taken. -/
def stopWatch (f : Focus) (id : Nat) : Focus :=
  match f.table.watch? id with
  | some w => f.settle w (w.close none)
  | none => f

/-- Forgets a watch whose consumer dropped it. -/
def dropWatch (f : Focus) (id : Nat) : Focus :=
  { f with table := { f.table with watches := f.table.watches.filter fun w => w.id ≠ id } }

end Focus

end ControlPlane
