import ControlPlane.Definition
import ControlPlane.Scope

/-!
# Changes and the events they cause

A committed change is described by the object before and after it. A watcher sees the change through
its selection: an object that enters the selection is added, one that stays is modified, and one
that leaves is deleted, as of the version of the change.

* `Selection.observe`: the one place where a change becomes an event. A broadcast hands the object
  that left a selection on from watcher to watcher, so that it is made at most once.
* `Selection.event?`: the same for a single watcher. Replaying the history goes through it.
-/

namespace ControlPlane

/-- How a watcher sees a change. -/
inductive EventType where
  | added
  | modified
  | deleted
deriving DecidableEq, Repr

/-- The word for a type of event. -/
def EventType.word : EventType → String
  | added => "ADDED"
  | modified => "MODIFIED"
  | deleted => "DELETED"

/-- A change of an object as one watcher sees it. -/
structure Event where
  type : EventType
  object : Object
  version : Version
deriving Repr

/-- A committed change. -/
inductive Change where
  | created (new : Object)
  | updated (old new : Object)
  /-- The tombstone is the object at the version of its deletion. -/
  | deleted (tombstone : Object)
deriving Repr

/-- The objects a watcher or a list selects. -/
structure Selection where
  criteria : Criteria
  scope : Scope
deriving Repr

namespace Selection

/-- The object is selected. -/
def selects (x : Selection) (d : Definition) (o : Object) : Bool :=
  x.scope.contains o && x.criteria.matches (d.subject o)

/-- The event by which a watcher sees the change at a version, if it sees it. An object that leaves
the selection is shown at that version; `departed` is that object if an earlier watcher of the
change needed it, and comes back for the watchers after this one. -/
def observe (x : Selection) (d : Definition) (version : Version) (departed : Option Object) :
    Change → Option Event × Option Object
  | .created new => (if x.selects d new then some ⟨.added, new, version⟩ else none, departed)
  | .updated old new =>
    match x.selects d old, x.selects d new with
    | true, true => (some ⟨.modified, new, version⟩, departed)
    | false, true => (some ⟨.added, new, version⟩, departed)
    | true, false =>
      let gone := departed.getD (old.stamped version)
      (some ⟨.deleted, gone, version⟩, some gone)
    | false, false => (none, departed)
  | .deleted tombstone =>
    (if x.selects d tombstone then some ⟨.deleted, tombstone, version⟩ else none, departed)

/-- The event by which a watcher sees the change at a version, if it sees it. -/
def event? (x : Selection) (d : Definition) (version : Version) (change : Change) : Option Event :=
  (x.observe d version none change).1

end Selection

end ControlPlane
