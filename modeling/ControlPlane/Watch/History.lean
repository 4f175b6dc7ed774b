import ControlPlane.Watch.Event

/-!
# The history of a kind

The history holds the latest changes of a kind, up to its capacity, so that a watch can resume from
an earlier version. Once a change is dropped, no watch resumes from before it.
-/

namespace ControlPlane

/-- The latest changes of a kind. -/
structure History where
  /-- How many changes are held. -/
  capacity : Nat
  /-- The changes held, with their versions, oldest first. -/
  changes : List (Version × Change)
  /-- The version of the last change that was dropped; zero if none was. -/
  oldest : Version
deriving Repr

namespace History

/-- The history without changes. -/
def empty (capacity : Nat) : History := ⟨capacity, [], 0⟩

/-- The history with one change more; the oldest ones are dropped to keep the capacity. -/
def push (h : History) (version : Version) (change : Change) : History :=
  let changes := h.changes ++ [(version, change)]
  let excess := changes.length - h.capacity
  { h with
    changes := changes.drop excess
    oldest := ((changes.take excess).getLast?.map (·.1)).getD h.oldest }

/-- The events a selection sees after a version; none if a change after it was dropped. -/
def replay? (h : History) (d : Definition) (x : Selection) (since : Version) :
    Option (List Event) :=
  if since < h.oldest then none
  else
    some ((h.changes.filter fun c => since < c.1).filterMap fun c => x.event? d c.1 c.2)

end History

end ControlPlane
