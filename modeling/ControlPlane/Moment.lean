import ControlPlane.Timestamp

/-!
# Moments

A store takes nothing from its surroundings by itself: the clock, the time of day, identifiers and
the random part of names come with each request. So what a request does is a function of the store,
the request and the moment.
-/

namespace ControlPlane

/-- What the world supplies to a request. -/
structure Moment where
  /-- The clock by which watches expire, in milliseconds. -/
  now : Nat
  /-- The time of day, for new objects and conditions. -/
  wall : Timestamp
  /-- The identifier for an object that is created. -/
  uid : String
  /-- What completes a generated name. -/
  suffix : String
deriving Repr

end ControlPlane
