import ControlPlane.Watch.Event

/-!
# Watch streams

A watch first yields its initial events, then the events of its queue as changes are committed. It
is *live* while the table broadcasts to it. It ends when the server closes it, for a reason, or when
its consumer stops it, without one. An ended watch still yields what was queued, then its reason
once, and then nothing more.

* `Watch.deliver`: what a commit does to a watch.
* `Watch.poll`: what the consumer takes next.
-/

namespace ControlPlane

/-- Whether a watch is broadcast to. -/
inductive Phase where
  | live
  /-- The watch was closed by the server for a reason, or stopped by its consumer. -/
  | ended (reason : Option EndReason)
deriving DecidableEq, Repr

/-- A watch of one kind. -/
structure Watch where
  id : Nat
  selection : Selection
  /-- The time, in milliseconds, from which the watch is expired. -/
  deadline : Nat
  /-- The events that were there when the watch was opened and are not taken yet. -/
  initial : List Event
  /-- The events broadcast to the watch that are not taken yet. -/
  queue : List Event
  phase : Phase
  /-- The stream has ended: there is nothing more to take, ever. -/
  finished : Bool
deriving Repr

namespace Watch

/-- The watch is broadcast to. -/
def isLive (w : Watch) : Bool := w.phase = .live

/-- The reason for which the server closed the watch. -/
def closed? (w : Watch) : Option EndReason :=
  match w.phase with
  | .ended reason => reason
  | .live => none

/-- Ends a live watch; a watch that has ended keeps its reason. -/
def close (w : Watch) (reason : Option EndReason) : Watch :=
  match w.phase with
  | .live => { w with phase := .ended reason }
  | .ended _ => w

/-- What a commit did to a watch. -/
inductive Delivery where
  /-- The watch does not see the change, or has ended before. -/
  | skipped
  | queued
  | closed (reason : EndReason)
deriving DecidableEq, Repr

/-- Broadcasts a change to a watch, whose queue holds at most `capacity` events, but always one. A
watch past its deadline is closed instead, and so is one whose queue is full. The object that left a
selection comes and goes as in `Selection.observe`. -/
def deliver (w : Watch) (d : Definition) (capacity now : Nat) (version : Version)
    (change : Change) (departed : Option Object) : (Watch × Delivery) × Option Object :=
  match w.phase with
  | .ended _ => ((w, .skipped), departed)
  | .live =>
    if w.deadline ≤ now then ((w.close (some .expired), .closed .expired), departed)
    else
      let (event?, departed) := w.selection.observe d version departed change
      match event? with
      | none => ((w, .skipped), departed)
      | some event =>
        if w.queue.length < max capacity 1 then
          (({ w with queue := w.queue ++ [event] }, .queued), departed)
        else ((w.close (some .overflowed), .closed .overflowed), departed)

/-- Broadcasts a change to some watches, one after the other. -/
def deliverAll (d : Definition) (capacity now : Nat) (version : Version) (change : Change)
    (departed : Option Object) : List Watch → List (Watch × Delivery)
  | [] => []
  | w :: watches =>
    let (outcome, departed) := w.deliver d capacity now version change departed
    outcome :: deliverAll d capacity now version change departed watches

/-- What a consumer takes from a stream. -/
inductive Item where
  | event (e : Event)
  /-- The server closed the watch. -/
  | closed (reason : EndReason)
  /-- Nothing is there yet. -/
  | pending
  /-- The stream is over. -/
  | over
deriving Repr

/-- The watch as a poll finds it: closed if it is live and past its deadline, unless initial events
are left. -/
def expire (w : Watch) (now : Nat) : Watch :=
  if w.finished ∨ w.initial ≠ [] ∨ now < w.deadline then w else w.close (some .expired)

/-- The next item, from the watch as `expire` leaves it. -/
def take (w : Watch) : Item × Watch :=
  if w.finished then (.over, w)
  else
    match w.initial, w.queue, w.phase with
    | e :: initial, _, _ => (.event e, { w with initial := initial })
    | [], e :: queue, _ => (.event e, { w with queue := queue })
    | [], [], .live => (.pending, w)
    | [], [], .ended reason =>
      (match reason with
        | some reason => .closed reason
        | none => .over, { w with finished := true })

/-- What the consumer takes next, and the watch after it. -/
def poll (w : Watch) (now : Nat) : Item × Watch := (w.expire now).take

end Watch

end ControlPlane
