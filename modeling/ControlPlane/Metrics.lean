import ControlPlane.Error
import ControlPlane.SortedMap.Basic

/-!
# Metrics

A store counts its mutations, the events it delivers and the watches it closes, by the name of the
kind. Kinds of one name in different groups share their counters. The text form lists the counters
that have been touched and, for each table, its number of objects and of watchers; the tables come
in the order of their names.

* `TableSize.perm_byName`: ordering the sizes of tables neither loses nor repeats one.
-/

namespace ControlPlane

/-- A kind of mutation. -/
inductive Verb where
  | create
  | update
  | patch
  | delete
deriving DecidableEq, Repr

/-- The word for a kind of mutation. -/
def Verb.word : Verb → String
  | create => "create"
  | update => "update"
  | patch => "patch"
  | delete => "delete"

/-- What a counter counts. -/
inductive Counter where
  | mutations (kind : String) (verb : Verb)
  | delivered (kind : String)
  | closed (kind : String) (reason : EndReason)
deriving DecidableEq, Repr

namespace Counter

/-- The metric that a counter is part of. -/
def metric : Counter → String
  | mutations .. => "mutations"
  | delivered _ => "watch_events"
  | closed .. => "watch_closed"

/-- The labels of a counter. -/
def labels : Counter → List (String × String)
  | mutations kind verb => [("kind", kind), ("verb", verb.word)]
  | delivered kind => [("kind", kind)]
  | closed kind reason => [("kind", kind), ("reason", reason.word)]

end Counter

/-- The counters that have been touched, in the order of their first increment. -/
abbrev Counters := List (Counter × Nat)

namespace Counters

/-- The count of a counter; zero if it was never touched. -/
def count (counters : Counters) (c : Counter) : Nat := (counters.lookup c).getD 0

/-- Adds to a counter. -/
def add (counters : Counters) (c : Counter) (n : Nat) : Counters :=
  match counters with
  | [] => [(c, n)]
  | (c', m) :: rest => if c' = c then (c', m + n) :: rest else (c', m) :: add rest c n

/-- Counts the events delivered for one change; none delivered touches no counter. -/
def addDelivered (counters : Counters) (kind : String) (n : Nat) : Counters :=
  if n = 0 then counters else add counters (.delivered kind) n

end Counters

/-- The size of a table. -/
structure TableSize where
  kind : String
  objects : Nat
  watchers : Nat
deriving DecidableEq, Repr

namespace TableSize

/-- Puts a size among some, behind those of earlier names only. -/
def place (t : TableSize) : List TableSize → List TableSize
  | [] => [t]
  | u :: sizes => if compare u.kind t.kind = .lt then u :: place t sizes else t :: u :: sizes

/-- The sizes in the order of their names. Those of one name stay in the order they had. -/
def byName (sizes : List TableSize) : List TableSize := sizes.foldr place []

theorem perm_place (t : TableSize) (sizes : List TableSize) :
    (place t sizes).Perm (t :: sizes) := by
  induction sizes with
  | nil => exact .refl _
  | cons u sizes ih =>
    rw [place]
    split
    · exact (ih.cons u).trans (.swap t u sizes)
    · exact .refl _

theorem perm_byName (sizes : List TableSize) : (byName sizes).Perm sizes := by
  induction sizes with
  | nil => exact .refl _
  | cons t sizes ih => exact (perm_place t _).trans (ih.cons t)

end TableSize

namespace Metrics

/-- The name of a metric in the text. -/
def fullName (metric : String) : String := "kubemem_" ++ metric

/-- The lines that describe a metric. -/
def header (metric help type : String) : List String :=
  ["# HELP " ++ fullName metric ++ " " ++ help, "# TYPE " ++ fullName metric ++ " " ++ type]

/-- A sample: its name, its labels, and its value. -/
def sample (name : String) (labels : List (String × String)) (n : Nat) : String :=
  name ++ "\x7b" ++ Text.join "," (labels.map fun l => l.1 ++ "=\"" ++ l.2 ++ "\"") ++ "\x7d " ++
    String.ofList (Nat.toDigits 10 n)

/-- The lines of a metric that counts: its description and the counters touched. -/
def counterLines (counters : Counters) (metric help : String) : List String :=
  header metric help "counter" ++
    (counters.filter fun e => e.1.metric == metric).map fun e =>
      sample (fullName metric ++ "_total") e.1.labels e.2

/-- The lines of a metric of the tables: its description and one sample for each table. -/
def gaugeLines (tables : List TableSize) (metric help : String) (size : TableSize → Nat) :
    List String :=
  header metric help "gauge" ++
    tables.map fun t => sample (fullName metric) [("kind", t.kind)] (size t)

/-- The lines of the metrics text. -/
def lines (counters : Counters) (tables : List TableSize) : List String :=
  counterLines counters "mutations" "Count of committed mutations by kind and verb." ++
    counterLines counters "watch_events" "Count of events delivered to watchers." ++
    counterLines counters "watch_closed" "Count of watches closed by the server, by reason." ++
    gaugeLines tables "objects" "The number of live objects of each kind" (·.objects) ++
    gaugeLines tables "watchers" "The number of active watchers of each kind" (·.watchers) ++
    ["# EOF"]

end Metrics

end ControlPlane
