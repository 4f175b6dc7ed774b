import ControlPlane.Client
import ControlPlane.Server

/-!
# Diagnostic texts

One-line texts that describe a server, a table, a watch and a client to an operator.
-/

namespace ControlPlane

open Text (quoted quotedList)

/-- The text of a span of milliseconds: in seconds from one second on, with the decimals that are
not zero. -/
def spanText (ms : Nat) : String :=
  if ms = 0 then "0ns"
  else if ms < 1000 then String.ofList (decimalDigits ms) ++ "ms"
  else
    let digits := decimalDigits (ms % 1000)
    let decimals := List.replicate (3 - digits.length) '0' ++ digits
    let decimals := (decimals.reverse.dropWhile (· = '0')).reverse
    let point := if decimals.isEmpty then [] else '.' :: decimals
    String.ofList (decimalDigits (ms / 1000) ++ point) ++ "s"

/-- The text of a server: the number of its kinds, its version, and its views. -/
def Server.describe (s : Server) : String :=
  "Server \x7b store: Store \x7b kinds: " ++ String.ofList (decimalDigits s.store.tables.length) ++
    ", resource_version: ResourceVersion(" ++ s.store.version.text ++ ") \x7d, views: " ++
    quotedList s.viewNames ++ " \x7d"

/-- The text of the limits of watches. -/
def WatchLimits.describe (l : WatchLimits) : String :=
  "WatchConfig \x7b queue_capacity: " ++ String.ofList (decimalDigits l.queueCapacity) ++
    ", timeout: " ++ spanText l.lifetime ++ ", history: " ++
    String.ofList (decimalDigits l.history) ++ " \x7d"

/-- The text of a table: its kind and the limits of its watches. -/
def Table.describe (t : Table) (l : WatchLimits) : String :=
  "KindStore \x7b descriptor: " ++ t.definition.describe ++ ", config: " ++ l.describe ++ " \x7d"

/-- The name of a reason. -/
def EndReason.name : EndReason → String
  | expired => "Expired"
  | overflowed => "Overflowed"
  | shuttingDown => "ShuttingDown"

/-- The text of a watch: its number, its kind, how many initial events are left, and the reason for
which it was closed. -/
def Watch.describe (w : Watch) (kind : String) : String :=
  let closed := match w.closed? with
    | some reason => "Some(" ++ reason.name ++ ")"
    | none => "None"
  "Watch \x7b id: " ++ String.ofList (decimalDigits w.id) ++ ", kind: " ++ quoted kind ++
    ", initial: " ++ String.ofList (decimalDigits w.initial.length) ++ ", closed: " ++ closed ++
    " \x7d"

/-- The text of a client: its kind, the path of its view, and its namespace. -/
def Client.describe (c : Client) : String :=
  let ns := match c.ns with
    | some ns => "Some(" ++ quoted ns ++ ")"
    | none => "None"
  "Api \x7b kind: " ++ quoted c.kind ++ ", view: " ++ quoted c.view.path ++ ", namespace: " ++ ns ++
    " \x7d"

example : spanText 90000 = "90s" ∧ spanText 1500 = "1.5s" ∧ spanText 250 = "250ms" := by
  decide +kernel

end ControlPlane
