import ControlPlane.Server

/-!
# The command line

The options of the command line configure a server. An option is written `--name=value` or
`--name value`, and each may be given once, except that the names of views accumulate. A separate
value does not start with a dash, unless it is nothing but a dash.

* `Options.parse`: the options of an argument list, or the first fault.
-/

namespace ControlPlane

/-- How log lines are written. -/
inductive LogFormat where
  | plain
  | json
deriving DecidableEq, Repr

/-- The options of the command line. -/
structure Options where
  logLevel : String
  logFormat : LogFormat
  queueCapacity : Nat
  /-- The longest lifetime of a watch, in seconds. -/
  watchTimeout : Nat
  history : Nat
  viewRoot : String
  viewLabel : String
  /-- The derived views to make at the start. -/
  views : List String
deriving DecidableEq, Repr

/-- Why a command line is refused. -/
inductive OptionFault where
  /-- An argument is neither an option nor the value of one. -/
  | unknown
  /-- An option has no value, or none of the possible ones. -/
  | badValue
  /-- The value of an option is not a number. -/
  | badNumber
  /-- An option is given twice. -/
  | repeated
deriving DecidableEq, Repr

/-- The name of an option. -/
inductive OptionName where
  | logLevel
  | logFormat
  | queueCapacity
  | watchTimeout
  | history
  | viewRoot
  | viewLabel
  | views
deriving DecidableEq, Repr

namespace OptionName

/-- The option of a name. -/
def ofText? : String → Option OptionName
  | "log-level" => some logLevel
  | "log-format" => some logFormat
  | "watch-queue-capacity" => some queueCapacity
  | "watch-timeout" => some watchTimeout
  | "watch-history" => some history
  | "view-prefix" => some viewRoot
  | "view-label" => some viewLabel
  | "views" => some views
  | _ => none

/-- The option that an argument names, and its value if that is attached. -/
def ofArgument? (arg : String) : Option (OptionName × Option String) := do
  let text ← Text.after? ['-', '-'] arg.toList
  match Text.cut? ['='] text with
  | some (name, value) => return (← ofText? (String.ofList name), some (String.ofList value))
  | none => return (← ofText? (String.ofList text), none)

end OptionName

namespace Options

/-- The options that hold unless told otherwise. -/
def standard : Options where
  logLevel := "kubemem=info,warn"
  logFormat := .plain
  queueCapacity := WatchLimits.standard.queueCapacity
  watchTimeout := WatchLimits.standard.lifetime / 1000
  history := WatchLimits.standard.history
  viewRoot := ViewScheme.standard.root
  viewLabel := ViewScheme.standard.label
  views := []

/-- Reads a number of 64 bits, written like a resource version. -/
def number (value : String) : Except OptionFault Nat :=
  match Version.parse? value with
  | some n => .ok n
  | none => .error .badNumber

/-- The options with the value of one of them read. -/
def assign (o : Options) (name : OptionName) (value : String) : Except OptionFault Options :=
  match name with
  | .logLevel => .ok { o with logLevel := value }
  | .logFormat =>
    match value with
    | "plain" => .ok { o with logFormat := .plain }
    | "json" => .ok { o with logFormat := .json }
    | _ => .error .badValue
  | .queueCapacity => (number value).map fun n => { o with queueCapacity := n }
  | .watchTimeout => (number value).map fun n => { o with watchTimeout := n }
  | .history => (number value).map fun n => { o with history := n }
  | .viewRoot => .ok { o with viewRoot := value }
  | .viewLabel => .ok { o with viewLabel := value }
  | .views =>
    .ok { o with views := o.views ++ (Text.splitAt ',' value.toList).map String.ofList }

/-- Takes the value of an option, unless the option was taken before and is not one that
accumulates. -/
def take (o : Options) (taken : List OptionName) (name : OptionName) (value : String) :
    Except OptionFault Options :=
  if name ≠ .views ∧ name ∈ taken then .error .repeated else o.assign name value

/-- The argument is not the value of an option before it. -/
def isDashed (arg : String) : Bool := arg.toList.head? = some '-' && arg ≠ "-"

/-- The arguments begin with one that is no option. After `--` there are no options. -/
def startsUnknown : List String → Bool
  | [] => false
  | "--" :: rest => !rest.isEmpty
  | arg :: _ => (OptionName.ofArgument? arg).isNone

/-- Reads the arguments that follow those whose options are taken. An unknown argument is reported
before a fault in a separate value right before it, and before the lack of one. -/
def parseFrom (o : Options) (taken : List OptionName) : List String → Except OptionFault Options
  | [] => .ok o
  | arg :: rest =>
    if startsUnknown (arg :: rest) then .error .unknown
    else
      match OptionName.ofArgument? arg with
      | none => .ok o
      | some (name, some value) => do
        let o ← o.take taken name value
        parseFrom o (name :: taken) rest
      | some (name, none) =>
        match rest with
        | [] => .error .badValue
        | value :: rest =>
          if isDashed value then
            .error (if startsUnknown (value :: rest) then .unknown else .badValue)
          else if startsUnknown rest then .error .unknown
          else do
            let o ← o.take taken name value
            parseFrom o (name :: taken) rest
termination_by structural args => args

/-- The options of an argument list. -/
def parse (args : List String) : Except OptionFault Options := standard.parseFrom [] args

/-- The server that the options ask for, without objects. Views without a name are left out. -/
def server (o : Options) : Server :=
  Server.start Catalog.standard ⟨o.queueCapacity, o.watchTimeout * 1000, o.history⟩
    ⟨o.viewRoot, o.viewLabel⟩ ((o.views.filter (!·.isEmpty)).map fun name => (name, none))

/-- The name of a format. -/
def formatName : LogFormat → String
  | .plain => "Plain"
  | .json => "Json"

/-- The text that shows the options. -/
def describe (o : Options) : String :=
  let digits (n : Nat) := String.ofList (decimalDigits n)
  "Args \x7b log_level: " ++ Text.quoted o.logLevel ++ ", log_format: " ++ formatName o.logFormat ++
    ", watch_queue_capacity: " ++ digits o.queueCapacity ++ ", watch_timeout: " ++
    digits o.watchTimeout ++ ", watch_history: " ++ digits o.history ++ ", view_prefix: " ++
    Text.quoted o.viewRoot ++ ", view_label: " ++ Text.quoted o.viewLabel ++ ", views: " ++
    Text.quotedList o.views ++ " \x7d"

end Options

end ControlPlane
