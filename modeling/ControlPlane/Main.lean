import ControlPlane.Describe
import ControlPlane.Options

/-!
# The program

The program starts a server as the command line asks, and reports it. A command line at fault is
reported on standard error.
-/

namespace ControlPlane

/-- The report of a fault of the command line. -/
def OptionFault.message : OptionFault → String
  | unknown => "unexpected argument"
  | badValue => "an option has no value, or none of the possible ones"
  | badNumber => "the value of an option is not a number"
  | repeated => "an option cannot be used twice"

end ControlPlane

open ControlPlane in
/-- Starts a server and reports it. -/
def main (args : List String) : IO UInt32 := do
  match Options.parse args with
  | .ok options =>
    IO.println options.server.describe
    return 0
  | .error fault =>
    IO.eprintln ("error: " ++ fault.message)
    return 2
