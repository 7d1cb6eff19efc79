/-!
# Verbosity

How much is printed.
-/

namespace JvmCoverage

/-- How much is printed. -/
inductive Verbosity where
  | quiet
  | normal
  | verbose
  | debug
  | trace
  deriving DecidableEq

namespace Verbosity

/-- The verbosity asked for by `verbose` requests for more, and perhaps one for silence. -/
def ofFlags (verbose : Nat) (quiet : Bool) : Verbosity :=
  if quiet then .quiet
  else
    match verbose with
    | 0 => normal
    | 1 => .verbose
    | 2 => debug
    | _ => trace

/-- Whether nothing but errors is printed. -/
def isQuiet (v : Verbosity) : Bool := v == quiet

/-- Whether more than usual is printed. -/
def isVerbose : Verbosity → Bool
  | verbose | debug | trace => true
  | quiet | normal => false

/-- The least level of messages in the log. -/
def logLevel : Verbosity → String
  | quiet => "error"
  | normal => "warn"
  | verbose => "info"
  | debug => "debug"
  | trace => "trace"

/-- The name of a verbosity. -/
def name : Verbosity → String
  | quiet => "Quiet"
  | normal => "Normal"
  | verbose => "Verbose"
  | debug => "Debug"
  | trace => "Trace"

end Verbosity

end JvmCoverage
