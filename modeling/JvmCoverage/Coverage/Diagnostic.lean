import JvmCoverage.Error.Instrument

/-!
# Diagnostics

What was left without probes and why.  A failure that makes a whole class unreliable skips the
class, and one inside a method skips the method only.
-/

namespace JvmCoverage

/-- How far a failure reaches. -/
inductive DiagnosticAction where
  | skipClass
  | skipMethod
  | warn
  deriving DecidableEq

namespace DiagnosticAction

/-- The name of an action. -/
def name : DiagnosticAction → String
  | skipClass => "skip_class"
  | skipMethod => "skip_method"
  | warn => "warn"

/-- The words for an action in a description. -/
def words : DiagnosticAction → String
  | skipClass => "class skipped"
  | skipMethod => "method skipped"
  | warn => "warning"

end DiagnosticAction

/-- Something to be told about a class. -/
structure Diagnostic where
  className : String
  method : Option String
  kind : Option ErrorKind
  message : String
  action : DiagnosticAction
  deriving DecidableEq

namespace Diagnostic

/-- A class left alone because of `error`. -/
def skipClass (className : String) (error : InstrumentError) : Diagnostic :=
  { className, method := none, kind := some error.kind, message := error.message,
    action := .skipClass }

/-- A class left alone for a reason that is none of the known kinds. -/
def aborted (className message : String) : Diagnostic :=
  { className, method := none, kind := none, message, action := .skipClass }

/-- A method left alone. -/
def skipMethod (className method : String) (kind : ErrorKind) (message : String) : Diagnostic :=
  { className, method := some method, kind := some kind, message, action := .skipMethod }

/-- A warning. -/
def warn (className message : String) : Diagnostic :=
  { className, method := none, kind := none, message, action := .warn }

/-- What the diagnostic is about. -/
def subject (d : Diagnostic) : String :=
  match d.method with
  | some method => d.className ++ "." ++ method
  | none => d.className

/-- The diagnostic in one line. -/
def description (d : Diagnostic) : String :=
  s!"{d.subject}: {d.action.words}: {d.message}"

end Diagnostic

/-- Diagnostics in order of arrival. -/
abbrev DiagnosticLog := Array Diagnostic

namespace DiagnosticLog

/-- The diagnostics about a class. -/
def forClass (log : DiagnosticLog) (className : String) : List Diagnostic :=
  log.toList.filter (·.className == className)

/-- The number of diagnostics with the given action. -/
def count (log : DiagnosticLog) (action : DiagnosticAction) : Nat :=
  log.countP (·.action == action)

end DiagnosticLog

end JvmCoverage
