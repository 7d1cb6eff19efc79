import JvmCoverage.Command.Instrument

/-!
# Verifying one class

A class passes if writing and reading it again gives the same class and if it can be
instrumented.
-/

namespace JvmCoverage

/-- A class that passed. -/
structure Verified where
  className : String
  methods : Nat
  probes : Nat
  deriving DecidableEq

namespace Verified

/-- Fails unless writing and reading `c` gives `c`. -/
def checkStable (c : ClassFile) : Except CommandError Unit :=
  match c.toBytes with
  | .error e => .error (.instrument e)
  | .ok bytes =>
    match ClassFile.read bytes with
    | .error e => .error (.decode e)
    | .ok again => if again = c then .ok () else .error (.verification (.changes c.name))

/-- Verifies the class with the given bytes. -/
def ofBytes (policy : Policy) (bytes : List UInt8) : Except CommandError Verified :=
  match ClassFile.read bytes with
  | .error e => .error (.decode e)
  | .ok c => do
    checkStable c
    match (Instrumented.agentFor { policy with selfCheck := true }).tryTransform c.name bytes with
    | (.error e, _) => .error (.instrument e)
    | (.ok _, agent) =>
      .ok {
        className := c.name
        methods := c.methods.length
        probes := (agent.registry.records.head?.map ClassRecord.probeCount).getD 0 }

/-- The line for a class that passed. -/
def line (path : String) (v : Verified) : String :=
  s!"ok   {path}: {v.className} ({v.methods} methods, {v.probes} probes)\n"

/-- The line for a class that did not pass. -/
def failureLine (path : String) (e : CommandError) : String :=
  s!"FAIL {path}: {e.message}\n"

end Verified

end JvmCoverage
