import JvmCoverage.Agent.Basic
import JvmCoverage.Command.Error
import JvmCoverage.Document.Coverage

/-!
# Instrumenting one class

What `instrument` does with the bytes of a class, and the summary it prints.
-/

namespace JvmCoverage

/-- The label of a status in listings. -/
def MethodStatus.label : MethodStatus → String
  | instrumented => "instrumented"
  | noCode => "no code"
  | synthetic => "synthetic"
  | excluded => "excluded"
  | skipAnnotated => "opted out"
  | failed kind reason => s!"failed ({kind.name}): {reason}"

/-- Changes to a policy made on the command line. -/
structure PolicyChanges where
  granularity : Option Granularity := none
  exclude : List String := []
  ignoreSkipAnnotation : Bool := false
  noSelfCheck : Bool := false

namespace PolicyChanges

/-- The policy that also excludes methods called `name`, if it does not already. -/
def excludeOnce (policy : Policy) (name : String) : Policy :=
  if policy.excludes name then policy else policy.exclude name

/-- The policy with the changes. -/
def apply (changes : PolicyChanges) (policy : Policy) : Policy :=
  let policy := changes.exclude.foldl excludeOnce policy
  { policy with
    granularity := changes.granularity.getD policy.granularity
    skipAnnotation := if changes.ignoreSkipAnnotation then none else policy.skipAnnotation
    selfCheck := policy.selfCheck && !changes.noSelfCheck }

end PolicyChanges

/-- An instrumented class. -/
structure Instrumented where
  bytes : List UInt8
  /-- Whether there are probes; without any, the bytes are those that came in. -/
  changed : Bool
  record : Option ClassRecord

namespace Instrumented

/-- The agent for one class. -/
def agentFor (policy : Policy) : Agent :=
  { policy, store := { capacity := 1 } }

/-- Instruments the class with the given bytes. -/
def ofBytes (policy : Policy) (bytes : List UInt8) : Except CommandError Instrumented :=
  match ClassFile.read bytes with
  | .error e => .error (.decode e)
  | .ok c =>
    match (agentFor policy).tryTransform c.name bytes with
    | (.error e, _) => .error (.instrument e)
    | (.ok out, agent) =>
      .ok {
        bytes := out.getD bytes
        changed := out.isSome
        record := agent.registry.records.head? }

end Instrumented

/-! ## Summaries -/

/-- A method in a summary. -/
structure MethodSummary where
  record : MethodRecord
  probes : Nat
  deriving DecidableEq

/-- What was done to a class. -/
structure InstrumentSummary where
  className : String
  /-- The path that the class was written to. -/
  output : String
  changed : Bool
  probes : Nat
  methods : List MethodSummary
  deriving DecidableEq

namespace InstrumentSummary

/-- The methods of a class with the numbers of their probes. -/
def methodsOf (r : ClassRecord) : List MethodSummary :=
  r.methods.mapIdx fun i m => ⟨m, (r.methodProbes i).length⟩

/-- The summary for a class written to `output`. -/
def of (result : Instrumented) (output : String) : InstrumentSummary where
  className := (result.record.map (·.identity.name)).getD ""
  output
  changed := result.changed
  probes := (result.record.map ClassRecord.probeCount).getD 0
  methods := (result.record.map methodsOf).getD []

/-- A text filled up with blanks to `width` characters. -/
def pad (width : Nat) (text : String) : String :=
  text ++ String.ofList (List.replicate (width - text.length) ' ')

/-- The line for a method. -/
def methodLine (m : MethodSummary) : String :=
  let signature := pad 32 (m.record.name ++ m.record.descriptor)
  if m.record.status = .instrumented then s!"  {signature} {m.probes} probes\n"
  else s!"  {signature} {m.record.status.label}\n"

/-- The first line. -/
def headLine (s : InstrumentSummary) : String :=
  let place := s!"{s.className} -> {s.output}: "
  if s.changed then
    let instrumented := s.methods.countP (·.record.status == .instrumented)
    place ++ s!"{s.probes} probes in {instrumented} of {s.methods.length} methods\n"
  else place ++ "nothing to probe, copied unchanged\n"

/-- The text of a summary. -/
def text (s : InstrumentSummary) : String :=
  s.headLine ++ String.join (s.methods.map methodLine)

/-- The document of a method. -/
def methodDocument (m : MethodSummary) : Document :=
  .record ([("name", .text m.record.name), ("descriptor", .text m.record.descriptor)]
    ++ m.record.status.fields ++ [("probes", .number m.probes)])

/-- The document of a summary. -/
def toDocument (s : InstrumentSummary) : Document :=
  .record [("class", .text s.className), ("output", .text s.output),
    ("rewritten", .flag s.changed), ("probes", .number s.probes),
    ("methods", .list (s.methods.map methodDocument))]

end InstrumentSummary

end JvmCoverage
