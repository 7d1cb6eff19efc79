import JvmCoverage.Agent.Filter
import JvmCoverage.Coverage.Aggregate
import JvmCoverage.Coverage.Diagnostic
import JvmCoverage.Coverage.Registry
import JvmCoverage.Probe.Insertion

/-!
# The agent

An `Agent` is asked about every class that a program loads.  It instruments the class, gives it
counters, remembers what the counters stand for, and reports the coverage of all classes.  A
class that cannot be instrumented is left as it is and takes no counters.
-/

namespace JvmCoverage

/-- An agent with all that it has seen. -/
structure Agent where
  policy : Policy := {}
  filter : ClassFilter := .all
  store : Store
  registry : Registry := {}
  log : DiagnosticLog := #[]

namespace Agent

/-! ## Diagnostics -/

/-- The agent with one more diagnostic. -/
def record (d : Diagnostic) (agent : Agent) : Agent :=
  { agent with log := agent.log.push d }

/-- The agent with a warning if the class is not the one that was announced. -/
def noteName (className : String) (c : ClassFile) (agent : Agent) : Agent :=
  if c.name = className then agent
  else agent.record (.warn className s!"class bytes declare {c.name}")

/-- The diagnostic about a method of the class called `className`, if it failed. -/
def failure? (className : String) (m : MethodRecord) : Option Diagnostic :=
  match m.status with
  | .failed kind reason => some (.skipMethod className (m.name ++ m.descriptor) kind reason)
  | _ => none

/-- The agent with a diagnostic for every method that failed. -/
def noteFailures (plan : ClassPlan) (agent : Agent) : Agent :=
  (plan.methods.filterMap (failure? plan.className)).foldl (fun agent d => agent.record d) agent

/-! ## Instrumenting -/

/-- Whether the class calls the bridge already. -/
def callsBridge (bridge : Bridge) (c : ClassFile) : Bool :=
  (c.pool.findMethodRef? bridge.owner bridge.name bridge.descriptor).isSome

/-- The bytes of the class with probes that count in `segment`. -/
def render (policy : Policy) (plan : ClassPlan) (c : ClassFile) (segment : Nat) :
    Except InstrumentError (List UInt8) := do
  let probed ← plan.apply (UInt32.ofNat segment) c
  let bytes ← probed.toBytes
  if policy.selfCheck then ClassFile.check bytes
  return bytes

/-- The bytes of the class with probes, or why there are none, and the store afterwards.  The class
is rendered before it is given counters, so that a failure takes none; it is rendered again if its
counters turn out to have another number than the next free one. -/
def emit (policy : Policy) (plan : ClassPlan) (c : ClassFile) (identity : ClassIdentity)
    (store : Store) : Except InstrumentError (List UInt8) × Store :=
  let provisional := store.size
  match render policy plan c provisional with
  | .error e => (.error e, store)
  | .ok bytes =>
    match store.allocate identity plan.probeCount with
    | .error e => (.error e, store)
    | .ok (segment, store) =>
      if segment = provisional then (.ok bytes, store)
      else (render policy plan c segment, store)

/-- Instruments a class with the given plan.  There is nothing to hand back when the plan has no
probes. -/
def carryOut (plan : ClassPlan) (c : ClassFile) (identity : ClassIdentity) (agent : Agent) :
    Except InstrumentError (Option (List UInt8)) × Agent :=
  let agent := agent.noteFailures plan
  let registry := agent.registry.insert (plan.toRecord identity)
  if plan.isEmpty then (.ok none, { agent with registry })
  else
    match emit agent.policy plan c identity agent.store with
    | (.error e, store) => (.error e, { agent with store })
    | (.ok bytes, store) => (.ok (some bytes), { agent with store, registry })

/-- Instruments a class that could be read. -/
def instrument (className : String) (c : ClassFile) (bytes : List UInt8) (agent : Agent) :
    Except InstrumentError (Option (List UInt8)) × Agent :=
  let agent := agent.noteName className c
  let bridge := agent.policy.bridge
  if callsBridge bridge c then
    let message := s!"already calls {bridge.owner}.{bridge.name}, left unchanged"
    (.ok none, agent.record (.warn c.name message))
  else
    match ClassPlan.ofClass agent.policy c with
    | .error e => (.error e, agent)
    | .ok plan => agent.carryOut plan c (.of c.name bytes)

/-- Instruments the class announced as `className`, whatever the filter says, or tells why that
fails.  No bytes come back for a class that is to be loaded as it is. -/
def tryTransform (className : String) (bytes : List UInt8) (agent : Agent) :
    Except InstrumentError (Option (List UInt8)) × Agent :=
  match ClassFile.read bytes with
  | .error e => (.error (.decode e), agent)
  | .ok c => agent.instrument className c bytes

/-- The bytes to load instead of those of the class announced as `className`.  A failure is
recorded, and the class is then loaded as it is. -/
def transform (className : String) (bytes : List UInt8) (agent : Agent) :
    Option (List UInt8) × Agent :=
  if agent.filter.accepts className then
    match agent.tryTransform className bytes with
    | (.ok out, agent) => (out, agent)
    | (.error e, agent) => (none, agent.record (.skipClass className e))
  else (none, agent)

/-! ## Counting and reporting -/

/-- The agent after a probe has run once more. -/
def hit (segment probe : Nat) (agent : Agent) : Agent :=
  { agent with store := agent.store.hit segment probe }

/-- The coverage so far. -/
def snapshot (agent : Agent) : CoverageReport :=
  .aggregate agent.registry.records agent.store.segments.toList

/-- The agent with all counters at 0 and without diagnostics. -/
def reset (agent : Agent) : Agent :=
  { agent with store := agent.store.reset, log := #[] }

end Agent

end JvmCoverage
