import JvmCoverage.Agent.Basic
import JvmCoverage.Coverage.SlotTable
import JvmCoverage.Machine.Insertion
import JvmCoverage.Machine.Writing

/-!
# The agent on a machine

An agent whose counters are in slots, and which reads, plans, inserts and writes on a machine.  A
class for which that faults is left as it is, like one for which it fails, and the fault is
recorded.
-/

namespace JvmCoverage.Machine

/-! ## Counters -/

/-- Changes to a table of counters that may fault. -/
abbrev Allocator (α : Type) := ExceptT (Stop InstrumentError) (StateM SlotTable) α

/-- The slot for a class without one: the next, which is filled unless it is already. -/
def fillSlot (identity : ClassIdentity) (probes : Nat) (t : SlotTable) : Allocator Slot := do
  let number := UInt32.ofNat t.allocated
  let place ← item t.slots.toList t.allocated
  let slot := place.getD ⟨number, .fresh identity probes⟩
  let allocated ← add 64 t.allocated 1
  set { slots := t.slots.setIfInBounds t.allocated slot, allocated
        index := t.index.insert identity number : SlotTable }
  return slot

/-- The slot of a class with `probes` probes. -/
def allocate (identity : ClassIdentity) (probes : Nat) : Allocator Slot := do
  let t ← get
  match t.index[identity]?.bind t.slot? with
  | some slot =>
    let existing := slot.segment.counts.size
    if existing = probes then return slot
    else throw (.error (.segmentMismatch identity.text existing probes))
  | none =>
    if t.capacity ≤ t.allocated then
      let needed ← add 64 t.allocated 1
      throw (.error (.capacity .segments needed t.capacity))
    else
      fillSlot identity probes t

/-- The number of the next slot, or the greatest there is. -/
def nextNumber (t : SlotTable) : UInt32 :=
  if t.allocated < 2 ^ 32 then UInt32.ofNat t.allocated else 0xffffffff

/-- The identity of the class with the given bytes. -/
def identityOf (name : String) (bytes : List UInt8) : Checked InstrumentError ClassIdentity := do
  let front ← slice (Sha256.hash bytes) 0 8
  let digits ← fill 8 front
  return ⟨name, UInt64.ofNat (Bytes.ofBigEndian digits)⟩

/-- An agent with all that it has seen. -/
structure Agent where
  policy : Policy := {}
  filter : ClassFilter := .all
  table : SlotTable
  registry : Registry := {}
  log : DiagnosticLog := #[]

namespace Agent

/-! ## Diagnostics -/

/-- The agent with one more diagnostic. -/
def record (d : Diagnostic) (agent : Agent) : Agent :=
  { agent with log := agent.log.push d }

/-- The agent with a warning if the class is not the one that was announced. -/
def noteName (className : String) (c : ClassFile) (agent : Agent) : Agent :=
  if c.name = className then agent
  else agent.record (.warn className s!"class bytes declare {c.name}")

/-- The agent with a diagnostic for every method that failed. -/
def noteFailures (plan : ClassPlan) (agent : Agent) : Agent :=
  (plan.methods.filterMap (JvmCoverage.Agent.failure? plan.className)).foldl
    (fun agent d => agent.record d) agent

/-! ## Instrumenting -/

/-- What the probes of the plan stand for. -/
def classRecord (plan : ClassPlan) (identity : ClassIdentity) : ClassRecord where
  identity
  sourceFile := plan.sourceFile
  methods := plan.methods
  probes := plan.probes
  branches := plan.branches

/-- The bytes of the class with probes that count in `segment`. -/
def render (policy : Policy) (plan : ClassPlan) (c : ClassFile) (segment : UInt32) :
    Checked InstrumentError (List UInt8) := do
  let probed ← plan.apply segment c
  let bytes ← encode probed
  if policy.selfCheck then
    selfCheck bytes
    return bytes
  else return bytes

/-- The bytes of the class with probes, or why there are none, and the table afterwards. -/
def emit (policy : Policy) (plan : ClassPlan) (c : ClassFile) (identity : ClassIdentity)
    (t : SlotTable) : Checked InstrumentError (List UInt8) × SlotTable :=
  match render policy plan c (nextNumber t) with
  | .error stop => (.error stop, t)
  | .ok bytes =>
    match (allocate identity plan.probes.length).run.run t with
    | (.error stop, later) => (.error stop, later)
    | (.ok slot, later) =>
      if slot.number = nextNumber t then (.ok bytes, later)
      else (render policy plan c slot.number, later)

/-- Instruments a class with the given plan. -/
def carryOut (plan : ClassPlan) (c : ClassFile) (identity : ClassIdentity) (agent : Agent) :
    Checked InstrumentError (Option (List UInt8)) × Agent :=
  let agent := agent.noteFailures plan
  let registry := agent.registry.insert (classRecord plan identity)
  if plan.probes.isEmpty then (.ok none, { agent with registry })
  else
    match emit agent.policy plan c identity agent.table with
    | (.error stop, table) => (.error stop, { agent with table })
    | (.ok bytes, table) => (.ok (some bytes), { agent with table, registry })

/-- The identity of a class and a plan for it. -/
def prepare (policy : Policy) (c : ClassFile) (bytes : List UInt8) :
    Checked InstrumentError (ClassIdentity × ClassPlan) := do
  let identity ← identityOf c.name bytes
  let plan ← planClass policy c
  return (identity, plan)

/-- Instruments a class that could be read. -/
def instrument (className : String) (c : ClassFile) (bytes : List UInt8) (agent : Agent) :
    Checked InstrumentError (Option (List UInt8)) × Agent :=
  let agent := agent.noteName className c
  let bridge := agent.policy.bridge
  if JvmCoverage.Agent.callsBridge bridge c then
    let message := s!"already calls {bridge.owner}.{bridge.name}, left unchanged"
    (.ok none, agent.record (.warn c.name message))
  else
    match prepare agent.policy c bytes with
    | .error stop => (.error stop, agent)
    | .ok (identity, plan) => agent.carryOut plan c identity

/-- Instruments the class announced as `className`, whatever the filter says, or tells why that
fails. -/
def tryTransform (className : String) (bytes : List UInt8) (agent : Agent) :
    Checked InstrumentError (Option (List UInt8)) × Agent :=
  match mapError .decode (read bytes) with
  | .error stop => (.error stop, agent)
  | .ok c => agent.instrument className c bytes

/-- The bytes to load instead of those of the class announced as `className`.  A failure or a
fault is recorded, and the class is then loaded as it is. -/
def transform (className : String) (bytes : List UInt8) (agent : Agent) :
    Option (List UInt8) × Agent :=
  if agent.filter.accepts className then
    match agent.tryTransform className bytes with
    | (.ok out, agent) => (out, agent)
    | (.error (.error e), agent) => (none, agent.record (.skipClass className e))
    | (.error (.fault f), agent) =>
      (none, agent.record (.aborted className ("instrumentation panicked: " ++ f.message)))
  else (none, agent)

end Agent

end JvmCoverage.Machine
