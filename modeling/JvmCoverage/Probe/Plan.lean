import JvmCoverage.ClassFile.Basic
import JvmCoverage.Coverage.Record
import JvmCoverage.Flow.Graph
import JvmCoverage.Policy.Basic
import JvmCoverage.Probe.Layout

/-!
# Planning probes

A `ClassPlan` says which blocks of which methods get probes, before the class is changed and
before its counters have a place.  Probes are numbered from 0 through the whole class, in the
order of methods and blocks.  A method that cannot take probes is left out with the reason, and
takes no number.
-/

namespace JvmCoverage

/-! ## Which blocks get probes -/

namespace Probe

/-- The lines that a probe in front of `b` accounts for when the lines in `seen` occur in earlier
blocks.  A block whose lines all occur earlier gets no probe. -/
def firstLines (seen : Std.HashSet UInt16) (b : BasicBlock) : Option (List UInt16) :=
  let fresh := b.lines.filter fun line => !seen.contains line
  if b.lines.isEmpty || !fresh.isEmpty then some fresh else none

/-- The lines seen and the choices made so far, with those for one more block. -/
def chooseNext (state : Std.HashSet UInt16 × Array (Option (List UInt16))) (b : BasicBlock) :
    Std.HashSet UInt16 × Array (Option (List UInt16)) :=
  (state.1.insertMany b.lines, state.2.push (firstLines state.1 b))

/-- For each block the lines that its probe accounts for, if it gets one. -/
def choose (granularity : Granularity) (blocks : Array BasicBlock) :
    Array (Option (List UInt16)) :=
  match granularity with
  | .basicBlock => blocks.map fun b => some b.lines
  | .line => (blocks.foldl chooseNext (∅, #[])).2

/-- The next free number and the numbers given so far, with that of one more block. -/
def numberNext {α : Type} (state : Nat × Array (Option Nat)) (choice : Option α) :
    Nat × Array (Option Nat) :=
  match choice with
  | some _ => (state.1 + 1, state.2.push (some state.1))
  | none => (state.1, state.2.push none)

/-- Numbers for the chosen blocks, from `first` on. -/
def number {α : Type} (first : Nat) (choices : Array (Option α)) : Array (Option Nat) :=
  (choices.foldl numberNext (first, #[])).2

/-- The probe in front of each instruction of a block with the given probe. -/
def spread (b : BasicBlock) (probe : Option Nat) : List (Option Nat) :=
  probe :: List.replicate (b.count - 1) none

end Probe

/-! ## Methods -/

/-- The probes of one method. -/
structure MethodPlan where
  /-- The position of the method in the class. -/
  method : Nat
  graph : FlowGraph
  /-- The probe in front of each block. -/
  blockProbes : Array (Option Nat)
  layout : Layout

namespace MethodPlan

/-- The number of probes in the method. -/
def probeCount (plan : MethodPlan) : Nat :=
  plan.blockProbes.countP Option.isSome

/-- The probe in front of the block with number `block`. -/
def probeOf? (blockProbes : Array (Option Nat)) (block : Nat) : Option Nat :=
  blockProbes[block]?.join

/-- The probe in front of each instruction. -/
def probesByInstruction (graph : FlowGraph) (blockProbes : Array (Option Nat)) :
    Array (Option Nat) :=
  ((graph.blocks.toList.zip blockProbes.toList).flatMap fun (b, probe) =>
    Probe.spread b probe).toArray

/-- The records of the probes in the method at position `method`. -/
def records (method : Nat) (graph : FlowGraph) (choices : Array (Option (List UInt16)))
    (blockProbes : Array (Option Nat)) : List ProbeRecord :=
  (graph.blocks.toList.zip (choices.toList.zip blockProbes.toList)).filterMap fun
    | (b, some lines, some probe) =>
      some { probe, method, block := b.id, terminator := b.terminator, lines }
    | _ => none

/-- The probes of the blocks that `b` chooses from. -/
def outcomes (blockProbes : Array (Option Nat)) (b : BasicBlock) : List Nat :=
  (b.successors.filter (·.kind != .exception)).filterMap fun e => probeOf? blockProbes e.target

/-- The branch at the end of `b`, if it chooses between two probes at least. -/
def branchSite (method : Nat) (code : Code) (blockProbes : Array (Option Nat)) (b : BasicBlock) :
    Option BranchSite :=
  let successors := outcomes blockProbes b
  if b.terminator.isBranch && 2 ≤ successors.length then
    some { method, offset := b.last.offset, line := code.lineAt? b.last.offset, successors }
  else none

/-- The branches of a method.  They are followed only when every block has a probe. -/
def branchSites (granularity : Granularity) (method : Nat) (code : Code) (graph : FlowGraph)
    (blockProbes : Array (Option Nat)) : List BranchSite :=
  match granularity with
  | .basicBlock => graph.blocks.toList.filterMap (branchSite method code blockProbes)
  | .line => []

end MethodPlan

/-- A method plan with its records. -/
structure PlannedMethod where
  plan : MethodPlan
  probes : List ProbeRecord
  branches : List BranchSite

namespace PlannedMethod

/-- The most operand stack slots of a method. -/
def maxOperands : Nat := 65535

/-- Fails when the code holds offsets that cannot be moved, or has no room on its stack. -/
def checkCode (pool : ConstantPool) (code : Code) (location : String) :
    Except InstrumentError Unit :=
  match code.opaqueNames pool with
  | name :: _ => .error (.unsupported location (.opaqueAttribute name))
  | [] =>
    let needed := code.maxStack.toNat + Probe.operands
    if maxOperands < needed then .error (.capacity .operandStack needed maxOperands)
    else .ok ()

/-- Plans the probes of a method, numbered from `first` on. -/
def ofCode (policy : Policy) (pool : ConstantPool) (location : String) (method first : Nat)
    (code : Code) : Except InstrumentError PlannedMethod := do
  checkCode pool code location
  let graph := FlowGraph.ofCode code
  let choices := Probe.choose policy.granularity graph.blocks
  let blockProbes := Probe.number first choices
  let probeAt := MethodPlan.probesByInstruction graph blockProbes
  let layout ← Layout.compute code (MethodPlan.probeOf? probeAt) location
  return {
    plan := { method, graph, blockProbes, layout }
    probes := MethodPlan.records method graph choices blockProbes
    branches := MethodPlan.branchSites policy.granularity method code graph blockProbes }

end PlannedMethod

/-! ## Classes -/

/-- What planning decided about a method. -/
structure MethodOutcome where
  record : MethodRecord
  planned : Option PlannedMethod

namespace MethodOutcome

/-- The records of the probes of the method. -/
def probes (outcome : MethodOutcome) : List ProbeRecord :=
  (outcome.planned.map PlannedMethod.probes).getD []

/-- The branches of the method. -/
def branches (outcome : MethodOutcome) : List BranchSite :=
  (outcome.planned.map PlannedMethod.branches).getD []

/-- Why a method gets no probes, or its body. -/
def eligible (policy : Policy) (pool : ConstantPool) (m : Method) : Except MethodStatus Code :=
  if Access.hasAny m.accessFlags (Access.isAbstract ||| Access.isNative) then .error .noCode
  else
    match m.code? with
    | none => .error .noCode
    | some code =>
      if Access.hasAny m.accessFlags (Access.isSynthetic ||| Access.isBridge) then
        .error .synthetic
      else if policy.excludes m.name then .error .excluded
      else
        match policy.skipAnnotation with
        | none => .ok code
        | some skip =>
          match m.annotationTypes pool with
          | .ok types => if types.contains skip then .error .skipAnnotated else .ok code
          | .error e => .error (.ofError (.decode e))

/-- Plans the method at position `index` of `c`, with probes numbered from `first` on. -/
def ofMethod (policy : Policy) (c : ClassFile) (index first : Nat) (m : Method) :
    MethodOutcome :=
  let planned : Except MethodStatus PlannedMethod := do
    let code ← eligible policy c.pool m
    (PlannedMethod.ofCode policy c.pool (c.location m) index first code).mapError .ofError
  match planned with
  | .ok planned => ⟨⟨m.name, m.descriptor, .instrumented⟩, some planned⟩
  | .error status => ⟨⟨m.name, m.descriptor, status⟩, none⟩

/-- The number of probes and the outcomes so far, with that of one more method. -/
def planNext (policy : Policy) (c : ClassFile) (state : Nat × Array MethodOutcome) (m : Method) :
    Nat × Array MethodOutcome :=
  let outcome := ofMethod policy c state.2.size state.1 m
  (state.1 + outcome.probes.length, state.2.push outcome)

/-- The outcomes for all methods of `c`. -/
def ofClass (policy : Policy) (c : ClassFile) : List MethodOutcome :=
  (c.methods.foldl (planNext policy c) (0, #[])).2.toList

end MethodOutcome

/-- The probes of a class. -/
structure ClassPlan where
  className : String
  sourceFile : Option String
  /-- The declared methods in order. -/
  methods : List MethodRecord
  planned : List MethodPlan
  probes : List ProbeRecord
  branches : List BranchSite
  bridge : Bridge

namespace ClassPlan

/-- The number of probes. -/
def probeCount (plan : ClassPlan) : Nat := plan.probes.length

/-- Whether there are no probes. -/
def isEmpty (plan : ClassPlan) : Bool := plan.probes.isEmpty

/-- The most pool slots that a class with `probes` probes may have afterwards.  One integer is
the number of the segment. -/
def neededSlots (c : ClassFile) (probes : Nat) : Nat :=
  c.pool.count + PoolBuilder.worstCase (1 + (probes - Probe.firstPooled))

/-- Plans the probes of a class.  Fails only when its pool has no room for what the probes
need. -/
def ofClass (policy : Policy) (c : ClassFile) : Except InstrumentError ClassPlan :=
  let outcomes := MethodOutcome.ofClass policy c
  let probes := outcomes.flatMap MethodOutcome.probes
  let needed := neededSlots c probes.length
  if !probes.isEmpty && ConstantPool.maxSlots < needed then
    .error (.capacity .poolSlots needed ConstantPool.maxSlots)
  else
    .ok {
      className := c.name
      sourceFile := c.sourceFile?
      methods := outcomes.map MethodOutcome.record
      planned := outcomes.filterMap fun outcome => outcome.planned.map PlannedMethod.plan
      probes
      branches := outcomes.flatMap MethodOutcome.branches
      bridge := policy.bridge }

/-- What the probes of the plan stand for. -/
def toRecord (plan : ClassPlan) (identity : ClassIdentity) : ClassRecord where
  identity
  sourceFile := plan.sourceFile
  methods := plan.methods
  probes := plan.probes
  branches := plan.branches

end ClassPlan

end JvmCoverage
