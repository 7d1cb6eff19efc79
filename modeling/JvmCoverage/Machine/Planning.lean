import JvmCoverage.Machine.Layout
import JvmCoverage.Probe.Plan

/-!
# Planning probes on a machine

The probes of a method are numbered in one walk over its blocks, which writes each number in the
place of the block and in that of the first instruction of the block.  Branches look the numbers
up in the places of the blocks they lead to.
-/

namespace JvmCoverage.Machine

/-! ## Methods -/

/-- The probes of one method. -/
structure MethodPlan where
  /-- The position of the method in the class. -/
  method : Nat
  blocks : List Block
  /-- The probe in front of each block. -/
  blockProbes : List (Option Nat)
  /-- The probe in front of each instruction. -/
  probeBefore : List (Option Nat)
  layout : Layout

/-- The number of probes in the method. -/
def MethodPlan.probeCount (plan : MethodPlan) : Nat :=
  plan.blockProbes.countP Option.isSome

/-- A method plan with its records. -/
structure PlannedMethod where
  plan : MethodPlan
  probes : List ProbeRecord
  branches : List BranchSite

section

variable {m : Type → Type} [Monad m] [Faulting m]

/-- The next free number and what the numbers given so far stand for. -/
structure Numbering where
  next : Nat
  blockProbes : List (Option Nat)
  probeBefore : List (Option Nat)
  records : List ProbeRecord

/-- The numbering with a number for the block, if it was chosen. -/
def numberNext (method : Nat) (numbering : Numbering) (b : Block)
    (choice : Option (List UInt16)) : m Numbering :=
  match choice with
  | some lines => do
    let probe := numbering.next
    let next ← add 32 numbering.next 1
    let blockProbes ← update numbering.blockProbes b.id (some probe)
    let probeBefore ← update numbering.probeBefore b.first (some probe)
    let record : ProbeRecord := { probe, method, block := b.id, terminator := b.terminator, lines }
    return { next, blockProbes, probeBefore, records := numbering.records ++ [record] }
  | none => return numbering

/-- The numbers of the chosen blocks, from `first` on. -/
def number (method first instructions : Nat) (blocks : List Block)
    (choices : List (Option (List UInt16))) : m Numbering :=
  (blocks.zip choices).foldlM (fun numbering p => numberNext method numbering p.1 p.2) {
    next := first
    blockProbes := .replicate blocks.length none
    probeBefore := .replicate instructions none
    records := [] }

/-- The probes of the blocks that `b` chooses from. -/
def outcomes (blockProbes : List (Option Nat)) (b : Block) : m (List Nat) := do
  let probes ← (b.successors.filter (·.kind != .exception)).mapM fun e => item blockProbes e.target
  return probes.reduceOption

/-- The branch at the end of `b`, if it chooses between two probes at least. -/
def branchSite (method : Nat) (code : Code) (blockProbes : List (Option Nat)) (b : Block) :
    m (Option BranchSite) := do
  if b.terminator.isBranch then
    let successors ← outcomes blockProbes b
    if successors.length < 2 then return none
    else
      let last := code.instructions[b.limitPlace - 1]?
      let offset := (last.map Instruction.offset).getD b.start
      return some { method, offset, line := code.lineAt? offset, successors }
  else return none

/-- The branches of a method. -/
def branchSites (granularity : Granularity) (method : Nat) (code : Code)
    (blockProbes : List (Option Nat)) (blocks : List Block) : m (List BranchSite) :=
  match granularity with
  | .basicBlock => List.reduceOption <$> blocks.mapM (branchSite method code blockProbes)
  | .line => return []

end

/-- Fails when the code holds offsets that cannot be moved, or has no room on its stack. -/
def checkCode (pool : ConstantPool) (code : Code) (location : String) :
    Checked InstrumentError Unit :=
  match code.opaqueNames pool with
  | name :: _ => throw (.error (.unsupported location (.opaqueAttribute name)))
  | [] => do
    let needed ← add 32 code.maxStack.toNat Probe.operands
    if JvmCoverage.PlannedMethod.maxOperands < needed then
      let needed ← add 64 code.maxStack.toNat Probe.operands
      throw (.error (.capacity .operandStack needed JvmCoverage.PlannedMethod.maxOperands))
    else return ()

/-- Plans the probes of a method, numbered from `first` on. -/
def planCode (policy : Policy) (pool : ConstantPool) (location : String) (method first : Nat)
    (code : Code) : Checked InstrumentError PlannedMethod := do
  checkCode pool code location
  let blocks ← graph code
  let choices := Probe.choose policy.granularity (blocks.map Block.toBasicBlock).toArray
  let numbering ← number method first code.instructions.length blocks choices.toList
  let layout ← compute code (numbering.probeBefore.map Option.isSome) location
  let branches ← branchSites policy.granularity method code numbering.blockProbes blocks
  return {
    plan := {
      method, blocks, blockProbes := numbering.blockProbes, probeBefore := numbering.probeBefore,
      layout }
    probes := numbering.records
    branches }

/-! ## Annotations -/

/-- The annotation types listed in one attribute of a method. -/
def annotationTypesIn (pool : ConstantPool) : MethodAttribute → Checked DecodeError (List String)
  | .code _ _ => return []
  | .other raw => do
    let name ← faultless (pool.utf8Bytes raw.nameIndex)
    if name = Method.visibleAnnotations ∨ name = Method.invisibleAnnotations then
      let indices ← typeIndices raw.info
      indices.mapM fun index => faultless (pool.utf8 index)
    else
      return []

/-- The types of the annotations on a method. -/
def annotationTypes (pool : ConstantPool) (m : Method) : Checked DecodeError (List String) := do
  let types ← m.attributes.mapM (annotationTypesIn pool)
  return types.flatten

/-! ## Classes -/

/-- Why a method gets no probes, or its body. -/
def eligible (policy : Policy) (pool : ConstantPool) (m : Method) : Checked MethodStatus Code :=
  if Access.hasAny m.accessFlags (Access.isAbstract ||| Access.isNative) then throw (.error .noCode)
  else
    match m.code? with
    | none => throw (.error .noCode)
    | some code =>
      if Access.hasAny m.accessFlags (Access.isSynthetic ||| Access.isBridge) then
        throw (.error .synthetic)
      else if policy.excludes m.name then throw (.error .excluded)
      else
        match policy.skipAnnotation with
        | none => return code
        | some skip => do
          let types ← mapError (fun e => MethodStatus.ofError (.decode e)) (annotationTypes pool m)
          if types.contains skip then throw (.error .skipAnnotated) else return code

/-- Plans a method, or tells why it gets no probes. -/
def planMethod (policy : Policy) (c : ClassFile) (index first : Nat) (m : Method) :
    Checked MethodStatus PlannedMethod := do
  let code ← eligible policy c.pool m
  mapError .ofError (planCode policy c.pool (c.location m) index first code)

/-- What planning decided about the methods so far. -/
structure Planning where
  methods : List MethodRecord := []
  planned : List MethodPlan := []
  probes : List ProbeRecord := []
  branches : List BranchSite := []

/-- The decisions so far with those about the method at position `index`. -/
def planNext (policy : Policy) (c : ClassFile) (planning : Planning) (m : Method) (index : Nat) :
    Checked InstrumentError Planning := do
  match ← attempt (planMethod policy c index (cast 32 planning.probes.length) m) with
  | .ok done =>
    return {
      methods := planning.methods ++ [⟨m.name, m.descriptor, .instrumented⟩]
      planned := planning.planned ++ [done.plan]
      probes := planning.probes ++ done.probes
      branches := planning.branches ++ done.branches }
  | .error status =>
    return { planning with methods := planning.methods ++ [⟨m.name, m.descriptor, status⟩] }

/-- The probes of a class. -/
structure ClassPlan extends Planning where
  className : String
  sourceFile : Option String
  bridge : Bridge

/-- The most pool slots that a class with `probes` probes may have afterwards. -/
def neededSlots (c : ClassFile) (probes : Nat) : Checked InstrumentError Nat := do
  let integers ← add 64 1 (probes - Probe.firstPooled)
  let slots ← add 64 6 integers
  add 64 c.pool.count slots

/-- Plans the probes of a class. -/
def planClass (policy : Policy) (c : ClassFile) : Checked InstrumentError ClassPlan := do
  let planning ← c.methods.zipIdx.foldlM (fun planning p => planNext policy c planning p.1 p.2) {}
  let needed ← neededSlots c planning.probes.length
  if !planning.probes.isEmpty && ConstantPool.maxSlots < needed then
    throw (.error (.capacity .poolSlots needed ConstantPool.maxSlots))
  else
    return { planning with className := c.name, sourceFile := c.sourceFile?, bridge := policy.bridge }

end JvmCoverage.Machine
