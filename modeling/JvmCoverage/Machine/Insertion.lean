import JvmCoverage.Machine.Planning
import JvmCoverage.Probe.Insertion

/-!
# Putting probes into a class on a machine

The instructions of a body are gone through with their places, at which the arrays of the plan tell
the probe in front of each, where it comes to stand, and whether it is widened.  Additions to the
pool of a class count its slots.
-/

namespace JvmCoverage.Machine

/-- Additions to a pool that may fault.  The pool is kept when an addition fails. -/
abbrev Editor (α : Type) := ExceptT (Stop InstrumentError) (StateM ConstantPool) α

namespace Editor

/-- Passes on the outcome of a computation that leaves the pool alone. -/
def lift {α : Type} (x : Checked EncodeFault α) : Editor α :=
  ExceptT.mk (pure (mapError .encode x))

/-! ## Adding entries -/

/-- Adds `c` behind the last slot. -/
def push (c : Constant) : Editor UInt16 := do
  let pool ← get
  let slots ← add 64 pool.count c.slots
  if ConstantPool.maxSlots < slots then
    let needed ← add 64 pool.count c.slots
    throw (.error (.capacity .poolSlots needed ConstantPool.maxSlots))
  else
    set (if c.isWide then ConstantPool.mk ((pool.entries.push c).push .unusable)
      else ⟨pool.entries.push c⟩)
    return UInt16.ofNat pool.count

/-- The slot of an entry equal to `c`, added if there is none. -/
def intern (c : Constant) : Editor UInt16 := do
  let pool ← get
  match pool.entries.findIdx? (· == c) with
  | some index => return UInt16.ofNat index
  | none => push c

/-- The slot of a text. -/
def utf8 (text : String) : Editor UInt16 :=
  intern (.utf8 (Text.Utf8.encode text))

/-- The slot of an integer. -/
def integer (value : Int32) : Editor UInt16 :=
  intern (.integer value)

/-- The slot of a class. -/
def classRef (name : String) : Editor UInt16 := do
  let name ← utf8 name
  intern (.classRef name)

/-- The slot of a name with a descriptor. -/
def nameAndType (name descriptor : String) : Editor UInt16 := do
  let name ← utf8 name
  let descriptor ← utf8 descriptor
  intern (.nameAndType name descriptor)

/-- The slot of a method. -/
def methodRef (owner name descriptor : String) : Editor UInt16 := do
  let owner ← classRef owner
  let member ← nameAndType name descriptor
  intern (.methodRef owner member)

/-! ## Probes -/

/-- Pushes the number of a counter. -/
def pushCounter (probe : Nat) : Editor Operation :=
  if probe < Probe.firstPooled then return .plain Opcode.sipush (Bytes.count16 probe)
  else Probe.pushInteger <$> integer (Int32.ofNat probe)

end Editor

section

variable {m : Type → Type} [Monad m] [Faulting m]

/-- The instructions of `ops` when the first of them stands at `offset`. -/
def runFrom : (offset : Nat) → (ops : List Operation) → m (List Instruction)
  | _, [] => return []
  | offset, op :: ops => do
    let length ← size offset op
    let next ← add 32 offset length
    let insns ← runFrom next ops
    return ⟨offset, op⟩ :: insns

end

/-- The instructions of a probe at `offset`. -/
def probeAt (context : Probe.Context) (offset probe : Nat) : Editor (List Instruction) := do
  let counter ← Editor.pushCounter probe
  runFrom offset
    [Probe.pushInteger context.segment, counter, .invoke Opcode.invokestatic context.bridge 0]

/-! ## Instructions -/

section

variable {m : Type → Type} [Monad m] [Faulting m]

/-- The cases with `f` applied to every target, in order. -/
def mapCases (f : Nat → m Nat) : SwitchCases → m SwitchCases
  | .table low targets => .table low <$> targets.mapM f
  | .lookup pairs => .lookup <$> pairs.mapM fun p => Prod.mk p.1 <$> f p.2

/-- The operation with `f` applied to every jump target, in order. -/
def mapTargets (f : Nat → m Nat) : Operation → m Operation
  | .branch opcode target => .branch opcode <$> f target
  | .switch opcode default cases => .switch opcode <$> f default <*> mapCases f cases
  | op => return op

end

namespace Layout

/-- The offset that takes the place of `target`, noting a target that has none. -/
def moveTarget (layout : Layout) (target : Nat) : StateT (Option Nat) (Checked EncodeFault) Nat := do
  match ← layout.label? target with
  | some label => return label
  | none =>
    set (some target)
    return target

/-- The operation with its targets moved; the last target without a place is refused. -/
def moveOperation (layout : Layout) (op : Operation) : Checked EncodeFault Operation := do
  let moved ← (mapTargets layout.moveTarget op).run none
  match moved.2 with
  | some target => throw (.error (.unmappedTarget target))
  | none => return moved.1

/-- The probe in front of the instruction with index `i`. -/
def moveProbe (layout : Layout) (context : Probe.Context) (probeBefore : List (Option Nat))
    (i : Nat) : Editor (List Instruction) := do
  match ← item probeBefore i with
  | some probe => do
    let label ← item layout.labels i
    probeAt context label probe
  | none => return []

/-- The instruction with index `i`, behind its probe. -/
def moveInstruction (layout : Layout) (context : Probe.Context) (probeBefore : List (Option Nat))
    (insn : Instruction) (i : Nat) : Editor (List Instruction) := do
  let probe ← layout.moveProbe context probeBefore i
  let op ← Editor.lift (layout.moveOperation insn.op)
  let widened ← item layout.widened i
  let position ← item layout.positions i
  return probe ++ [⟨position, if widened then op.widen else op⟩]

/-- The instructions at their places, behind their probes. -/
def moveInstructions (layout : Layout) (context : Probe.Context) (probeBefore : List (Option Nat))
    (instructions : List Instruction) : Editor (List Instruction) := do
  let pieces ← instructions.zipIdx.mapM fun p =>
    layout.moveInstruction context probeBefore p.1 p.2
  return pieces.flatten

/-! ## Offsets beside the instructions -/

/-- An offset in a table, which has to be that of an instruction. -/
def moved (role : OffsetRole) (old : Nat) (new : Checked EncodeFault (Option Nat)) :
    Checked EncodeFault Nat := do
  let new ← new
  faultless (JvmCoverage.Layout.moved role old new)

/-- The handler for the moved code. -/
def moveHandler (layout : Layout) (h : ExceptionHandler) : Checked EncodeFault ExceptionHandler := do
  let start ← moved .handlerStart h.start (layout.label? h.start)
  let limit ← moved .handlerLimit h.limit (layout.limit? h.limit)
  let handler ← moved .handlerEntry h.handler (layout.label? h.handler)
  return { h with start, limit, handler }

/-- The line entry for the moved code. -/
def moveLine (layout : Layout) (entry : LineEntry) : Checked EncodeFault LineEntry := do
  let start ← moved .lineStart entry.start (layout.label? entry.start)
  return { entry with start }

/-- The local variable for the moved code. -/
def moveVariable (layout : Layout) (v : LocalVariable) : Checked EncodeFault LocalVariable := do
  let old ← add 32 v.start v.length
  let start ← moved .variableStart v.start (layout.label? v.start)
  let limit ← moved .variableExtent old (layout.limit? old)
  let length ← sub limit start
  return { v with start, length }

/-- The type for the moved code. -/
def moveType (layout : Layout) : VerificationType → Checked EncodeFault VerificationType
  | .uninitialized offset => do
    let position ← moved .newObject offset.toNat (layout.position? offset.toNat)
    if 65535 < position then throw (.error (.wideOffset .newObject position))
    else return .uninitialized (UInt16.ofNat position)
  | type => return type

/-- The frame for the moved code. -/
def moveFrame (layout : Layout) (frame : Frame) : Checked EncodeFault Frame := do
  let offset ← moved .frame frame.offset (layout.label? frame.offset)
  let shape ← frame.shape.mapTypes layout.moveType
  return { offset, shape }

/-- The attribute for the moved code. -/
def moveAttribute (layout : Layout) : CodeAttribute → Checked EncodeFault CodeAttribute
  | .lineNumbers nameIndex entries => .lineNumbers nameIndex <$> entries.mapM layout.moveLine
  | .localVariables nameIndex types entries =>
    .localVariables nameIndex types <$> entries.mapM layout.moveVariable
  | .stackMap nameIndex frames => .stackMap nameIndex <$> frames.mapM layout.moveFrame
  | .other _ => throw (.error .opaqueAttribute)

/-- The handlers and attributes of `code` for the moved code. -/
def moveTables (layout : Layout) (code : Code) :
    Checked EncodeFault (List ExceptionHandler × List CodeAttribute) := do
  let handlers ← code.handlers.mapM layout.moveHandler
  let attributes ← code.attributes.mapM layout.moveAttribute
  return (handlers, attributes)

end Layout

/-! ## Methods and classes -/

namespace MethodPlan

/-- The number of instructions to make room for. -/
def capacity (plan : MethodPlan) (code : Code) : Editor Nat := do
  let probes ← mul 64 3 plan.probeCount
  add 64 code.instructions.length probes

/-- The method body with its probes. -/
def moveCode (plan : MethodPlan) (context : Probe.Context) (code : Code) : Editor Code := do
  let _ ← plan.capacity code
  let instructions ← plan.layout.moveInstructions context plan.probeBefore code.instructions
  let (handlers, attributes) ← Editor.lift (plan.layout.moveTables code)
  let maxStack ← add16 code.maxStack (UInt16.ofNat Probe.operands)
  return { maxStack, maxLocals := code.maxLocals, instructions, handlers, attributes }

end MethodPlan

namespace ClassPlan

/-- Puts the probes of one method into the methods of the class called `className`. -/
def applyMethod (className : String) (context : Probe.Context) (methods : Array Method)
    (plan : MethodPlan) : Editor (Array Method) :=
  if plan.probeCount = 0 then return methods
  else
    match methods[plan.method]? with
    | none => throw (.error (.encode (.missingMethod plan.method)))
    | some m =>
      match m.code? with
      | none => throw (.error (.encode (.missingCode (className ++ "." ++ m.signature))))
      | some code => do
        let code ← plan.moveCode context code
        return methods.setIfInBounds plan.method (m.mapCode fun _ => code)

/-- The pool entries that all probes share. -/
def addContext (bridge : Bridge) (segment : UInt32) : Editor Probe.Context := do
  let bridge ← Editor.methodRef bridge.owner bridge.name bridge.descriptor
  let segment ← Editor.integer segment.toInt32
  return { segment, bridge }

/-- Puts the probes of the plan into `methods`. -/
def applyMethods (plan : ClassPlan) (segment : UInt32) (methods : Array Method) :
    Editor (Array Method) := do
  let context ← addContext plan.bridge segment
  plan.planned.foldlM (applyMethod plan.className context) methods

/-- The class with the probes of the plan, which count in the segment numbered `segment`. -/
def apply (plan : ClassPlan) (segment : UInt32) (c : ClassFile) :
    Checked InstrumentError ClassFile :=
  if plan.probes.isEmpty then return c
  else
    match (plan.applyMethods segment c.methods.toArray).run.run c.pool with
    | (.ok methods, pool) => return { c with pool, methods := methods.toList }
    | (.error stop, _) => throw stop

end ClassPlan

end JvmCoverage.Machine
