import JvmCoverage.ClassFile.Builder
import JvmCoverage.Probe.Plan

/-!
# Putting probes into a class

`ClassPlan.apply` puts the probes of a plan into a class.  Every instruction moves to its place
in the layout, jumps lead to the probe of the instruction they led to, and every table with code
offsets follows.
-/

namespace JvmCoverage

namespace Operation

/-- A jump in its form with a four-byte distance. -/
def widen : Operation → Operation
  | branch opcode target =>
    branch (if opcode == Opcode.jsr then Opcode.jsrWide else Opcode.gotoWide) target
  | op => op

end Operation

namespace Layout

/-! ## Offsets beside the instructions -/

/-- An offset in a table, which has to be that of an instruction. -/
def moved (role : OffsetRole) (old : Nat) (new : Option Nat) : Except EncodeFault Nat :=
  match new with
  | some offset => .ok offset
  | none => .error (.offBoundary role old)

/-- The handler for the moved code. -/
def moveHandler (layout : Layout) (h : ExceptionHandler) : Except EncodeFault ExceptionHandler := do
  let start ← moved .handlerStart h.start (layout.label? h.start)
  let limit ← moved .handlerLimit h.limit (layout.limit? h.limit)
  let handler ← moved .handlerEntry h.handler (layout.label? h.handler)
  return { h with start, limit, handler }

/-- The line entry for the moved code. -/
def moveLine (layout : Layout) (entry : LineEntry) : Except EncodeFault LineEntry := do
  let start ← moved .lineStart entry.start (layout.label? entry.start)
  return { entry with start }

/-- The local variable for the moved code. -/
def moveVariable (layout : Layout) (v : LocalVariable) : Except EncodeFault LocalVariable := do
  let start ← moved .variableStart v.start (layout.label? v.start)
  let limit ← moved .variableExtent (v.start + v.length) (layout.limit? (v.start + v.length))
  return { v with start, length := limit - start }

/-- The type for the moved code.  An object without its constructor run is known by the
instruction that makes it, not by the probe in front of that instruction. -/
def moveType (layout : Layout) : VerificationType → Except EncodeFault VerificationType
  | .uninitialized offset => do
    let position ← moved .newObject offset.toNat (layout.position? offset.toNat)
    if 65535 < position then throw (.wideOffset .newObject position)
    return .uninitialized (UInt16.ofNat position)
  | type => .ok type

/-- The frame for the moved code. -/
def moveFrame (layout : Layout) (frame : Frame) : Except EncodeFault Frame := do
  let offset ← moved .frame frame.offset (layout.label? frame.offset)
  let shape ← frame.shape.mapTypes layout.moveType
  return { offset, shape }

/-- The attribute for the moved code. -/
def moveAttribute (layout : Layout) : CodeAttribute → Except EncodeFault CodeAttribute
  | .lineNumbers nameIndex entries => .lineNumbers nameIndex <$> entries.mapM layout.moveLine
  | .localVariables nameIndex types entries =>
    .localVariables nameIndex types <$> entries.mapM layout.moveVariable
  | .stackMap nameIndex frames => .stackMap nameIndex <$> frames.mapM layout.moveFrame
  | .other _ => .error .opaqueAttribute

/-- The handlers and attributes of `code` for the moved code. -/
def moveTables (layout : Layout) (code : Code) :
    Except EncodeFault (List ExceptionHandler × List CodeAttribute) := do
  let handlers ← code.handlers.mapM layout.moveHandler
  let attributes ← code.attributes.mapM layout.moveAttribute
  return (handlers, attributes)

/-! ## Instructions -/

/-- The operation with its targets moved; the last target without a place is refused. -/
def moveOperation (layout : Layout) (op : Operation) : Except EncodeFault Operation :=
  match (op.targets.filter fun target => (layout.label? target).isNone).getLast? with
  | some target => .error (.unmappedTarget target)
  | none => .ok (op.mapTargets fun target => (layout.label? target).getD target)

/-- The operation `op` at the place of `site`, where control enters at `label`, behind its
probe. -/
def moveInstruction (layout : Layout) (context : Probe.Context) (op : Operation) (site : Site)
    (label : Nat) : PoolBuilder (List Instruction) := do
  let probe ← match site.probe with
    | some probe => Probe.instructions context label probe
    | none => pure []
  match layout.moveOperation op with
  | .ok op => return probe ++ [⟨site.position label, if site.widened then op.widen else op⟩]
  | .error fault => throw (.encode fault)

/-- The instructions at their places, behind their probes. -/
def moveInstructions (layout : Layout) (context : Probe.Context)
    (instructions : List Instruction) : PoolBuilder (List Instruction) := do
  let places := layout.sites.toList.zip layout.labels.toList
  let pieces ← (instructions.zip places).mapM fun (insn, site, label) =>
    layout.moveInstruction context insn.op site label
  return pieces.flatten

/-- The method body with its probes. -/
def moveCode (layout : Layout) (context : Probe.Context) (code : Code) : PoolBuilder Code := do
  let instructions ← layout.moveInstructions context code.instructions
  match layout.moveTables code with
  | .ok (handlers, attributes) =>
    return {
      maxStack := code.maxStack + UInt16.ofNat Probe.operands
      maxLocals := code.maxLocals
      instructions, handlers, attributes }
  | .error fault => throw (.encode fault)

end Layout

/-! ## Classes -/

namespace ClassPlan

/-- Puts the probes of one method into the methods of the class called `className`. -/
def applyMethod (className : String) (context : Probe.Context) (methods : Array Method)
    (plan : MethodPlan) : PoolBuilder (Array Method) := do
  if plan.probeCount = 0 then return methods
  match methods[plan.method]? with
  | none => throw (.encode (.missingMethod plan.method))
  | some m =>
    match m.code? with
    | none => throw (.encode (.missingCode (className ++ "." ++ m.signature)))
    | some code =>
      let code ← plan.layout.moveCode context code
      return methods.setIfInBounds plan.method (m.mapCode fun _ => code)

/-- The pool entries that all probes share. -/
def addContext (bridge : Bridge) (segment : UInt32) : PoolBuilder Probe.Context := do
  let bridge ← PoolBuilder.methodRef bridge.owner bridge.name bridge.descriptor
  let segment ← PoolBuilder.integer segment.toInt32
  return { segment, bridge }

/-- Puts the probes of the plan into `methods`. -/
def applyMethods (plan : ClassPlan) (segment : UInt32) (methods : Array Method) :
    PoolBuilder (Array Method) := do
  let context ← addContext plan.bridge segment
  plan.planned.foldlM (applyMethod plan.className context) methods

/-- The class with the probes of the plan, which count in the segment numbered `segment`. -/
def apply (plan : ClassPlan) (segment : UInt32) (c : ClassFile) :
    Except InstrumentError ClassFile :=
  if plan.isEmpty then .ok c
  else do
    let (methods, pool) ← ClassBuilder.addTo c.pool (plan.applyMethods segment c.methods.toArray)
    return { c with pool, methods := methods.toList }

end ClassPlan

end JvmCoverage
