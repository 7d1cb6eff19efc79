import JvmCoverage.Machine.Reading

/-!
# Writing classes on a machine

A class is written behind what is written already.  The length of an attribute is known only when
its content is written, so that four bytes are left for it, which are filled afterwards.
-/

namespace JvmCoverage.Machine

section

variable {m : Type → Type} [Monad m] [Faulting m]

/-! ## Attributes -/

/-- Fills the four bytes at `place` with the number of bytes behind them. -/
def patchLength (out : List UInt8) (place : Nat) : m (List UInt8) := do
  let written ← sub out.length place
  let length ← sub written 4
  let limit ← add 64 place 4
  let field ← slice out place limit
  let digits ← fill field.length (Bytes.count32 (cast 32 length))
  return out.take place ++ digits ++ out.drop limit

/-- Writes an attribute with the content `info`. -/
def putAttribute (nameIndex : UInt16) (info out : List UInt8) : m (List UInt8) :=
  let out := out ++ Bytes.field16 nameIndex
  patchLength (out ++ Bytes.count32 0 ++ info) out.length

/-- Writes a two-byte count and the attributes. -/
def putRawAttributes (attributes : List RawAttribute) (out : List UInt8) : m (List UInt8) :=
  attributes.foldlM (fun out attr => putAttribute attr.nameIndex attr.info out)
    (out ++ Bytes.count16 attributes.length)

end

/-! ## Code arrays -/

/-- The distance from `offset` to `target` in two bytes. -/
def shortDistance (opcode : Opcode) (offset target : Nat) : Checked EncodeFault (List UInt8) := do
  let distance ← signed 64 ((target : Int) - offset)
  if -0x8000 ≤ distance ∧ distance < 0x8000 then return Bytes.signed 2 distance
  else throw (.error (.shortBranch opcode offset target))

/-- The distance from `offset` to `target` in four bytes. -/
def longDistance (offset target : Nat) : Checked EncodeFault (List UInt8) := do
  let distance ← signed 64 ((target : Int) - offset)
  if -0x80000000 ≤ distance ∧ distance < 0x80000000 then return Bytes.signed 4 distance
  else throw (.error (.farBranch offset target))

/-- The fields of the cases of a switch at `offset`. -/
def casesBytes (offset : Nat) : SwitchCases → Checked EncodeFault (List UInt8)
  | .table low targets => do
    let last ← signed 32 ((Int32.ofNat targets.length).toInt - 1)
    -- the greatest key wraps around
    let high := low + Int32.ofInt last
    let distances ← targets.mapM (longDistance offset)
    return Bytes.signed 4 low.toInt ++ Bytes.signed 4 high.toInt ++ distances.flatten
  | .lookup pairs => do
    let entries ← pairs.mapM fun p => (Bytes.signed 4 p.1.toInt ++ ·) <$> longDistance offset p.2
    return Bytes.count32 pairs.length ++ entries.flatten

/-- The byte form of the operation at `offset`. -/
def operationBytes (offset : Nat) : Operation → Checked EncodeFault (List UInt8)
  | .branch opcode target =>
    (opcode :: ·) <$>
      if opcode.isWideBranch then longDistance offset target
      else shortDistance opcode offset target
  | .switch opcode default cases => do
    let padding ← switchPadding offset
    let default ← longDistance offset default
    let cases ← casesBytes offset cases
    return opcode :: (List.replicate padding 0 ++ default ++ cases)
  | op => faultless (op.toBytes offset)

/-- Writes one more instruction of a code array that starts at `base`. -/
def putInstruction (base : Nat) (out : List UInt8) (insn : Instruction) :
    Checked InstrumentError (List UInt8) := do
  let written ← sub out.length base
  if cast 32 written ≠ insn.offset then
    throw (.error (.encode (.misplaced insn.offset (cast 32 written))))
  else
    let bytes ← mapError .encode (operationBytes insn.offset insn.op)
    return out ++ bytes

/-- Writes a code array. -/
def putInstructions (instructions : List Instruction) (out : List UInt8) :
    Checked InstrumentError (List UInt8) := do
  let base := out.length
  let out ← instructions.foldlM (putInstruction base) out
  let length ← sub out.length base
  if length = 0 ∨ CodeArray.maxLength < length then
    throw (.error (.capacity .codeLength length CodeArray.maxLength))
  else return out

/-! ## Stack map frames -/

/-- The distance of a frame at `offset` from the frame at `previous`. -/
def frameDistance (previous : Option Nat) (offset : Nat) : Checked EncodeFault Nat :=
  match previous with
  | none => return offset
  | some before =>
    if before < offset then do
      let gap ← sub offset before
      sub gap 1
    else throw (.error (.frameOrder offset before))

/-- The byte form of a frame at the given distance. -/
def shapeBytes (distance : Nat) : FrameShape → Checked EncodeFault (List UInt8)
  | .oneOperand type =>
    if distance ≤ 63 then do
      let tag ← add8 64 (UInt8.ofNat distance)
      return tag :: type.toBytes
    else return 247 :: (Bytes.count16 distance ++ type.toBytes)
  | .chop count => do
    let tag ← sub8 251 count
    return tag :: Bytes.count16 distance
  | .append locals => do
    let tag ← add8 251 (UInt8.ofNat locals.length)
    return tag :: (Bytes.count16 distance ++ FrameShape.typeBytes locals)
  | shape => return shape.toBytes distance

/-- Writes one more frame behind the frame at `previous`. -/
def putFrame (state : Option Nat × List UInt8) (frame : Frame) :
    Checked EncodeFault (Option Nat × List UInt8) := do
  let distance ← frameDistance state.1 frame.offset
  if 65535 < distance then throw (.error (.wideOffset .frame distance))
  else
    let bytes ← shapeBytes distance frame.shape
    return (some frame.offset, state.2 ++ bytes)

/-- The content of a stack map table. -/
def frameTable (frames : List Frame) : Checked EncodeFault (List UInt8) := do
  let state ← frames.foldlM putFrame (none, Bytes.count16 frames.length)
  return state.2

/-! ## Method bodies -/

/-- The name and the content of an attribute of a method body. -/
def attributeContent : CodeAttribute → Checked EncodeFault (UInt16 × List UInt8)
  | .lineNumbers nameIndex entries =>
    Prod.mk nameIndex <$> faultless (Code.countedBytes Code.lineBytes entries)
  | .localVariables nameIndex _ entries =>
    Prod.mk nameIndex <$> faultless (Code.countedBytes Code.variableBytes entries)
  | .stackMap nameIndex frames => Prod.mk nameIndex <$> frameTable frames
  | .other raw => return (raw.nameIndex, raw.info)

/-- Writes an attribute of a method body. -/
def putCodeAttribute (out : List UInt8) (attr : CodeAttribute) :
    Checked EncodeFault (List UInt8) := do
  let content ← attributeContent attr
  putAttribute content.1 content.2 out

/-- Writes what follows the code array. -/
def putTables (code : Code) (out : List UInt8) : Checked EncodeFault (List UInt8) := do
  let handlers ← faultless (Code.countedBytes Code.handlerBytes code.handlers)
  code.attributes.foldlM putCodeAttribute
    (out ++ handlers ++ Bytes.count16 code.attributes.length)

/-- The content of a method body. -/
def encodeCode (code : Code) : Checked InstrumentError (List UInt8) := do
  let out := Bytes.field16 code.maxStack ++ Bytes.field16 code.maxLocals
  let place := out.length
  let out ← putInstructions code.instructions (out ++ Bytes.count32 0)
  let out ← patchLength out place
  mapError .encode (putTables code out)

/-! ## Classes -/

/-- The error with the method at `location` named, if it is a fault of a body. -/
def inMethod (location : String) : InstrumentError → InstrumentError
  | .encode fault => .encode (.inMethod location fault)
  | e => e

/-- Writes an attribute of a method; faults in the code name the method at `location`. -/
def putMethodAttribute (location : String) (out : List UInt8) :
    MethodAttribute → Checked InstrumentError (List UInt8)
  | .code nameIndex body => do
    let info ← mapError (inMethod location) (encodeCode body)
    putAttribute nameIndex info out
  | .other raw => putAttribute raw.nameIndex raw.info out

/-- Writes a method. -/
def putMethod (c : ClassFile) (out : List UInt8) (m : Method) :
    Checked InstrumentError (List UInt8) :=
  m.attributes.foldlM (putMethodAttribute (c.location m))
    (out ++ (Bytes.field16 m.accessFlags ++ Bytes.field16 m.nameIndex
      ++ Bytes.field16 m.descriptorIndex ++ Bytes.count16 m.attributes.length))

/-- Writes a field. -/
def putField (out : List UInt8) (f : Field) : Checked InstrumentError (List UInt8) :=
  putRawAttributes f.attributes
    (out ++ (Bytes.field16 f.accessFlags ++ Bytes.field16 f.nameIndex
      ++ Bytes.field16 f.descriptorIndex))

/-- The byte form of a class. -/
def encode (c : ClassFile) : Checked InstrumentError (List UInt8) := do
  let out := c.headerBytes ++ Bytes.count16 c.fields.length
  let out ← c.fields.foldlM putField out
  let out ← c.methods.foldlM (putMethod c) (out ++ Bytes.count16 c.methods.length)
  putRawAttributes c.attributes out

/-- Fails unless written bytes are a class. -/
def selfCheck (bytes : List UInt8) : Checked InstrumentError Unit := do
  let _ ← mapError (fun e => .encode (.unreadable e)) (read bytes)
  return ()

end JvmCoverage.Machine
