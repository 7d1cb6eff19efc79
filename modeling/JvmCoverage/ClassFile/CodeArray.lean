import JvmCoverage.Bytes.Reader
import JvmCoverage.ClassFile.Instruction
import JvmCoverage.Error.Instrument
import Std.Data.HashSet.Basic

/-!
# Code arrays

The instructions of a method as bytes.  `CodeArray.read` takes a code array apart into
instructions at absolute offsets and accepts it only if every jump target is the offset of an
instruction.  `CodeArray.write` puts instructions together again; it fails when an instruction
is not where its recorded offset says or when a distance does not fit its field.
-/

namespace JvmCoverage

namespace Operation

/-! ## Reading -/

/-- The offset `distance` away from `offset`, which has to lie inside the code. -/
def resolve (offset : Nat) (distance : Int) (codeLength : Nat) : Except DecodeError Nat :=
  let target := offset + distance
  if target < 0 ∨ codeLength ≤ target then .error (.invalidTarget offset target)
  else .ok target.toNat

open Reader

/-- Reads a distance of `width` bytes and resolves it. -/
def readTarget (width offset codeLength : Nat) : Reader Nat := do
  let distance ← signed width
  lift (resolve offset distance codeLength)

/-- Reads the cases of a `tableswitch`: the least and the greatest key and a target for each. -/
def readTable (offset codeLength : Nat) : Reader SwitchCases := do
  let low ← signed 4
  let high ← signed 4
  if high < low then
    throw (.malformed (.emptyTableRange offset))
  else
    let count := (high - low + 1).toNat
    demand (count * 4)
    let targets ← times count (readTarget 4 offset codeLength)
    return .table (Int32.ofInt low) targets

/-- Reads a key with its target. -/
def readPair (offset codeLength : Nat) : Reader (Int32 × Nat) := do
  let key ← signed 4
  let target ← readTarget 4 offset codeLength
  return (Int32.ofInt key, target)

/-- Reads the cases of a `lookupswitch`: their number and the pairs. -/
def readLookup (offset codeLength : Nat) : Reader SwitchCases := do
  let count ← signed 4
  if count < 0 then
    throw (.malformed (.negativePairCount offset count))
  else
    demand (count.toNat * 8)
    .lookup <$> times count.toNat (readPair offset codeLength)

/-- Reads the cases of a switch. -/
def readCases (opcode : Opcode) (offset codeLength : Nat) : Reader SwitchCases :=
  if opcode = Opcode.tableswitch then readTable offset codeLength
  else readLookup offset codeLength

/-- Reads the padding, the default and the cases of a switch. -/
def readSwitch (opcode : Opcode) (offset codeLength : Nat) : Reader Operation := do
  let _ ← take (switchPadding offset)
  let default ← readTarget 4 offset codeLength
  let cases ← readCases opcode offset codeLength
  return switch opcode default cases

/-- Reads the slot of a method to call. -/
def readPlainInvoke (opcode : Opcode) : Reader Operation := do
  let index ← field16
  return invoke opcode index 0

/-- Reads the slot of a method to call and two more bytes, of which only `invokeinterface` uses
one. -/
def readLongInvoke (opcode : Opcode) (offset : Nat) : Reader Operation := do
  let index ← field16
  let count ← field8
  let reserved ← field8
  if reserved ≠ 0 ∨ (opcode = Opcode.invokedynamic ∧ count ≠ 0) then
    throw (.malformed (.reservedBytes offset))
  else
    return invoke opcode index count

/-- Reads the slot of the return address of a subroutine. -/
def readRet : Reader Operation := do
  let index ← unsigned 1
  return subroutineReturn (UInt16.ofNat index) false

/-- Reads the operands of an opcode with `length` operand bytes. -/
def readFixed (opcode : Opcode) (length offset : Nat) : Reader Operation :=
  if opcode.isPlainInvoke then readPlainInvoke opcode
  else if opcode.isLongInvoke then readLongInvoke opcode offset
  else if opcode.isReturn then pure (methodReturn opcode)
  else if opcode = Opcode.athrow then pure raise
  else if opcode = Opcode.ret then readRet
  else plain opcode <$> take length

/-- Reads the opcode behind `wide` and its operands. -/
def readWide (offset : Nat) : Reader Operation := do
  let widened ← field8
  if widened = Opcode.ret then
    let index ← field16
    return subroutineReturn index true
  else if Opcode.isWidenable widened then
    let operands ← take (if widened = Opcode.iinc then 4 else 2)
    return plain Opcode.wide (widened :: operands)
  else
    throw (.unknownOpcode widened (offset + 1))

/-- Reads the operands of `opcode`, which stands at `offset`. -/
def readOperands (offset codeLength : Nat) (opcode : Opcode) : Reader Operation :=
  match opcode.layout? with
  | none => throw (.unknownOpcode opcode offset)
  | some (.fixed length) => readFixed opcode length offset
  | some .branch16 => branch opcode <$> readTarget 2 offset codeLength
  | some .branch32 => branch opcode <$> readTarget 4 offset codeLength
  | some .switch => readSwitch opcode offset codeLength
  | some .wide => readWide offset

/-- Reads the operation at `offset` in code of the given length. -/
def read (offset codeLength : Nat) : Reader Operation := do
  let opcode ← field8
  readOperands offset codeLength opcode

/-! ## Every operation takes at least a byte -/

theorem advances_readTarget (width offset codeLength : Nat) :
  Advances (readTarget width offset codeLength)
  := (advances_signed width).bind fun _ => advances_lift _

theorem advances_readTable (offset codeLength : Nat) :
  Advances (readTable offset codeLength)
  := by
  apply (advances_signed 4).bind
  intro low
  apply (advances_signed 4).bind
  intro high
  split
  · apply advances_throw
  · apply (advances_demand _).bind
    intro _
    apply (advances_times (advances_readTarget 4 offset codeLength) _).bind
    intro targets
    apply advances_pure

theorem advances_readPair (offset codeLength : Nat) :
  Advances (readPair offset codeLength)
  := (advances_signed 4).bind fun _ =>
    (advances_readTarget 4 offset codeLength).bind fun _ => advances_pure _

theorem advances_readLookup (offset codeLength : Nat) :
  Advances (readLookup offset codeLength)
  := by
  apply (advances_signed 4).bind
  intro count
  split
  · apply advances_throw
  · apply (advances_demand _).bind
    intro _
    exact (advances_times (advances_readPair offset codeLength) _).map _

theorem advances_readCases (opcode : Opcode) (offset codeLength : Nat) :
  Advances (readCases opcode offset codeLength)
  := by
  unfold readCases
  split
  · apply advances_readTable
  · apply advances_readLookup

theorem advances_readSwitch (opcode : Opcode) (offset codeLength : Nat) :
  Advances (readSwitch opcode offset codeLength)
  := by
  apply (advances_take _).bind
  intro _
  apply (advances_readTarget 4 offset codeLength).bind
  intro default
  exact (advances_readCases opcode offset codeLength).bind fun _ => advances_pure _

theorem advances_readLongInvoke (opcode : Opcode) (offset : Nat) :
  Advances (readLongInvoke opcode offset)
  := by
  apply advances_field16.bind
  intro index
  apply advances_field8.bind
  intro count
  apply advances_field8.bind
  intro reserved
  split
  · apply advances_throw
  · apply advances_pure

theorem advances_readFixed (opcode : Opcode) (length offset : Nat) :
  Advances (readFixed opcode length offset)
  := by
  unfold readFixed
  split
  · exact advances_field16.bind fun _ => advances_pure _
  split
  · apply advances_readLongInvoke
  split
  · apply advances_pure
  split
  · apply advances_pure
  split
  · exact (advances_unsigned 1).bind fun _ => advances_pure _
  · exact (advances_take length).map _

theorem advances_readWide (offset : Nat) :
  Advances (readWide offset)
  := by
  apply advances_field8.bind
  intro widened
  split
  · exact advances_field16.bind fun _ => advances_pure _
  split
  · exact (advances_take _).bind fun _ => advances_pure _
  · apply advances_throw

theorem advances_readOperands (offset codeLength : Nat) (opcode : Opcode) :
  Advances (readOperands offset codeLength opcode)
  := by
  unfold readOperands
  split
  · apply advances_throw
  · apply advances_readFixed
  · exact (advances_readTarget 2 offset codeLength).map _
  · exact (advances_readTarget 4 offset codeLength).map _
  · apply advances_readSwitch
  · apply advances_readWide

/-- An operation takes at least its opcode. -/
theorem read_lt {offset codeLength : Nat} {c c' : Cursor} {op : Operation}
    (h : read offset codeLength c = .ok (op, c')) :
  c'.rest.length < c.rest.length
  := field8_bind_lt (advances_readOperands offset codeLength) h

end Operation

namespace CodeArray

/-- The most bytes a code array has. -/
def maxLength : Nat := 65535

/-- The instructions from the cursor on, behind the instructions `done`, latest first. -/
def instructionsAfter (codeLength : Nat) (done : List Instruction) (c : Cursor) :
    Except DecodeError (List Instruction) :=
  if c.rest.isEmpty then .ok done.reverse
  else
    match _h : Operation.read c.position codeLength c with
    | .error e => .error e
    | .ok (op, c') => instructionsAfter codeLength (⟨c.position, op⟩ :: done) c'
termination_by c.rest.length
decreasing_by exact Operation.read_lt _h

/-- The first jump target of `insn` that is not among `starts`. -/
def strayTarget? (starts : Std.HashSet Nat) (insn : Instruction) : Option Nat :=
  insn.op.targets.find? fun target => !starts.contains target

/-- Fails unless every jump target of `insn` is among `starts`. -/
def checkTargets (starts : Std.HashSet Nat) (insn : Instruction) : Except DecodeError Unit :=
  match strayTarget? starts insn with
  | some target => .error (.invalidTarget insn.offset target)
  | none => .ok ()

/-- The instructions of a code array. -/
def read (code : List UInt8) : Except DecodeError (List Instruction) := do
  let codeLength := code.length
  if codeLength = 0 ∨ maxLength < codeLength then
    throw (.invalidCodeLength codeLength)
  let instructions ← instructionsAfter codeLength [] ⟨0, code⟩
  let starts := Std.HashSet.ofList (instructions.map Instruction.offset)
  instructions.forM (checkTargets starts)
  return instructions

end CodeArray

/-! ## Writing -/

namespace Operation

/-- The distance from `offset` to `target` in two bytes. -/
def shortDistance (opcode : Opcode) (offset target : Nat) : Except EncodeFault (List UInt8) :=
  let distance : Int := target - offset
  if -0x8000 ≤ distance ∧ distance < 0x8000 then .ok (Bytes.signed 2 distance)
  else .error (.shortBranch opcode offset target)

/-- The distance from `offset` to `target` in four bytes. -/
def longDistance (offset target : Nat) : Except EncodeFault (List UInt8) :=
  let distance : Int := target - offset
  if -0x80000000 ≤ distance ∧ distance < 0x80000000 then .ok (Bytes.signed 4 distance)
  else .error (.farBranch offset target)

/-- The fields of the cases of a switch at `offset`.  The greatest key of a table is the least
key plus the number of targets less one, modulo `2 ^ 32`. -/
def casesBytes (offset : Nat) : SwitchCases → Except EncodeFault (List UInt8)
  | .table low targets => do
    let distances ← targets.mapM (longDistance offset)
    return Bytes.signed 4 low.toInt ++ Bytes.signed 4 (low.toInt + targets.length - 1)
      ++ distances.flatten
  | .lookup pairs => do
    let entries ← pairs.mapM fun (key, target) =>
      (Bytes.signed 4 key.toInt ++ ·) <$> longDistance offset target
    return Bytes.count32 pairs.length ++ entries.flatten

/-- The byte form of the operation at `offset`. -/
def toBytes (offset : Nat) : Operation → Except EncodeFault (List UInt8)
  | plain opcode operands => .ok (opcode :: operands)
  | invoke opcode index count =>
    .ok (opcode :: (Bytes.field16 index ++ if opcode.isLongInvoke then [count, 0] else []))
  | branch opcode target =>
    (opcode :: ·) <$>
      if opcode.isWideBranch then longDistance offset target
      else shortDistance opcode offset target
  | switch opcode default cases => do
    let default ← longDistance offset default
    let cases ← casesBytes offset cases
    return opcode :: (List.replicate (switchPadding offset) 0 ++ default ++ cases)
  | methodReturn opcode => .ok [opcode]
  | raise => .ok [Opcode.athrow]
  | subroutineReturn index true => .ok (Opcode.wide :: Opcode.ret :: Bytes.field16 index)
  | subroutineReturn index false =>
    if index < 256 then .ok [Opcode.ret, index.toUInt8] else .error (.narrowReturn index offset)

end Operation

namespace CodeArray

/-- The byte form of one more instruction behind the code `written`. -/
def writeNext (written : Array UInt8) (insn : Instruction) :
    Except InstrumentError (Array UInt8) := do
  if written.size ≠ insn.offset then
    throw (.encode (.misplaced insn.offset written.size))
  match insn.op.toBytes insn.offset with
  | .ok bytes => return written ++ bytes
  | .error fault => throw (.encode fault)

/-- The code array of `instructions`; fails when an instruction is not where its offset says,
when a distance does not fit, and when the code is empty or too long. -/
def write (instructions : List Instruction) : Except InstrumentError (List UInt8) := do
  let code ← instructions.foldlM writeNext #[]
  if code.size = 0 ∨ maxLength < code.size then
    throw (.capacity .codeLength code.size maxLength)
  return code.toList

end CodeArray

end JvmCoverage
