import JvmCoverage.ClassFile.Format
import JvmCoverage.Machine.Checked

/-!
# Reading classes on a machine

The readers of the class file format over an array of bytes and a position in it.  They refuse
what the readers of the format refuse, and they fault where a sum, a difference, a product or a
place is not one of the machine.  Offsets of code have 32 bits, distances 64 bits with a sign,
lengths and positions 64 bits.
-/

namespace JvmCoverage.Machine

/-- An array of bytes with a position in it. -/
structure ByteReader where
  bytes : List UInt8
  position : Nat

/-- A computation that moves on in an array of bytes. -/
abbrev Decoder (α : Type) := StateT ByteReader (Except (Stop DecodeError)) α

/-! ## Bytes -/

/-- The number of bytes from the position on. -/
def remaining : Decoder Nat := do
  let r ← get
  sub r.bytes.length r.position

/-- Fails like `take n` when fewer than `n` bytes remain, and stays where it is. -/
def demand (n : Nat) : Decoder Unit := do
  let left ← remaining
  if left < n then throw (.error (.unexpectedEnd (← get).position n))

/-- Takes `n` bytes. -/
def take (n : Nat) : Decoder (List UInt8) := do
  let left ← remaining
  let r ← get
  if left < n then throw (.error (.unexpectedEnd r.position n))
  else
    let limit ← add 64 r.position n
    let taken ← slice r.bytes r.position limit
    let position ← add 64 r.position n
    set { r with position }
    return taken

/-- Takes an unsigned number of `width` bytes. -/
def unsigned (width : Nat) : Decoder Nat := do
  let taken ← take width
  let digits ← fill width taken
  return Bytes.ofBigEndian digits

/-- Takes a two's complement number of `width` bytes. -/
def integer (width : Nat) : Decoder Int := do
  let taken ← take width
  let digits ← fill width taken
  return Bytes.ofSigned digits

/-- Takes a one-byte field. -/
def field8 : Decoder UInt8 :=
  UInt8.ofNat <$> unsigned 1

/-- Takes a two-byte field. -/
def field16 : Decoder UInt16 :=
  UInt16.ofNat <$> unsigned 2

/-- Takes a four-byte field. -/
def field32 : Decoder UInt32 :=
  UInt32.ofNat <$> unsigned 4

/-- Takes an eight-byte field. -/
def field64 : Decoder UInt64 :=
  UInt64.ofNat <$> unsigned 8

/-- Fails unless nothing remains. -/
def finish : Decoder Unit := do
  let left ← remaining
  if left = 0 then return () else throw (.error (.trailingBytes left))

/-- Runs `d` `n` times and collects the results in order. -/
def times {α : Type} : (n : Nat) → Decoder α → Decoder (List α)
  | 0, _ => return []
  | n + 1, d => do
    let a ← d
    let as ← times n d
    return a :: as

/-- Reads a two-byte count and then runs `d` that many times. -/
def counted {α : Type} (d : Decoder α) : Decoder (List α) := do
  let n ← unsigned 2
  times n d

/-- Passes on the outcome of a check that reads nothing and does not fault. -/
def lift {α : Type} (outcome : Except DecodeError α) : Decoder α :=
  StateT.lift (faultless outcome)

/-- Reads `bytes` from the beginning and fails when some remain afterwards. -/
def runAll {α : Type} (d : Decoder α) (bytes : List UInt8) : Checked DecodeError α :=
  (do let a ← d; finish; return a : Decoder α).run' ⟨bytes, 0⟩

/-! ## Constants -/

/-- Reads the entry for slot `index`. -/
def readConstant (index : UInt16) : Decoder Constant := do
  let tag ← field8
  match tag with
  | 1 => do
    let length ← unsigned 2
    .utf8 <$> take length
  | 3 => (fun z => .integer (Int32.ofInt z)) <$> integer 4
  | 4 => .float <$> field32
  | 5 => (fun z => .long (Int64.ofInt z)) <$> integer 8
  | 6 => .double <$> field64
  | 7 => .classRef <$> field16
  | 8 => .stringRef <$> field16
  | 9 => .fieldRef <$> field16 <*> field16
  | 10 => .methodRef <$> field16 <*> field16
  | 11 => .interfaceMethodRef <$> field16 <*> field16
  | 12 => .nameAndType <$> field16 <*> field16
  | 15 => .methodHandle <$> field8 <*> field16
  | 16 => .methodType <$> field16
  | 17 => .dynamic <$> field16 <*> field16
  | 18 => .invokeDynamic <$> field16 <*> field16
  | 19 => .moduleRef <$> field16
  | 20 => .packageRef <$> field16
  | tag => throw (.error (.unknownConstantTag tag index))

/-- Reads the entries from slot `index` up to slot `count` behind `entries`, in as many rounds as
there are slots. -/
def readEntries (count : UInt16) :
    (rounds : Nat) → (index : UInt16) → (entries : Array Constant) → Decoder (Array Constant)
  | 0, index, entries => if index < count then fault .endless else return entries
  | rounds + 1, index, entries => do
    if index < count then
      let c ← readConstant index
      let next ← add16 index 1
      if c.isWide then
        if count ≤ next then
          throw (.error (.badConstant (← sub16 next 1) .roomForTwoSlots))
        else
          let last ← add16 next 1
          readEntries count rounds last ((entries.push c).push .unusable)
      else readEntries count rounds next (entries.push c)
    else return entries

/-- Reads a pool: a count, the entries, and a check of the references between them. -/
def readPool : Decoder ConstantPool := do
  let count ← field16
  let entries ← readEntries count count.toNat 1 #[.unusable]
  let pool : ConstantPool := ⟨entries⟩
  lift pool.validate
  return pool

/-! ## Instructions -/

section

variable {m : Type → Type} [Monad m] [Faulting m]

/-- The number of bytes between a switch opcode at `offset` and its tables. -/
def switchPadding (offset : Nat) : m Nat := do
  let next ← add 32 offset 1
  let gap ← sub 4 (next % 4)
  return gap % 4

end

/-- The offset `distance` away from `offset`, which has to lie inside the code. -/
def resolve (offset : Nat) (distance : Int) (codeLength : Nat) : Decoder Nat := do
  let target ← signed 64 (offset + distance)
  if target < 0 ∨ codeLength ≤ target then throw (.error (.invalidTarget offset target))
  else return target.toNat

/-- Reads a distance of `width` bytes and resolves it. -/
def readTarget (width offset codeLength : Nat) : Decoder Nat := do
  let distance ← integer width
  resolve offset distance codeLength

/-- Reads the cases of a `tableswitch`. -/
def readTable (offset codeLength : Nat) : Decoder SwitchCases := do
  let low ← integer 4
  let high ← integer 4
  if high < low then throw (.error (.malformed (.emptyTableRange offset)))
  else
    let range ← signed 64 (high - low)
    let count ← signed 64 (range + 1)
    let size ← mul 64 count.toNat 4
    demand size
    let targets ← times count.toNat (readTarget 4 offset codeLength)
    return .table (Int32.ofInt low) targets

/-- Reads a key with its target. -/
def readPair (offset codeLength : Nat) : Decoder (Int32 × Nat) := do
  let key ← integer 4
  let target ← readTarget 4 offset codeLength
  return (Int32.ofInt key, target)

/-- Reads the cases of a `lookupswitch`. -/
def readLookup (offset codeLength : Nat) : Decoder SwitchCases := do
  let count ← integer 4
  if count < 0 then throw (.error (.malformed (.negativePairCount offset count)))
  else
    let size ← mul 64 count.toNat 8
    demand size
    .lookup <$> times count.toNat (readPair offset codeLength)

/-- Reads the cases of a switch. -/
def readCases (opcode : Opcode) (offset codeLength : Nat) : Decoder SwitchCases :=
  if opcode = Opcode.tableswitch then readTable offset codeLength
  else readLookup offset codeLength

/-- Reads the padding, the default and the cases of a switch. -/
def readSwitch (opcode : Opcode) (offset codeLength : Nat) : Decoder Operation := do
  let padding ← switchPadding offset
  let _ ← take padding
  let default ← readTarget 4 offset codeLength
  let cases ← readCases opcode offset codeLength
  return .switch opcode default cases

/-- Reads the slot of a method to call and two more bytes. -/
def readLongInvoke (opcode : Opcode) (offset : Nat) : Decoder Operation := do
  let index ← field16
  let count ← field8
  let reserved ← field8
  if reserved ≠ 0 ∨ (opcode = Opcode.invokedynamic ∧ count ≠ 0) then
    throw (.error (.malformed (.reservedBytes offset)))
  else
    return .invoke opcode index count

/-- Reads the operands of an opcode with `length` operand bytes. -/
def readFixed (opcode : Opcode) (length offset : Nat) : Decoder Operation :=
  if opcode.isPlainInvoke then do
    let index ← field16
    return .invoke opcode index 0
  else if opcode.isLongInvoke then readLongInvoke opcode offset
  else if opcode.isReturn then return .methodReturn opcode
  else if opcode = Opcode.athrow then return .raise
  else if opcode = Opcode.ret then do
    let index ← unsigned 1
    return .subroutineReturn (UInt16.ofNat index) false
  else .plain opcode <$> take length

/-- Reads the opcode behind `wide` and its operands. -/
def readWide (offset : Nat) : Decoder Operation := do
  let widened ← field8
  if widened = Opcode.ret then
    let index ← field16
    return .subroutineReturn index true
  else if Opcode.isWidenable widened then
    let operands ← take (if widened = Opcode.iinc then 4 else 2)
    return .plain Opcode.wide (widened :: operands)
  else
    let behind ← add 32 offset 1
    throw (.error (.unknownOpcode widened behind))

/-- Reads the operands of `opcode`, which stands at `offset`. -/
def readOperands (offset codeLength : Nat) (opcode : Opcode) : Decoder Operation :=
  match opcode.layout? with
  | none => throw (.error (.unknownOpcode opcode offset))
  | some (.fixed length) => readFixed opcode length offset
  | some .branch16 => .branch opcode <$> readTarget 2 offset codeLength
  | some .branch32 => .branch opcode <$> readTarget 4 offset codeLength
  | some .switch => readSwitch opcode offset codeLength
  | some .wide => readWide offset

/-- Reads the operation at `offset` in code of the given length. -/
def readOperation (offset codeLength : Nat) : Decoder Operation := do
  let opcode ← field8
  readOperands offset codeLength opcode

/-- Reads instructions to the end, in at most `rounds` rounds, behind the instructions `done`, latest
first. -/
def readInstructionsFrom (codeLength : Nat) :
    (rounds : Nat) → (done : List Instruction) → Decoder (List Instruction)
  | 0, done => do
    let left ← remaining
    if 0 < left then fault .endless else return done.reverse
  | rounds + 1, done => do
    let left ← remaining
    if 0 < left then
      let offset := (← get).position
      let op ← readOperation offset codeLength
      readInstructionsFrom codeLength rounds (⟨offset, op⟩ :: done)
    else return done.reverse

/-- The instructions of a code array. -/
def readCodeArray (code : List UInt8) : Checked DecodeError (List Instruction) := do
  let codeLength := code.length
  if codeLength = 0 ∨ CodeArray.maxLength < codeLength then
    throw (.error (.invalidCodeLength codeLength))
  let instructions ← (readInstructionsFrom codeLength codeLength []).run' ⟨code, 0⟩
  let starts := Std.HashSet.ofList (instructions.map Instruction.offset)
  faultless (instructions.forM (CodeArray.checkTargets starts))
  return instructions

/-! ## Stack map frames -/

/-- Reads a type. -/
def readType : Decoder VerificationType := do
  let tag ← field8
  match tag with
  | 0 => return .top
  | 1 => return .integer
  | 2 => return .float
  | 3 => return .double
  | 4 => return .long
  | 5 => return .null
  | 6 => return .uninitializedThis
  | 7 => .object <$> field16
  | 8 => .uninitialized <$> field16
  | tag => throw (.error (.malformed (.unknownVerificationType tag)))

/-- Reads a frame and gives its distance with its shape. -/
def readFrame : Decoder (Nat × FrameShape) := do
  let type ← field8
  if type ≤ 63 then
    return (type.toNat, .same)
  else if type ≤ 127 then
    let distance ← sub8 type 64
    let operand ← readType
    return (distance.toNat, .oneOperand operand)
  else if type ≤ 246 then
    throw (.error (.malformed (.reservedFrameType type)))
  else
    let distance ← unsigned 2
    if type = 247 then
      let operand ← readType
      return (distance, .oneOperand operand)
    else if type ≤ 250 then
      let count ← sub8 251 type
      return (distance, .chop count)
    else if type = 251 then
      return (distance, .same)
    else if type ≤ 254 then
      let count ← sub8 type 251
      let locals ← times count.toNat readType
      return (distance, .append locals)
    else
      let locals ← counted readType
      let stack ← counted readType
      return (distance, .full locals stack)

/-- The offset that lies `distance` behind the frame at `previous`. -/
def offsetAfter (previous : Option Nat) (distance : Nat) : Decoder Nat :=
  match previous with
  | none => return distance
  | some offset => do
    let next ← add 32 offset distance
    add 32 next 1

/-- Reads `n` frames behind the frame at `previous`. -/
def readFrames : (n : Nat) → (previous : Option Nat) → Decoder (List Frame)
  | 0, _ => return []
  | n + 1, previous => do
    let (distance, shape) ← readFrame
    let offset ← offsetAfter previous distance
    let frames ← readFrames n (some offset)
    return ⟨offset, shape⟩ :: frames

/-- Reads the content of a stack map table. -/
def readFrameTable (payload : List UInt8) : Checked DecodeError (List Frame) :=
  runAll (do let n ← unsigned 2; readFrames n none) payload

/-! ## Method bodies -/

open Code (Boundaries)

/-- Reads a line entry, which has to start at an instruction. -/
def readLine (b : Boundaries) : Decoder LineEntry := do
  let start ← unsigned 2
  let line ← field16
  if b.isStart start then return ⟨start, line⟩
  else throw (.error (.malformed (.lineOffBoundary start)))

/-- Reads a local variable, whose range has to start and end between instructions. -/
def readVariable (types : Bool) (b : Boundaries) : Decoder LocalVariable := do
  let start ← unsigned 2
  let length ← unsigned 2
  let nameIndex ← field16
  let descriptorIndex ← field16
  let slot ← field16
  let limit ← add 32 start length
  if b.isStart start && b.isLimit limit then
    return ⟨start, length, nameIndex, descriptorIndex, slot⟩
  else
    throw (.error (.malformed (.variableOffBoundary types start limit)))

/-- Reads an exception handler, whose range must not be empty. -/
def readHandler (b : Boundaries) : Decoder ExceptionHandler := do
  let start ← unsigned 2
  let limit ← unsigned 2
  let handler ← unsigned 2
  let catchType ← field16
  if start < limit && b.isStart start && b.isLimit limit && b.isStart handler then
    return ⟨start, limit, handler, catchType⟩
  else
    throw (.error (.malformed (.handlerOffBoundary start limit handler)))

/-- The attribute of the given name with the content `info`. -/
def readContent (b : Boundaries) (name : List UInt8) (nameIndex : UInt16) (info : List UInt8) :
    Checked DecodeError CodeAttribute :=
  if name = Code.lineNumberTable then
    .lineNumbers nameIndex <$> runAll (counted (readLine b)) info
  else if name = Code.localVariableTable then
    .localVariables nameIndex false <$> runAll (counted (readVariable false b)) info
  else if name = Code.localVariableTypeTable then
    .localVariables nameIndex true <$> runAll (counted (readVariable true b)) info
  else if name = Code.stackMapTable then do
    let frames ← readFrameTable info
    match frames.find? fun frame => !b.isStart frame.offset with
    | some frame => throw (.error (.malformed (.frameOffBoundary frame.offset)))
    | none => return .stackMap nameIndex frames
  else
    return .other ⟨nameIndex, info⟩

/-- Reads an attribute of a method body. -/
def readCodeAttribute (pool : ConstantPool) (b : Boundaries) : Decoder CodeAttribute := do
  let nameIndex ← field16
  let length ← unsigned 4
  let info ← take length
  let name ← lift (pool.utf8Bytes nameIndex)
  StateT.lift (readContent b name nameIndex info)

/-- Reads the code array behind its length. -/
def readInstructions : Decoder (Nat × List Instruction) := do
  let length ← unsigned 4
  if length = 0 ∨ CodeArray.maxLength < length then
    throw (.error (.invalidCodeLength length))
  else
    let code ← take length
    let instructions ← StateT.lift (readCodeArray code)
    return (length, instructions)

/-- Reads a method body. -/
def readBody (pool : ConstantPool) : Decoder Code := do
  let maxStack ← field16
  let maxLocals ← field16
  let (length, instructions) ← readInstructions
  let b : Boundaries := ⟨.ofList (instructions.map Instruction.offset), length⟩
  let handlers ← counted (readHandler b)
  let attributes ← counted (readCodeAttribute pool b)
  return { maxStack, maxLocals, instructions, handlers, attributes }

/-- The method body with the content `info`. -/
def readCode (pool : ConstantPool) (info : List UInt8) : Checked DecodeError Code :=
  runAll (readBody pool) info

/-! ## Annotations -/

/-- Walks past the element values that end with the next `n` bytes. -/
def skip (n : Nat) : Decoder Unit := do
  let _ ← take n

/-- Reads the type of an annotation and walks past its values with `value`. -/
def typeIndex (value : Decoder Unit) : Decoder UInt16 := do
  let type ← field16
  let pairs ← unsigned 2
  let _ ← times pairs do
    skip 2
    value
  return type

/-- Walks past one element value at `depth`, with at most `rounds` levels below. -/
def skipValue : (rounds depth : Nat) → Decoder Unit
  | 0, _ => fault .endless
  | rounds + 1, depth => do
    if 64 < depth then throw (.error (.malformed .elementsTooDeep))
    else
      let tag ← field8
      match Char.ofNat tag.toNat with
      | 'B' | 'C' | 'D' | 'F' | 'I' | 'J' | 'S' | 'Z' | 's' | 'c' => skip 2
      | 'e' => skip 4
      | '@' => do
        let deeper ← add 64 depth 1
        let _ ← typeIndex (skipValue rounds deeper)
      | '[' => do
        let deeper ← add 64 depth 1
        let _ ← counted (skipValue rounds deeper)
      | _ => throw (.error (.malformed (.unknownElementTag tag)))

/-- The pool slots of the types of the annotations in an attribute. -/
def typeIndices (payload : List UInt8) : Checked DecodeError (List UInt16) :=
  runAll (counted (typeIndex (skipValue 66 0))) payload

/-! ## Classes -/

/-- Reads an attribute whose content is kept as bytes. -/
def readRawAttribute (pool : ConstantPool) : Decoder RawAttribute := do
  let nameIndex ← field16
  let _ ← lift (pool.utf8Bytes nameIndex)
  let length ← unsigned 4
  let info ← take length
  return ⟨nameIndex, info⟩

/-- Reads a field. -/
def readField (pool : ConstantPool) : Decoder Field := do
  let accessFlags ← field16
  let nameIndex ← field16
  let descriptorIndex ← field16
  let attributes ← counted (readRawAttribute pool)
  return { accessFlags, nameIndex, descriptorIndex, attributes }

/-- Reads an attribute of a method. -/
def readMethodAttribute (pool : ConstantPool) : Decoder MethodAttribute := do
  let nameIndex ← field16
  let length ← unsigned 4
  let info ← take length
  let name ← lift (pool.utf8Bytes nameIndex)
  if name = Text.Utf8.encode "Code" then
    .code nameIndex <$> StateT.lift (readCode pool info)
  else
    return .other ⟨nameIndex, info⟩

/-- Reads a method. -/
def readMethod (pool : ConstantPool) : Decoder Method := do
  let accessFlags ← field16
  let nameIndex ← field16
  let descriptorIndex ← field16
  let attributes ← counted (readMethodAttribute pool)
  let name ← lift (pool.utf8 nameIndex)
  let descriptor ← lift (pool.utf8 descriptorIndex)
  return { accessFlags, nameIndex, descriptorIndex, name, descriptor, attributes }

/-- Reads the magic number. -/
def readMagic : Decoder Unit := do
  let found ← field32
  if found = ClassFile.magic then return () else throw (.error (.badMagic found))

/-- Reads a class. -/
def readClassFile : Decoder ClassFile := do
  readMagic
  let minorVersion ← field16
  let majorVersion ← field16
  let pool ← readPool
  let accessFlags ← field16
  let thisClass ← field16
  let superClass ← field16
  let name ← lift (pool.className thisClass)
  lift (ClassFile.checkSuperClass pool superClass)
  let interfaces ← counted field16
  let fields ← counted (readField pool)
  let methods ← counted (readMethod pool)
  let attributes ← counted (readRawAttribute pool)
  return {
    minorVersion, majorVersion, pool, accessFlags, thisClass, superClass, interfaces, fields,
    methods, attributes, name := name }

/-- The class that `bytes` hold. -/
def read (bytes : List UInt8) : Checked DecodeError ClassFile :=
  runAll readClassFile bytes

end JvmCoverage.Machine
