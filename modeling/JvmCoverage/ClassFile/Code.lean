import JvmCoverage.ClassFile.CodeArray
import JvmCoverage.ClassFile.ConstantPool
import JvmCoverage.ClassFile.Frame
import JvmCoverage.Search

/-!
# Method bodies

A `Code` is the body of a method: its instructions, the ranges protected by exception handlers,
and attributes that hold code offsets.  `Code.read` accepts a body only if every offset in it is
the offset of an instruction, or for the ends of ranges the length of the code.
-/

namespace JvmCoverage

/-- The code from `start` up to `limit` is protected by the handler at `handler`. -/
structure ExceptionHandler where
  start : Nat
  limit : Nat
  handler : Nat
  /-- The pool slot of the class caught, or 0 for every exception. -/
  catchType : UInt16
  deriving DecidableEq

namespace ExceptionHandler

/-- Whether `offset` is protected. -/
def covers (h : ExceptionHandler) (offset : Nat) : Bool :=
  h.start ≤ offset && offset < h.limit

end ExceptionHandler

/-- The source line from a code offset on. -/
structure LineEntry where
  start : Nat
  line : UInt16
  deriving DecidableEq

/-- A local variable with the range of code in which it has a value. -/
structure LocalVariable where
  start : Nat
  length : Nat
  nameIndex : UInt16
  /-- The pool slot of the descriptor or of the signature. -/
  descriptorIndex : UInt16
  slot : UInt16
  deriving DecidableEq

/-- An attribute kept as its bytes. -/
structure RawAttribute where
  nameIndex : UInt16
  info : List UInt8
  deriving DecidableEq

namespace RawAttribute

/-- The name of an attribute, or `#` and the slot when the slot holds no text. -/
def name (pool : ConstantPool) (attr : RawAttribute) : String :=
  match pool.utf8 attr.nameIndex with
  | .ok text => text
  | .error _ => s!"#{attr.nameIndex}"

end RawAttribute

/-- An attribute of a method body. -/
inductive CodeAttribute where
  | lineNumbers (nameIndex : UInt16) (entries : List LineEntry)
  /-- `types` tells a table of signatures from a table of descriptors. -/
  | localVariables (nameIndex : UInt16) (types : Bool) (entries : List LocalVariable)
  | stackMap (nameIndex : UInt16) (frames : List Frame)
  | other (raw : RawAttribute)
  deriving DecidableEq

namespace CodeAttribute

/-- The line entries of the attribute. -/
def lineEntries : CodeAttribute → List LineEntry
  | lineNumbers _ entries => entries
  | _ => []

end CodeAttribute

/-- The body of a method. -/
structure Code where
  maxStack : UInt16
  maxLocals : UInt16
  instructions : List Instruction
  handlers : List ExceptionHandler
  attributes : List CodeAttribute
  deriving DecidableEq

namespace Code

/-- The offset behind the last instruction. -/
def length (code : Code) : Nat :=
  (code.instructions.getLast?.map Instruction.limit).getD 0

/-- The position among the instructions of the one at `offset`. -/
def indexOf? (code : Code) (offset : Nat) : Option Nat :=
  Search.find? Instruction.offset code.instructions.toArray offset

/-- The entries of all line tables, in order. -/
def lineEntries (code : Code) : List LineEntry :=
  code.attributes.flatMap CodeAttribute.lineEntries

/-- The later of two line entries; of two with the same start, `next`. -/
def laterLine (best : Option LineEntry) (next : LineEntry) : Option LineEntry :=
  match best with
  | none => some next
  | some entry => if entry.start ≤ next.start then some next else some entry

/-- The source line at `offset`: that of the entry with the greatest start up to `offset`, and
of several such entries the last. -/
def lineAt? (code : Code) (offset : Nat) : Option UInt16 :=
  ((code.lineEntries.filter (·.start ≤ offset)).foldl laterLine none).map LineEntry.line

/-- The names of the attributes kept as bytes. -/
def opaqueNames (code : Code) (pool : ConstantPool) : List String :=
  code.attributes.filterMap fun
    | .other raw => some (raw.name pool)
    | _ => none

/-! ## Reading -/

/-- The offsets at which instructions start, and the length of the code. -/
structure Boundaries where
  starts : Std.HashSet Nat
  length : Nat

namespace Boundaries

/-- Whether an instruction starts at `offset`. -/
def isStart (b : Boundaries) (offset : Nat) : Bool :=
  b.starts.contains offset

/-- Whether a range of code may end at `offset`. -/
def isLimit (b : Boundaries) (offset : Nat) : Bool :=
  offset == b.length || b.isStart offset

end Boundaries

open Reader

/-- Reads a line entry, which has to start at an instruction. -/
def readLine (b : Boundaries) : Reader LineEntry := do
  let start ← unsigned 2
  let line ← field16
  if b.isStart start then
    return ⟨start, line⟩
  else
    throw (.malformed (.lineOffBoundary start))

/-- Reads a local variable, whose range has to start and end between instructions. -/
def readVariable (types : Bool) (b : Boundaries) : Reader LocalVariable := do
  let start ← unsigned 2
  let length ← unsigned 2
  let nameIndex ← field16
  let descriptorIndex ← field16
  let slot ← field16
  if b.isStart start && b.isLimit (start + length) then
    return ⟨start, length, nameIndex, descriptorIndex, slot⟩
  else
    throw (.malformed (.variableOffBoundary types start (start + length)))

/-- Reads an exception handler, whose range must not be empty. -/
def readHandler (b : Boundaries) : Reader ExceptionHandler := do
  let start ← unsigned 2
  let limit ← unsigned 2
  let handler ← unsigned 2
  let catchType ← field16
  if start < limit && b.isStart start && b.isLimit limit && b.isStart handler then
    return ⟨start, limit, handler, catchType⟩
  else
    throw (.malformed (.handlerOffBoundary start limit handler))

/-- The names of the attributes with code offsets. -/
def lineNumberTable : List UInt8 := Text.Utf8.encode "LineNumberTable"
def localVariableTable : List UInt8 := Text.Utf8.encode "LocalVariableTable"
def localVariableTypeTable : List UInt8 := Text.Utf8.encode "LocalVariableTypeTable"
def stackMapTable : List UInt8 := Text.Utf8.encode "StackMapTable"

/-- The attribute of the given name with the content `info`. -/
def readContent (b : Boundaries) (name : List UInt8) (nameIndex : UInt16) (info : List UInt8) :
    Except DecodeError CodeAttribute :=
  if name = lineNumberTable then
    (runAll (counted (readLine b)) info).map (.lineNumbers nameIndex)
  else if name = localVariableTable then
    (runAll (counted (readVariable false b)) info).map (.localVariables nameIndex false)
  else if name = localVariableTypeTable then
    (runAll (counted (readVariable true b)) info).map (.localVariables nameIndex true)
  else if name = stackMapTable then do
    let frames ← Frame.readTable info
    match frames.find? fun frame => !b.isStart frame.offset with
    | some frame => throw (.malformed (.frameOffBoundary frame.offset))
    | none => return .stackMap nameIndex frames
  else
    .ok (.other ⟨nameIndex, info⟩)

/-- Reads an attribute of a method body. -/
def readAttribute (pool : ConstantPool) (b : Boundaries) : Reader CodeAttribute := do
  let nameIndex ← field16
  let length ← unsigned 4
  let info ← take length
  let name ← lift (pool.utf8Bytes nameIndex)
  lift (readContent b name nameIndex info)

/-- Reads the code array behind its length. -/
def readInstructions : Reader (Nat × List Instruction) := do
  let length ← unsigned 4
  if length = 0 ∨ CodeArray.maxLength < length then
    throw (.invalidCodeLength length)
  else
    let code ← take length
    let instructions ← lift (CodeArray.read code)
    return (length, instructions)

/-- Reads a method body. -/
def readBody (pool : ConstantPool) : Reader Code := do
  let maxStack ← field16
  let maxLocals ← field16
  let (length, instructions) ← readInstructions
  let b : Boundaries := ⟨.ofList (instructions.map Instruction.offset), length⟩
  let handlers ← counted (readHandler b)
  let attributes ← counted (readAttribute pool b)
  return { maxStack, maxLocals, instructions, handlers, attributes }

/-- The method body with the content `info`. -/
def read (pool : ConstantPool) (info : List UInt8) : Except DecodeError Code :=
  runAll (readBody pool) info

/-! ## Writing -/

/-- An attribute with its name and the length of its content. -/
def attributeBytes (nameIndex : UInt16) (info : List UInt8) : List UInt8 :=
  Bytes.field16 nameIndex ++ (Bytes.count32 info.length ++ info)

/-- An offset in its two-byte field. -/
def offsetBytes (role : OffsetRole) (value : Nat) : Except EncodeFault (List UInt8) :=
  if value ≤ 65535 then .ok (Bytes.count16 value) else .error (.wideOffset role value)

/-- The byte form of an exception handler. -/
def handlerBytes (h : ExceptionHandler) : Except EncodeFault (List UInt8) := do
  let start ← offsetBytes .handlerStart h.start
  let limit ← offsetBytes .handlerLimit h.limit
  let handler ← offsetBytes .handlerEntry h.handler
  return start ++ limit ++ handler ++ Bytes.field16 h.catchType

/-- The byte form of a line entry. -/
def lineBytes (entry : LineEntry) : Except EncodeFault (List UInt8) := do
  let start ← offsetBytes .lineStart entry.start
  return start ++ Bytes.field16 entry.line

/-- The byte form of a local variable. -/
def variableBytes (v : LocalVariable) : Except EncodeFault (List UInt8) := do
  let start ← offsetBytes .variableStart v.start
  let length ← offsetBytes .variableExtent v.length
  return start ++ length ++ Bytes.field16 v.nameIndex ++ Bytes.field16 v.descriptorIndex
    ++ Bytes.field16 v.slot

/-- A two-byte count and the byte forms of `items`. -/
def countedBytes {α : Type} (f : α → Except EncodeFault (List UInt8)) (items : List α) :
    Except EncodeFault (List UInt8) := do
  let parts ← items.mapM f
  return Bytes.count16 items.length ++ parts.flatten

/-- The byte form of an attribute of a method body. -/
def codeAttributeBytes : CodeAttribute → Except EncodeFault (List UInt8)
  | .lineNumbers nameIndex entries => attributeBytes nameIndex <$> countedBytes lineBytes entries
  | .localVariables nameIndex _ entries =>
    attributeBytes nameIndex <$> countedBytes variableBytes entries
  | .stackMap nameIndex frames => attributeBytes nameIndex <$> Frame.writeTable frames
  | .other raw => .ok (attributeBytes raw.nameIndex raw.info)

/-- The byte form of what follows the code array. -/
def tableBytes (code : Code) : Except EncodeFault (List UInt8) := do
  let handlers ← countedBytes handlerBytes code.handlers
  let attributes ← countedBytes codeAttributeBytes code.attributes
  return handlers ++ attributes

/-- The content of a method body. -/
def toBytes (code : Code) : Except InstrumentError (List UInt8) := do
  let array ← CodeArray.write code.instructions
  match tableBytes code with
  | .ok tables =>
    return Bytes.field16 code.maxStack ++ Bytes.field16 code.maxLocals
      ++ Bytes.count32 array.length ++ array ++ tables
  | .error fault => throw (.encode fault)

end Code

end JvmCoverage
