import JvmCoverage.ClassFile.Basic

/-!
# The class file format

`ClassFile.read` takes the bytes of a class apart and `ClassFile.toBytes` puts a class together
again, with attribute lengths and frame distances found anew.  `ClassFile.check` tells whether
bytes are a class.
-/

namespace JvmCoverage.ClassFile

/-- The number a class file begins with. -/
def magic : UInt32 := 0xcafebabe

/-! ## Reading -/

open Reader

/-- Reads an attribute whose content is kept as bytes. -/
def readRawAttribute (pool : ConstantPool) : Reader RawAttribute := do
  let nameIndex ← field16
  let _ ← lift (pool.utf8Bytes nameIndex)
  let length ← unsigned 4
  let info ← take length
  return ⟨nameIndex, info⟩

/-- Reads a field. -/
def readField (pool : ConstantPool) : Reader Field := do
  let accessFlags ← field16
  let nameIndex ← field16
  let descriptorIndex ← field16
  let attributes ← counted (readRawAttribute pool)
  return { accessFlags, nameIndex, descriptorIndex, attributes }

/-- Reads an attribute of a method. -/
def readMethodAttribute (pool : ConstantPool) : Reader MethodAttribute := do
  let nameIndex ← field16
  let length ← unsigned 4
  let info ← take length
  let name ← lift (pool.utf8Bytes nameIndex)
  if name = Text.Utf8.encode "Code" then
    .code nameIndex <$> lift (Code.read pool info)
  else
    return .other ⟨nameIndex, info⟩

/-- Reads a method. -/
def readMethod (pool : ConstantPool) : Reader Method := do
  let accessFlags ← field16
  let nameIndex ← field16
  let descriptorIndex ← field16
  let attributes ← counted (readMethodAttribute pool)
  let name ← lift (pool.utf8 nameIndex)
  let descriptor ← lift (pool.utf8 descriptorIndex)
  return { accessFlags, nameIndex, descriptorIndex, name, descriptor, attributes }

/-- Reads the magic number. -/
def readMagic : Reader Unit := do
  let found ← field32
  if found = magic then return () else throw (.badMagic found)

/-- Fails unless `superClass` is 0 or the slot of a class. -/
def checkSuperClass (pool : ConstantPool) (superClass : UInt16) : Except DecodeError Unit :=
  if superClass = 0 then .ok ()
  else
    match pool.className superClass with
    | .ok _ => .ok ()
    | .error e => .error e

/-- Reads a class. -/
def readClass : Reader ClassFile := do
  readMagic
  let minorVersion ← field16
  let majorVersion ← field16
  let pool ← ConstantPool.read
  let accessFlags ← field16
  let thisClass ← field16
  let superClass ← field16
  let name ← lift (pool.className thisClass)
  lift (checkSuperClass pool superClass)
  let interfaces ← counted field16
  let fields ← counted (readField pool)
  let methods ← counted (readMethod pool)
  let attributes ← counted (readRawAttribute pool)
  return {
    minorVersion, majorVersion, pool, accessFlags, thisClass, superClass, interfaces, fields,
    methods, attributes, name := name }

/-- The class that `bytes` hold. -/
def read (bytes : List UInt8) : Except DecodeError ClassFile :=
  runAll readClass bytes

/-! ## Writing -/

/-- A two-byte count and the attributes. -/
def rawAttributesBytes (attributes : List RawAttribute) : List UInt8 :=
  Bytes.count16 attributes.length
    ++ attributes.flatMap fun attr => Code.attributeBytes attr.nameIndex attr.info

/-- The byte form of a field. -/
def fieldBytes (f : Field) : List UInt8 :=
  Bytes.field16 f.accessFlags ++ Bytes.field16 f.nameIndex ++ Bytes.field16 f.descriptorIndex
    ++ rawAttributesBytes f.attributes

/-- The byte form of an attribute of a method; faults in the code name the method at
`location`. -/
def methodAttributeBytes (location : String) :
    MethodAttribute → Except InstrumentError (List UInt8)
  | .code nameIndex body =>
    match body.toBytes with
    | .ok info => .ok (Code.attributeBytes nameIndex info)
    | .error (.encode fault) => .error (.encode (.inMethod location fault))
    | .error e => .error e
  | .other raw => .ok (Code.attributeBytes raw.nameIndex raw.info)

/-- The byte form of a method. -/
def methodBytes (c : ClassFile) (m : Method) : Except InstrumentError (List UInt8) := do
  let attributes ← m.attributes.mapM (methodAttributeBytes (c.location m))
  return Bytes.field16 m.accessFlags ++ Bytes.field16 m.nameIndex
    ++ Bytes.field16 m.descriptorIndex ++ Bytes.count16 m.attributes.length
    ++ attributes.flatten

/-- What stands in front of the fields. -/
def headerBytes (c : ClassFile) : List UInt8 :=
  Bytes.field32 magic ++ Bytes.field16 c.minorVersion ++ Bytes.field16 c.majorVersion
    ++ (c.pool.toBytes ++ (Bytes.field16 c.accessFlags ++ Bytes.field16 c.thisClass
      ++ Bytes.field16 c.superClass ++ Bytes.count16 c.interfaces.length
      ++ c.interfaces.flatMap Bytes.field16))

/-- The byte form of a class. -/
def toBytes (c : ClassFile) : Except InstrumentError (List UInt8) := do
  let methods ← c.methods.mapM c.methodBytes
  return c.headerBytes
    ++ (Bytes.count16 c.fields.length ++ (c.fields.flatMap fieldBytes
      ++ (Bytes.count16 c.methods.length ++ (methods.flatten
        ++ rawAttributesBytes c.attributes))))

/-- Fails unless written bytes are a class. -/
def check (bytes : List UInt8) : Except InstrumentError Unit :=
  match read bytes with
  | .ok _ => .ok ()
  | .error e => .error (.encode (.unreadable e))

end JvmCoverage.ClassFile
