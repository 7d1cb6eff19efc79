import JvmCoverage.ClassFile.Annotation
import JvmCoverage.ClassFile.Code

/-!
# Class files

A class with its constant pool, fields, methods and attributes.  Method bodies are taken apart;
every other attribute is kept as its bytes.
-/

namespace JvmCoverage

/-! ## Access flags -/

namespace Access

def isPublic : UInt16 := 0x0001
def isStatic : UInt16 := 0x0008
def isSuper : UInt16 := 0x0020
def isBridge : UInt16 := 0x0040
def isNative : UInt16 := 0x0100
def isInterface : UInt16 := 0x0200
def isAbstract : UInt16 := 0x0400
def isSynthetic : UInt16 := 0x1000

/-- Whether `flags` has a flag in common with `wanted`. -/
def hasAny (flags wanted : UInt16) : Bool :=
  flags &&& wanted != 0

end Access

/-- A field with its attributes. -/
structure Field where
  accessFlags : UInt16
  nameIndex : UInt16
  descriptorIndex : UInt16
  attributes : List RawAttribute
  deriving DecidableEq

/-- An attribute of a method. -/
inductive MethodAttribute where
  | code (nameIndex : UInt16) (body : Code)
  | other (raw : RawAttribute)
  deriving DecidableEq

/-- A method with its attributes in order. -/
structure Method where
  accessFlags : UInt16
  nameIndex : UInt16
  descriptorIndex : UInt16
  name : String
  descriptor : String
  attributes : List MethodAttribute
  deriving DecidableEq

namespace Method

/-- The name followed by the descriptor. -/
def signature (m : Method) : String :=
  m.name ++ m.descriptor

/-- The body of the first code attribute. -/
def code? (m : Method) : Option Code :=
  m.attributes.findSome? fun
    | .code _ body => some body
    | .other _ => none

/-- The method with `f` applied to the body of its first code attribute. -/
def mapCode (f : Code → Code) (m : Method) : Method :=
  { m with attributes := go m.attributes }
where
  /-- The attributes with `f` applied to the first body. -/
  go : List MethodAttribute → List MethodAttribute
  | [] => []
  | .code nameIndex body :: rest => .code nameIndex (f body) :: rest
  | attr :: rest => attr :: go rest

/-- The names of the attributes that hold annotations kept at run time. -/
def visibleAnnotations : List UInt8 := Text.Utf8.encode "RuntimeVisibleAnnotations"
def invisibleAnnotations : List UInt8 := Text.Utf8.encode "RuntimeInvisibleAnnotations"

/-- The annotation types listed in one attribute of a method. -/
def annotationTypesIn (pool : ConstantPool) : MethodAttribute → Except DecodeError (List String)
  | .code _ _ => .ok []
  | .other raw => do
    let name ← pool.utf8Bytes raw.nameIndex
    if name = visibleAnnotations ∨ name = invisibleAnnotations then
      let indices ← Annotation.typeIndices raw.info
      indices.mapM pool.utf8
    else
      return []

/-- The types of the annotations on a method. -/
def annotationTypes (pool : ConstantPool) (m : Method) : Except DecodeError (List String) :=
  List.flatten <$> m.attributes.mapM (annotationTypesIn pool)

end Method

/-- A class. -/
structure ClassFile where
  minorVersion : UInt16
  majorVersion : UInt16
  pool : ConstantPool
  accessFlags : UInt16
  thisClass : UInt16
  superClass : UInt16
  interfaces : List UInt16
  fields : List Field
  methods : List Method
  attributes : List RawAttribute
  /-- The name in the slot `thisClass`. -/
  name : String
  deriving DecidableEq

namespace ClassFile

/-- Whether the class is an interface. -/
def isInterface (c : ClassFile) : Bool :=
  Access.hasAny c.accessFlags Access.isInterface

/-- Whether the attribute has the given name. -/
def isNamed (c : ClassFile) (name : List UInt8) (attr : RawAttribute) : Bool :=
  match c.pool.utf8Bytes attr.nameIndex with
  | .ok bytes => bytes == name
  | .error _ => false

/-- The file name in the first `SourceFile` attribute. -/
def sourceFile? (c : ClassFile) : Option String :=
  match c.attributes.find? (c.isNamed (Text.Utf8.encode "SourceFile")) with
  | some ⟨_, high :: low :: _⟩ =>
    (c.pool.utf8 (UInt16.ofNat (Bytes.ofBigEndian [high, low]))).toOption
  | _ => none

/-- The class and a method, as error texts name them. -/
def location (c : ClassFile) (m : Method) : String :=
  c.name ++ "." ++ m.signature

end ClassFile

end JvmCoverage
