import JvmCoverage.ClassFile.Format

/-!
# Building classes

A `ClassBuilder` is a class under construction: a public class that extends `java/lang/Object`,
to which a source file and methods are added one by one.  A method is described by a
`MethodBody`; its code array is taken apart when it is added.
-/

namespace JvmCoverage

/-- A method to add to a class. -/
structure MethodBody where
  name : String
  descriptor : String
  accessFlags : UInt16 := Access.isPublic ||| Access.isStatic
  maxStack : UInt16 := 0
  maxLocals : UInt16 := 0
  /-- The code array, if the method has a body. -/
  code : Option (List UInt8) := none
  lines : List LineEntry := []
  handlers : List ExceptionHandler := []
  frames : List Frame := []
  /-- The types of annotations without elements. -/
  annotations : List String := []

/-- A class under construction. -/
structure ClassBuilder where
  pool : ConstantPool
  name : String
  thisClass : UInt16
  superClass : UInt16
  methods : List Method := []
  attributes : List RawAttribute := []

namespace ClassBuilder

/-- The first class file version whose classes need stack map frames throughout. -/
def majorVersion : UInt16 := 52

/-- Runs additions on a pool and gives up the pool when they fail. -/
def addTo {α : Type} (pool : ConstantPool) (additions : PoolBuilder α) :
    Except InstrumentError (α × ConstantPool) :=
  match additions.run.run pool with
  | (.ok a, pool) => .ok (a, pool)
  | (.error e, _) => .error e

/-- A class without members. -/
def new (name : String) : Except InstrumentError ClassBuilder := do
  let ((thisClass, superClass), pool) ← addTo .empty do
    let thisClass ← PoolBuilder.classRef name
    let superClass ← PoolBuilder.classRef "java/lang/Object"
    return (thisClass, superClass)
  return { pool, name, thisClass, superClass }

/-- The builder with further pool entries. -/
def extendPool {α : Type} (additions : PoolBuilder α) (b : ClassBuilder) :
    Except InstrumentError ClassBuilder := do
  let (_, pool) ← addTo b.pool additions
  return { b with pool }

/-- The builder with a `SourceFile` attribute. -/
def sourceFile (file : String) (b : ClassBuilder) : Except InstrumentError ClassBuilder := do
  let (attr, pool) ← addTo b.pool do
    let nameIndex ← PoolBuilder.utf8 "SourceFile"
    let fileIndex ← PoolBuilder.utf8 file
    return ({ nameIndex, info := Bytes.field16 fileIndex } : RawAttribute)
  return { b with pool, attributes := b.attributes ++ [attr] }

/-- The line table of a method, if it has line entries. -/
def lineAttribute (body : MethodBody) : PoolBuilder (List CodeAttribute) :=
  if body.lines.isEmpty then return []
  else return [.lineNumbers (← PoolBuilder.utf8 "LineNumberTable") body.lines]

/-- The stack map table of a method, if it has frames. -/
def frameAttribute (body : MethodBody) : PoolBuilder (List CodeAttribute) :=
  if body.frames.isEmpty then return []
  else return [.stackMap (← PoolBuilder.utf8 "StackMapTable") body.frames]

/-- The code attribute of a method, if it has a code array. -/
def codeAttribute (body : MethodBody) : PoolBuilder (List MethodAttribute) := do
  match body.code with
  | none => return []
  | some bytes =>
    let lines ← lineAttribute body
    let frames ← frameAttribute body
    match CodeArray.read bytes with
    | .error e => throw (.decode e)
    | .ok instructions =>
      let nameIndex ← PoolBuilder.utf8 "Code"
      return [.code nameIndex
        { maxStack := body.maxStack, maxLocals := body.maxLocals, instructions,
          handlers := body.handlers, attributes := lines ++ frames }]

/-- The annotation attribute of a method, if it has annotations. -/
def annotationAttribute (body : MethodBody) : PoolBuilder (List MethodAttribute) := do
  if body.annotations.isEmpty then return []
  let types ← body.annotations.mapM PoolBuilder.utf8
  let nameIndex ← PoolBuilder.utf8 "RuntimeInvisibleAnnotations"
  let entries := types.flatMap fun type => Bytes.field16 type ++ Bytes.count16 0
  return [.other ⟨nameIndex, Bytes.count16 types.length ++ entries⟩]

/-- The builder with one more method. -/
def method (body : MethodBody) (b : ClassBuilder) : Except InstrumentError ClassBuilder := do
  let (m, pool) ← addTo b.pool do
    let nameIndex ← PoolBuilder.utf8 body.name
    let descriptorIndex ← PoolBuilder.utf8 body.descriptor
    let code ← codeAttribute body
    let annotations ← annotationAttribute body
    return ({ accessFlags := body.accessFlags, nameIndex, descriptorIndex, name := body.name,
              descriptor := body.descriptor, attributes := code ++ annotations } : Method)
  return { b with pool, methods := b.methods ++ [m] }

/-- The class built so far. -/
def build (b : ClassBuilder) : ClassFile where
  minorVersion := 0
  majorVersion := majorVersion
  pool := b.pool
  accessFlags := Access.isPublic ||| Access.isSuper
  thisClass := b.thisClass
  superClass := b.superClass
  interfaces := []
  fields := []
  methods := b.methods
  attributes := b.attributes
  name := b.name

end ClassBuilder

end JvmCoverage
