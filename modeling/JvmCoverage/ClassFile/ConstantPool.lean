import JvmCoverage.ClassFile.Constant
import JvmCoverage.Error.Instrument
import JvmCoverage.Text.Utf8

/-!
# Constant pools

A pool is the array of its entries; slot 0 and the slot behind a two-slot entry are unusable.
`ConstantPool.read` accepts only pools whose references lead to entries of the right kind, and
the additions in `PoolBuilder` reuse an equal entry where there is one.  An addition that fails
for want of room leaves the entries added on the way.
-/

namespace JvmCoverage

/-- The entries of a class, indexed by slot. -/
structure ConstantPool where
  entries : Array Constant
  deriving DecidableEq

namespace ConstantPool

/-- The pool without entries. -/
def empty : ConstantPool := ⟨#[.unusable]⟩

/-- The count written before the entries: the slots with slot 0 included. -/
def count (pool : ConstantPool) : Nat := pool.entries.size

/-- The most slots a pool has. -/
def maxSlots : Nat := 65535

/-! ## Looking up -/

/-- The usable entry in slot `index`. -/
def get? (pool : ConstantPool) (index : UInt16) : Option Constant :=
  match pool.entries[index.toNat]? with
  | some .unusable | none => none
  | some c => some c

/-- The usable entries with their slots, in order. -/
def usable (pool : ConstantPool) : List (UInt16 × Constant) :=
  (pool.entries.toList.zipIdx.filter (·.1 != .unusable)).map fun (c, i) => (UInt16.ofNat i, c)

/-- The bytes of the text in slot `index`. -/
def utf8Bytes (pool : ConstantPool) (index : UInt16) : Except DecodeError (List UInt8) :=
  match pool.get? index with
  | some (.utf8 bytes) => .ok bytes
  | _ => .error (.badConstant index .utf8)

/-- The text in slot `index`. -/
def utf8 (pool : ConstantPool) (index : UInt16) : Except DecodeError String :=
  (pool.utf8Bytes index).map Text.Utf8.decodeLossy

/-- The name of the class in slot `index`. -/
def className (pool : ConstantPool) (index : UInt16) : Except DecodeError String :=
  match pool.get? index with
  | some (.classRef name) => pool.utf8 name
  | _ => .error (.badConstant index .classRef)

/-- Whether slot `index` holds the text `want`. -/
def holdsText (pool : ConstantPool) (index : UInt16) (want : List UInt8) : Bool :=
  match pool.get? index with
  | some (.utf8 bytes) => bytes == want
  | _ => false

/-- Whether `c` is the method `owner.name` with the given descriptor. -/
def isMethodRef (pool : ConstantPool) (owner name descriptor : List UInt8) (c : Constant) : Bool :=
  match c with
  | .methodRef ownerIndex memberIndex =>
    match pool.get? ownerIndex, pool.get? memberIndex with
    | some (.classRef ownerName), some (.nameAndType memberName memberDescriptor) =>
      pool.holdsText ownerName owner && pool.holdsText memberName name
        && pool.holdsText memberDescriptor descriptor
    | _, _ => false
  | _ => false

/-- The first slot that holds the method `owner.name` with the given descriptor. -/
def findMethodRef? (pool : ConstantPool) (owner name descriptor : String) : Option UInt16 :=
  (pool.entries.findIdx? (pool.isMethodRef (Text.Utf8.encode owner) (Text.Utf8.encode name)
    (Text.Utf8.encode descriptor))).map UInt16.ofNat

/-! ## Reading and writing -/

/-- Fails unless slot `index` holds an entry of the right kind. -/
def expect (pool : ConstantPool) (index : UInt16) (expected : Expectation)
    (kind : Constant → Bool) : Except DecodeError Unit :=
  match pool.get? index with
  | some c => if kind c then .ok () else .error (.badConstant index expected)
  | none => .error (.badConstant index expected)

/-- Fails unless every reference of `c` leads to an entry of the right kind. -/
def checkReferences (pool : ConstantPool) (c : Constant) : Except DecodeError Unit :=
  let utf8 (index : UInt16) := pool.expect index .utf8 Constant.isUtf8
  let owner (index : UInt16) := pool.expect index .classRef Constant.isClass
  let member (index : UInt16) := pool.expect index .nameAndType Constant.isNameAndType
  match c with
  | .classRef i | .stringRef i | .methodType i | .moduleRef i | .packageRef i => utf8 i
  | .fieldRef c n | .methodRef c n | .interfaceMethodRef c n => do
    owner c
    member n
  | .nameAndType n d => do
    utf8 n
    utf8 d
  | .dynamic _ n | .invokeDynamic _ n => member n
  | .methodHandle kind i =>
    if 1 ≤ kind ∧ kind ≤ 9 then pool.expect i .member Constant.isMember
    else .error (.badConstant i .handleKind)
  | .utf8 _ | .integer _ | .float _ | .long _ | .double _ | .unusable => .ok ()

/-- Fails at the first entry with a reference to the wrong kind of entry. -/
def validate (pool : ConstantPool) : Except DecodeError Unit :=
  pool.entries.toList.forM pool.checkReferences

/-- Reads entries into the next `slots` slots behind `entries`. -/
def readEntries : (slots : Nat) → (entries : Array Constant) → Reader (Array Constant)
  | 0, entries => pure entries
  | 1, entries => do
    let index := UInt16.ofNat entries.size
    let c ← Constant.read index
    if c.isWide then throw (.badConstant index .roomForTwoSlots)
    return entries.push c
  | slots + 2, entries => do
    let c ← Constant.read (UInt16.ofNat entries.size)
    if c.isWide then readEntries slots ((entries.push c).push .unusable)
    else readEntries (slots + 1) (entries.push c)

/-- Reads a pool: a count, the entries, and a check of the references between them. -/
def read : Reader ConstantPool := do
  let count ← Reader.unsigned 2
  let entries ← readEntries (count - 1) #[.unusable]
  let pool : ConstantPool := ⟨entries⟩
  Reader.lift pool.validate
  return pool

/-- The byte form of a pool. -/
def toBytes (pool : ConstantPool) : List UInt8 :=
  Bytes.count16 pool.count ++ (pool.entries.toList.drop 1).flatMap Constant.toBytes

end ConstantPool

/-! ## Adding entries -/

/-- Additions to a pool.  The pool is kept when an addition fails. -/
abbrev PoolBuilder (α : Type) := ExceptT InstrumentError (StateM ConstantPool) α

namespace PoolBuilder

/-- Adds `c` behind the last slot. -/
def push (c : Constant) : PoolBuilder UInt16 := do
  let size := (← get).count
  if size + c.slots > ConstantPool.maxSlots then
    throw (.capacity .poolSlots (size + c.slots) ConstantPool.maxSlots)
  modify fun pool =>
    if c.isWide then ⟨(pool.entries.push c).push .unusable⟩ else ⟨pool.entries.push c⟩
  return UInt16.ofNat size

/-- The first entry equal to `c`.  Integers, of which a pool may hold many, are found without
looking at other entries closely. -/
def indexOf? (entries : Array Constant) (c : Constant) : Option Nat :=
  match c with
  | .integer value => entries.findIdx? (Constant.isInteger value)
  | c => entries.findIdx? (· == c)

theorem indexOf?_eq_findIdx? (entries : Array Constant) (c : Constant) :
  indexOf? entries c = entries.findIdx? (· == c)
  := by
  unfold indexOf?
  split
  · congr
    funext entry
    apply Constant.isInteger_eq_beq
  · rfl

/-- The slot of an entry equal to `c`, added if there is none. -/
def intern (c : Constant) : PoolBuilder UInt16 := do
  match indexOf? (← get).entries c with
  | some index => return UInt16.ofNat index
  | none => push c

/-- The slot of a text. -/
def utf8 (text : String) : PoolBuilder UInt16 :=
  intern (.utf8 (Text.Utf8.encode text))

/-- The slot of an integer. -/
def integer (value : Int32) : PoolBuilder UInt16 :=
  intern (.integer value)

/-- The slot of a class. -/
def classRef (name : String) : PoolBuilder UInt16 := do
  let name ← utf8 name
  intern (.classRef name)

/-- The slot of a name with a descriptor. -/
def nameAndType (name descriptor : String) : PoolBuilder UInt16 := do
  let name ← utf8 name
  let descriptor ← utf8 descriptor
  intern (.nameAndType name descriptor)

/-- The slot of a method. -/
def methodRef (owner name descriptor : String) : PoolBuilder UInt16 := do
  let owner ← classRef owner
  let member ← nameAndType name descriptor
  intern (.methodRef owner member)

/-- The most slots that one method and `integers` integers can take: the names of the owner and
of the method, its descriptor, the owner, the name with the descriptor, the method, and the
integers. -/
def worstCase (integers : Nat) : Nat := 6 + integers

end PoolBuilder

end JvmCoverage
