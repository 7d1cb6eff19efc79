import JvmCoverage.Bytes.Reader

/-!
# Constants

The entries of a constant pool.  Text is kept as its bytes and floating-point numbers as their
bits, so an entry that is read and written again is the same bytes.  `Constant.unusable` stands
for slot 0 and for the slot behind a two-slot entry; it has no byte form.
-/

namespace JvmCoverage

/-- An entry of a constant pool.  A field that refers to another entry holds its index. -/
inductive Constant where
  | utf8 (bytes : List UInt8)
  | integer (value : Int32)
  | float (bits : UInt32)
  | long (value : Int64)
  | double (bits : UInt64)
  | classRef (name : UInt16)
  | stringRef (text : UInt16)
  | fieldRef (owner member : UInt16)
  | methodRef (owner member : UInt16)
  | interfaceMethodRef (owner member : UInt16)
  | nameAndType (name descriptor : UInt16)
  | methodHandle (kind : UInt8) (reference : UInt16)
  | methodType (descriptor : UInt16)
  | dynamic (bootstrap member : UInt16)
  | invokeDynamic (bootstrap member : UInt16)
  | moduleRef (name : UInt16)
  | packageRef (name : UInt16)
  | unusable
  deriving DecidableEq

namespace Constant

/-- Whether the entry takes two slots. -/
def isWide : Constant → Bool
  | long _ | double _ => true
  | _ => false

/-- The number of slots the entry takes. -/
def slots (c : Constant) : Nat :=
  if c.isWide then 2 else 1

/-- Whether the entry is text. -/
def isUtf8 : Constant → Bool
  | utf8 _ => true
  | _ => false

/-- Whether the entry is a class. -/
def isClass : Constant → Bool
  | classRef _ => true
  | _ => false

/-- Whether the entry is a name with a descriptor. -/
def isNameAndType : Constant → Bool
  | nameAndType _ _ => true
  | _ => false

/-- Whether the entry is the integer `value`. -/
def isInteger (value : Int32) : Constant → Bool
  | integer other => other == value
  | _ => false

theorem isInteger_eq_beq (value : Int32) (c : Constant) :
  isInteger value c = (c == integer value)
  := by
  cases c <;> simp [isInteger, BEq.beq]

/-- Whether the entry is a field or method. -/
def isMember : Constant → Bool
  | fieldRef _ _ | methodRef _ _ | interfaceMethodRef _ _ => true
  | _ => false

/-- A tag byte and one reference. -/
def tagged (tag : UInt8) (reference : UInt16) : List UInt8 :=
  tag :: Bytes.field16 reference

/-- A tag byte and two references. -/
def taggedPair (tag : UInt8) (first second : UInt16) : List UInt8 :=
  tag :: (Bytes.field16 first ++ Bytes.field16 second)

/-- The byte form of an entry: a tag and its payload. -/
def toBytes : Constant → List UInt8
  | utf8 bytes => 1 :: (Bytes.count16 bytes.length ++ bytes)
  | integer value => 3 :: Bytes.signed 4 value.toInt
  | float bits => 4 :: Bytes.field32 bits
  | long value => 5 :: Bytes.signed 8 value.toInt
  | double bits => 6 :: Bytes.field64 bits
  | classRef name => tagged 7 name
  | stringRef text => tagged 8 text
  | fieldRef owner member => taggedPair 9 owner member
  | methodRef owner member => taggedPair 10 owner member
  | interfaceMethodRef owner member => taggedPair 11 owner member
  | nameAndType name descriptor => taggedPair 12 name descriptor
  | methodHandle kind reference => 15 :: kind :: Bytes.field16 reference
  | methodType descriptor => tagged 16 descriptor
  | dynamic bootstrap member => taggedPair 17 bootstrap member
  | invokeDynamic bootstrap member => taggedPair 18 bootstrap member
  | moduleRef name => tagged 19 name
  | packageRef name => tagged 20 name
  | unusable => []

open Reader in
/-- Reads the entry for slot `index`. -/
def read (index : UInt16) : Reader Constant := do
  let tag ← field8
  match tag with
  | 1 => do
    let length ← unsigned 2
    utf8 <$> take length
  | 3 => (fun z => integer (Int32.ofInt z)) <$> signed 4
  | 4 => float <$> field32
  | 5 => (fun z => long (Int64.ofInt z)) <$> signed 8
  | 6 => double <$> field64
  | 7 => classRef <$> field16
  | 8 => stringRef <$> field16
  | 9 => fieldRef <$> field16 <*> field16
  | 10 => methodRef <$> field16 <*> field16
  | 11 => interfaceMethodRef <$> field16 <*> field16
  | 12 => nameAndType <$> field16 <*> field16
  | 15 => methodHandle <$> field8 <*> field16
  | 16 => methodType <$> field16
  | 17 => dynamic <$> field16 <*> field16
  | 18 => invokeDynamic <$> field16 <*> field16
  | 19 => moduleRef <$> field16
  | 20 => packageRef <$> field16
  | tag => throw (.unknownConstantTag tag index)

end Constant

end JvmCoverage
