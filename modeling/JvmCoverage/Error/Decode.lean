import JvmCoverage.Text.Hex

/-!
# Why bytes are not a class file

`DecodeError` lists the causes for which a byte sequence is refused, and
`DecodeError.message` is the text shown for each.  An attribute whose content contradicts
its own layout is refused with a `Malformation`, which knows the attribute it belongs to.
-/

namespace JvmCoverage

/-- What a reference into the constant pool should have led to. -/
inductive Expectation where
  | utf8
  | classRef
  | nameAndType
  | member
  | handleKind
  | roomForTwoSlots
  deriving DecidableEq

namespace Expectation

/-- The wording of an expectation. -/
def description : Expectation → String
  | utf8 => "Utf8"
  | .classRef => "Class"
  | nameAndType => "NameAndType"
  | member => "member reference"
  | handleKind => "method handle kind 1..=9"
  | roomForTwoSlots => "two-slot entry inside pool bounds"

end Expectation

/-- How the content of an attribute contradicts its layout. -/
inductive Malformation where
  | reservedBytes (offset : Nat)
  | emptyTableRange (offset : Nat)
  | negativePairCount (offset : Nat) (count : Int)
  | handlerOffBoundary (start limit handler : Nat)
  | lineOffBoundary (start : Nat)
  | variableOffBoundary (types : Bool) (start limit : Nat)
  | frameOffBoundary (offset : Nat)
  | reservedFrameType (type : UInt8)
  | unknownVerificationType (tag : UInt8)
  | unknownElementTag (tag : UInt8)
  | elementsTooDeep
  deriving DecidableEq

namespace Malformation

/-- The attribute that is malformed. -/
def attributeName : Malformation → String
  | reservedBytes _ | emptyTableRange _ | negativePairCount _ _ | handlerOffBoundary _ _ _ => "Code"
  | lineOffBoundary _ => "LineNumberTable"
  | variableOffBoundary types _ _ =>
      if types then "LocalVariableTypeTable" else "LocalVariableTable"
  | frameOffBoundary _ | reservedFrameType _ | unknownVerificationType _ => "StackMapTable"
  | unknownElementTag _ | elementsTooDeep => "RuntimeAnnotations"

/-- What is wrong with it. -/
def reason : Malformation → String
  | reservedBytes offset => s!"non-zero reserved bytes at {offset}"
  | emptyTableRange offset => s!"tableswitch at {offset} has high < low"
  | negativePairCount offset count => s!"lookupswitch at {offset} has {count} pairs"
  | handlerOffBoundary start limit handler =>
      s!"exception range {start}..{limit} -> {handler} not on boundaries"
  | lineOffBoundary start => s!"line entry at non-boundary {start}"
  | variableOffBoundary _ start limit => s!"variable range {start}..{limit} not on boundaries"
  | frameOffBoundary offset => s!"frame at non-boundary {offset}"
  | reservedFrameType type => s!"reserved frame type {type}"
  | unknownVerificationType tag => s!"verification type tag {tag}"
  | unknownElementTag tag => "element value tag 0x" ++ Text.hex 2 tag.toNat
  | elementsTooDeep => "element values nested too deeply"

end Malformation

/-- Why a byte sequence is not a class file. -/
inductive DecodeError where
  /-- Fewer than `needed` bytes remain at `offset`. -/
  | unexpectedEnd (offset needed : Nat)
  | badMagic (magic : UInt32)
  | unknownConstantTag (tag : UInt8) (index : UInt16)
  | badConstant (index : UInt16) (expected : Expectation)
  | unknownOpcode (opcode : UInt8) (offset : Nat)
  /-- The instruction at `offset` refers to `target`, where no instruction starts. -/
  | invalidTarget (offset : Nat) (target : Int)
  | invalidCodeLength (length : Nat)
  | malformed (fault : Malformation)
  | trailingBytes (count : Nat)
  deriving DecidableEq

namespace DecodeError

/-- The text shown for a refused byte sequence. -/
def message : DecodeError → String
  | unexpectedEnd offset needed =>
      s!"unexpected end of input at byte {offset} (needed {needed} more)"
  | badMagic magic => "bad magic 0x" ++ Text.hex 8 magic.toNat
  | unknownConstantTag tag index => s!"unknown constant pool tag {tag} at index {index}"
  | badConstant index expected =>
      s!"bad constant pool reference #{index}: expected {expected.description}"
  | unknownOpcode opcode offset =>
      "unknown opcode 0x" ++ Text.hex 2 opcode.toNat ++ s!" at code offset {offset}"
  | invalidTarget offset target =>
      s!"target {target} of instruction at {offset} is not an instruction boundary"
  | invalidCodeLength length => s!"invalid code length {length}"
  | malformed fault => s!"malformed {fault.attributeName} attribute: {fault.reason}"
  | trailingBytes count => s!"{count} trailing bytes after class structure"

end DecodeError

end JvmCoverage
