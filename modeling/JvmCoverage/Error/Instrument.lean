import JvmCoverage.ClassFile.Opcode
import JvmCoverage.Error.Decode

/-!
# Why a class cannot be instrumented

`InstrumentError` lists the causes for which reading, changing or writing a class fails,
`InstrumentError.kind` groups them, and `InstrumentError.message` is the text shown.
-/

namespace JvmCoverage

/-- The four groups of failures told apart in reports. -/
inductive ErrorKind where
  | decode
  | unsupportedConstruct
  | encode
  | capacity
  deriving DecidableEq

namespace ErrorKind

/-- The name of a group of failures. -/
def name : ErrorKind → String
  | decode => "Decode"
  | unsupportedConstruct => "UnsupportedConstruct"
  | encode => "Encode"
  | capacity => "Capacity"

end ErrorKind

/-- What a code offset held beside the instructions is for. -/
inductive OffsetRole where
  | handlerStart
  | handlerLimit
  | handlerEntry
  | lineStart
  | variableStart
  | variableExtent
  | frame
  | newObject
  deriving DecidableEq

namespace OffsetRole

/-- The offset as a stored field. -/
def fieldName : OffsetRole → String
  | handlerStart => "handler start"
  | handlerLimit => "handler end"
  | handlerEntry => "handler pc"
  | lineStart => "line start"
  | variableStart => "variable start"
  | variableExtent => "variable length"
  | frame => "frame delta"
  | newObject => "new offset"

/-- The offset as a place in the code. -/
def placeName : OffsetRole → String
  | handlerStart => "handler start"
  | handlerLimit => "handler end"
  | handlerEntry => "handler"
  | lineStart => "line entry"
  | variableStart => "variable start"
  | variableExtent => "variable end"
  | frame => "frame"
  | newObject => "new"

end OffsetRole

/-- Why a class model has no byte form, or none that reads back. -/
inductive EncodeFault where
  /-- An instruction stands at another offset than the one recorded for it. -/
  | misplaced (recorded emitted : Nat)
  /-- A four-byte distance does not reach. -/
  | farBranch (offset target : Nat)
  /-- A two-byte distance does not reach. -/
  | shortBranch (opcode : Opcode) (offset target : Nat)
  | narrowReturn (index : UInt16) (offset : Nat)
  /-- An offset does not fit its two-byte field. -/
  | wideOffset (role : OffsetRole) (value : Nat)
  | frameOrder (offset previous : Nat)
  | unknownBranchTarget (location : String) (target : Nat)
  | unmappedTarget (target : Nat)
  | offBoundary (role : OffsetRole) (offset : Nat)
  | opaqueAttribute
  | missingMethod (index : Nat)
  | missingCode (location : String)
  | inMethod (location : String) (fault : EncodeFault)
  | unreadable (error : DecodeError)
  | described (text : String)
  deriving DecidableEq

namespace EncodeFault

/-- The text shown for a fault. -/
def reason : EncodeFault → String
  | misplaced recorded emitted => s!"instruction recorded at {recorded} emitted at {emitted}"
  | farBranch offset target => s!"branch at {offset} to {target} exceeds i32"
  | shortBranch opcode offset target =>
      s!"{opcode.mnemonic} at {offset} cannot reach {target}"
  | narrowReturn index offset => s!"ret index {index} needs wide at {offset}"
  | wideOffset role value => s!"{role.fieldName} {value} exceeds u16"
  | frameOrder offset previous =>
      s!"stack map frame at {offset} does not follow frame at {previous}"
  | unknownBranchTarget location target => s!"{location}: branch to unknown offset {target}"
  | unmappedTarget target => s!"jump target {target} has no new offset"
  | offBoundary role offset => s!"{role.placeName} at {offset} is not an instruction boundary"
  | opaqueAttribute => "opaque code attribute in planned method"
  | missingMethod index => s!"planned method {index} missing"
  | missingCode location => s!"{location} lost its code"
  | inMethod location fault => location ++ ": " ++ fault.reason
  | unreadable error => s!"output does not decode: {error.message}"
  | described text => text

end EncodeFault

/-- Why a method is left alone although its code is sound. -/
inductive UnsupportedReason where
  /-- An attribute of the code that may hold offsets nobody can move. -/
  | opaqueAttribute (name : String)
  /-- A conditional branch too short for the grown code. -/
  | shortBranch (opcode : Opcode) (offset : Nat)
  | described (text : String)
  deriving DecidableEq

namespace UnsupportedReason

/-- The text shown for an unsupported construct. -/
def reason : UnsupportedReason → String
  | opaqueAttribute name => s!"code attribute {name} may carry offsets"
  | shortBranch opcode offset =>
      s!"{opcode.mnemonic} at {offset} cannot reach its target after instrumentation"
  | described text => text

end UnsupportedReason

/-- A quantity with a hard limit. -/
inductive Resource where
  | poolSlots
  | codeLength
  | instrumentedLength
  | operandStack
  | segments
  | named (text : String)
  deriving DecidableEq

namespace Resource

/-- The name of a limited quantity. -/
def name : Resource → String
  | poolSlots => "constant pool slots"
  | codeLength => "code length"
  | instrumentedLength => "instrumented code length"
  | operandStack => "max stack"
  | segments => "counter segments"
  | named text => text

end Resource

/-- Why a class cannot be instrumented. -/
inductive InstrumentError where
  | decode (error : DecodeError)
  | unsupported (location : String) (reason : UnsupportedReason)
  | encode (fault : EncodeFault)
  | capacity (resource : Resource) (requested limit : Nat)
  /-- The class `owner` already has counters, and not as many as now asked for. -/
  | segmentMismatch (owner : String) (existing requested : Nat)
  deriving DecidableEq

namespace InstrumentError

/-- The group an error belongs to; running out of counters is a matter of capacity. -/
def kind : InstrumentError → ErrorKind
  | decode _ => .decode
  | unsupported _ _ => .unsupportedConstruct
  | encode _ => .encode
  | capacity _ _ _ | segmentMismatch _ _ _ => .capacity

/-- The text shown for an error. -/
def message : InstrumentError → String
  | decode error => s!"decode error: {error.message}"
  | unsupported location reason => s!"unsupported construct in {location}: {reason.reason}"
  | encode fault => s!"encode error: {fault.reason}"
  | capacity resource requested limit =>
      s!"capacity exceeded: {resource.name} needs {requested}, limit is {limit}"
  | segmentMismatch owner existing requested =>
      s!"segment for {owner} already holds {existing} probes, requested {requested}"

end InstrumentError

end JvmCoverage
