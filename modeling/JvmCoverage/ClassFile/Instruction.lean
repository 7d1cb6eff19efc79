import JvmCoverage.ClassFile.Opcode

/-!
# Instructions

An instruction is an operation at a code offset.  Jumps carry absolute target offsets, so
moving an instruction changes its offset and, through `Operation.mapTargets`, its targets,
while the distances and the alignment of switch tables are found when the code is written.
`Operation.size` is the number of bytes an operation takes at an offset.
-/

namespace JvmCoverage

/-- The cases of a switch. -/
inductive SwitchCases where
  /-- One target for each key from `low` on. -/
  | table (low : Int32) (targets : List Nat)
  /-- Keys with their targets. -/
  | lookup (pairs : List (Int32 × Nat))
  deriving DecidableEq

/-- What an instruction does, as far as control flow tells. -/
inductive Operation where
  /-- No effect on control flow.  A widened instruction has the opcode `wide`, and the opcode
  it widens is the first operand byte. -/
  | plain (opcode : Opcode) (operands : List UInt8)
  /-- A call; `count` is used by `invokeinterface` only. -/
  | invoke (opcode : Opcode) (index : UInt16) (count : UInt8)
  /-- A conditional branch, `goto` or `jsr`. -/
  | branch (opcode : Opcode) (target : Nat)
  | switch (opcode : Opcode) (default : Nat) (cases : SwitchCases)
  /-- `ireturn` to `return`. -/
  | methodReturn (opcode : Opcode)
  /-- `athrow`. -/
  | raise
  /-- `ret`, the end of a subroutine. -/
  | subroutineReturn (index : UInt16) (wide : Bool)
  deriving DecidableEq

/-- The number of bytes between a switch opcode at `offset` and its tables, which begin at a
multiple of four. -/
def switchPadding (offset : Nat) : Nat := 3 - offset % 4

namespace SwitchCases

/-- The number of bytes of the cases and of the fields in front of them. -/
def size : SwitchCases → Nat
  | table _ targets => 12 + 4 * targets.length
  | lookup pairs => 8 + 8 * pairs.length

/-- The targets of the cases, in order. -/
def targets : SwitchCases → List Nat
  | table _ targets => targets
  | lookup pairs => pairs.map (·.2)

/-- The cases with `f` applied to every target. -/
def mapTargets (f : Nat → Nat) : SwitchCases → SwitchCases
  | table low targets => table low (targets.map f)
  | lookup pairs => lookup (pairs.map fun (key, target) => (key, f target))

end SwitchCases

namespace Operation

/-- The first byte of the operation. -/
def opcode : Operation → Opcode
  | plain opcode _ | invoke opcode _ _ | branch opcode _ | switch opcode _ _
  | methodReturn opcode => opcode
  | raise => Opcode.athrow
  | subroutineReturn _ wide => if wide then Opcode.wide else Opcode.ret

/-- The number of bytes the operation takes at `offset`. -/
def size (offset : Nat) : Operation → Nat
  | plain _ operands => 1 + operands.length
  | invoke opcode _ _ => if opcode.isLongInvoke then 5 else 3
  | branch opcode _ => if opcode.isWideBranch then 5 else 3
  | switch _ _ cases => 1 + switchPadding offset + cases.size
  | methodReturn _ | raise => 1
  | subroutineReturn _ wide => if wide then 4 else 2

/-- The jump targets, for a switch the default first. -/
def targets : Operation → List Nat
  | branch _ target => [target]
  | switch _ default cases => default :: cases.targets
  | _ => []

/-- The operation with `f` applied to every jump target. -/
def mapTargets (f : Nat → Nat) : Operation → Operation
  | branch opcode target => branch opcode (f target)
  | switch opcode default cases => switch opcode (f default) (cases.mapTargets f)
  | op => op

/-- Whether a straight run of instructions ends with the operation. -/
def endsBlock : Operation → Bool
  | plain _ _ | invoke _ _ _ => false
  | _ => true

/-- Whether control can go on to the next instruction. -/
def fallsThrough : Operation → Bool
  | plain _ _ | invoke _ _ _ => true
  | branch opcode _ => !opcode.isGoto
  | switch _ _ _ | methodReturn _ | raise | subroutineReturn _ _ => false

/-- The mnemonic; a widened instruction has that of the opcode it widens. -/
def mnemonic : Operation → String
  | plain opcode operands =>
    if opcode == Opcode.wide then
      match operands with
      | widened :: _ => Opcode.mnemonic widened
      | [] => "wide"
    else opcode.mnemonic
  | subroutineReturn _ _ => "ret"
  | op => op.opcode.mnemonic

end Operation

/-- An operation at a code offset. -/
structure Instruction where
  offset : Nat
  op : Operation
  deriving DecidableEq

namespace Instruction

/-- The offset behind the instruction. -/
def limit (insn : Instruction) : Nat :=
  insn.offset + insn.op.size insn.offset

end Instruction

end JvmCoverage
