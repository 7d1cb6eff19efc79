import JvmCoverage.ClassFile.Instruction

/-!
# Basic blocks

A basic block is a run of instructions that is entered at its first instruction only and left
after its last.  Blocks are numbered from 0 in code order.
-/

namespace JvmCoverage

/-- How control reaches the next block. -/
inductive EdgeKind where
  | fallthrough
  | branchTaken
  | exception
  deriving DecidableEq

namespace EdgeKind

/-- The name of a kind of edge in documents. -/
def name : EdgeKind → String
  | fallthrough => "fallthrough"
  | branchTaken => "branch_taken"
  | exception => "exception"

/-- The name of a kind of edge in listings. -/
def label : EdgeKind → String
  | fallthrough => "fallthrough"
  | branchTaken => "taken"
  | exception => "handler"

end EdgeKind

/-- How control leaves a block. -/
inductive Terminator where
  /-- The next instruction starts a block. -/
  | fallthrough
  | conditional
  | goto
  | jsr
  | switch
  | methodReturn
  | throw
  | subroutineReturn
  deriving DecidableEq

namespace Terminator

/-- How a block that ends with `op` is left. -/
def ofOperation : Operation → Terminator
  | .plain _ _ | .invoke _ _ _ => fallthrough
  | .branch opcode _ =>
    if opcode.isGoto then goto else if opcode.isJsr then jsr else conditional
  | .switch _ _ _ => switch
  | .methodReturn _ => methodReturn
  | .raise => throw
  | .subroutineReturn _ _ => subroutineReturn

/-- Whether control chooses between several ways. -/
def isBranch : Terminator → Bool
  | conditional | switch => true
  | _ => false

/-- The name of a terminator. -/
def name : Terminator → String
  | fallthrough => "fallthrough"
  | conditional => "conditional"
  | goto => "goto"
  | jsr => "jsr"
  | switch => "switch"
  | methodReturn => "return"
  | throw => "throw"
  | subroutineReturn => "ret"

end Terminator

/-- A way from a block to the block numbered `target`. -/
structure Edge where
  target : Nat
  kind : EdgeKind
  deriving DecidableEq

/-- A basic block. -/
structure BasicBlock where
  id : Nat
  /-- The offset of the first instruction. -/
  start : Nat
  /-- The position of the first instruction among those of the method. -/
  first : Nat
  /-- The number of instructions. -/
  count : Nat
  /-- The last instruction. -/
  last : Instruction
  /-- The distinct source lines of the instructions, in ascending order. -/
  lines : List UInt16
  successors : List Edge
  deriving DecidableEq

namespace BasicBlock

/-- The offset behind the last instruction. -/
def limit (b : BasicBlock) : Nat := b.last.limit

/-- How control leaves the block. -/
def terminator (b : BasicBlock) : Terminator := .ofOperation b.last.op

/-- Whether the block has code in the range from `start` up to `limit`. -/
def meets (b : BasicBlock) (start limit : Nat) : Bool :=
  b.start < limit && start < b.limit

end BasicBlock

end JvmCoverage
