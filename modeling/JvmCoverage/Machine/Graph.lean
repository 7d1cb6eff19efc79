import JvmCoverage.Flow.Graph
import JvmCoverage.Machine.Reading

/-!
# Control-flow graphs on a machine

The basic blocks of a method body are found in one walk over its instructions, and their edges in
walks over the blocks.  A block holds its range of places, and blocks and instructions are looked
up by place.
-/

namespace JvmCoverage.Machine

variable {m : Type → Type} [Monad m] [Faulting m]

/-! ## Sizes -/

/-- The number of bytes of the cases of a switch and of the fields in front of them. -/
def casesSize : SwitchCases → m Nat
  | .table _ targets => do
    let size ← mul 32 4 (cast 32 targets.length)
    add 32 12 size
  | .lookup pairs => do
    let size ← mul 32 8 (cast 32 pairs.length)
    add 32 8 size

/-- The number of bytes an operation takes at `offset`. -/
def size (offset : Nat) : Operation → m Nat
  | .plain _ operands => add 32 1 (cast 32 operands.length)
  | .invoke opcode _ _ => return if opcode.isLongInvoke then 5 else 3
  | .branch opcode _ => return if opcode.isWideBranch then 5 else 3
  | .switch _ _ cases => do
    let body ← casesSize cases
    let padding ← switchPadding offset
    let front ← add 32 1 padding
    add 32 front body
  | .methodReturn _ | .raise => return 1
  | .subroutineReturn _ wide => return if wide then 4 else 2

/-- The offset behind an instruction. -/
def limit (insn : Instruction) : m Nat := do
  let size ← size insn.offset insn.op
  add 32 insn.offset size

/-- The offset behind the last instruction of a body. -/
def codeLength (code : Code) : m Nat :=
  match code.instructions.getLast? with
  | some insn => limit insn
  | none => return 0

/-! ## Blocks -/

/-- A basic block with the offset and the place behind its last instruction. -/
structure Block extends BasicBlock where
  limitOffset : Nat
  limitPlace : Nat

namespace Block

/-- The block with one more edge, unless it has one to the same block. -/
def addEdge (b : Block) (edge : Edge) : Block :=
  if b.successors.any fun e => e.target == edge.target then b
  else { b with successors := b.successors ++ [edge] }

end Block

/-- The offsets at which the instruction in place `i` makes blocks start. -/
def leadersAt (instructions : List Instruction) (insn : Instruction) (i : Nat) :
    m (List Nat) := do
  if insn.op.endsBlock then
    let next ← add 64 i 1
    return insn.op.targets ++ (instructions[next]?.map Instruction.offset).toList
  else return insn.op.targets

/-- The offsets at which blocks start. -/
def leaders (code : Code) : m (List Nat) := do
  let head ← item code.instructions 0
  let starts ← code.instructions.zipIdx.mapM fun p => leadersAt code.instructions p.1 p.2
  return head.offset :: starts.flatten ++ code.handlers.map ExceptionHandler.handler

/-- The line of the last entry that starts up to `offset`. -/
def lineAt? (index : LineIndex) (offset : Nat) : m (Option UInt16) :=
  match Search.lastUpTo? LineEntry.start index.entries offset with
  | some i => do
    let entry ← item index.entries.toList i
    return some entry.line
  | none => return none

/-- The distinct lines of `instructions`, in ascending order. -/
def linesOf (index : LineIndex) (instructions : List Instruction) : m (List UInt16) := do
  let lines ← instructions.mapM fun insn => lineAt? index insn.offset
  return (lines.reduceOption.mergeSort (· ≤ ·)).eraseReps

/-- The block from place `first` up to the instruction `last` in place `i`, behind `count`
others. -/
def blockFrom (index : LineIndex) (instructions : List Instruction) (count first : Nat)
    (last : Instruction) (i : Nat) : m Block := do
  let limitPlace ← add 64 i 1
  let run ← slice instructions first limitPlace
  let lines ← linesOf index run
  let head ← item instructions first
  let limitOffset ← limit last
  return {
    id := cast 32 count, start := head.offset, first, count := run.length, last, lines,
    successors := [], limitOffset, limitPlace }

/-- The blocks found so far and the place behind the last of them, after a look at one more
instruction. -/
def outlineNext (index : LineIndex) (starts : Std.HashSet Nat) (instructions : List Instruction)
    (state : List Block × Nat) (insn : Instruction) (i : Nat) : m (List Block × Nat) := do
  let next ← add 64 i 1
  if (instructions[next]?.map fun insn => starts.contains insn.offset).getD true then
    let b ← blockFrom index instructions state.1.length state.2 insn i
    let first ← add 64 i 1
    return (state.1 ++ [b], first)
  else return state

/-- The blocks of `code` without successors. -/
def outline (code : Code) : m (List Block) := do
  let starts ← leaders code
  let (blocks, _) ← code.instructions.zipIdx.foldlM
    (fun state p => outlineNext (.ofCode code) (.ofList starts) code.instructions state p.1 p.2)
    ([], 0)
  return blocks

/-! ## Edges -/

/-- The number of the block that starts at `offset`. -/
def blockAt? (blocks : List Block) (offset : Nat) : m (Option Nat) :=
  match Search.find? (fun b : Block => b.start) blocks.toArray offset with
  | some i => do
    let b ← item blocks i
    return some b.id
  | none => return none

/-- The edges from the block in place `i` that ends with `last`, those to handlers aside. -/
def plainEdges (blocks : List Block) (last : Instruction) (i : Nat) : m (List Edge) := do
  let behind ← add 64 i 1
  let targets ← last.op.targets.mapM (blockAt? blocks)
  let jumps := targets.reduceOption.map fun target => ⟨target, .branchTaken⟩
  let next := (blocks[behind]?.map fun b => ⟨b.id, .fallthrough⟩).toList
  return if last.op.fallsThrough then jumps ++ next else jumps

/-- The blocks after the one in place `i` has got its edges, those to handlers aside. -/
def linkNext (instructions : List Instruction) (blocks : List Block) (i : Nat) :
    m (List Block) := do
  let b ← item blocks i
  let place ← sub b.limitPlace 1
  match instructions[place]? with
  | some last => do
    let edges ← plainEdges blocks last i
    update blocks i (edges.foldl Block.addEdge b)
  | none => return blocks

/-- The blocks after those that `h` protects have got their edge to its handler. -/
def linkHandler (blocks : List Block) (h : ExceptionHandler) : m (List Block) := do
  match ← blockAt? blocks h.handler with
  | some target =>
    return blocks.map fun b =>
      if b.start < h.limit && h.start < b.limitOffset then b.addEdge ⟨target, .exception⟩ else b
  | none => return blocks

/-- The basic blocks of `code`. -/
def graph (code : Code) : m (List Block) := do
  if code.instructions.isEmpty then return []
  else
    let blocks ← outline code
    let blocks ← (List.range blocks.length).foldlM (linkNext code.instructions) blocks
    code.handlers.foldlM linkHandler blocks

end JvmCoverage.Machine
