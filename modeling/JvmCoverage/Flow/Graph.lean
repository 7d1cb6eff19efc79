import JvmCoverage.Flow.Block
import JvmCoverage.Flow.LineIndex

/-!
# Control-flow graphs

The graph of a method body has the basic blocks of its instructions.  A block starts at a
*leader*: the first instruction, a jump target, a handler entry, or an instruction behind one
that ends a block.  A block has an edge to the block of each jump target of its last
instruction, to the next block if control falls through, and to the handler of every protected
range that meets it.  Each block is reached by at most one edge from another, the first in this
order.
-/

namespace JvmCoverage

/-- The basic blocks of a method body, in code order. -/
structure FlowGraph where
  blocks : Array BasicBlock
  deriving DecidableEq

namespace FlowGraph

/-! ## Blocks -/

/-- The offsets of the instructions behind those that end a block. -/
def resumptions (instructions : List Instruction) : List Nat :=
  ((instructions.zip instructions.tail).filter (·.1.op.endsBlock)).map (·.2.offset)

/-- The offsets at which blocks start. -/
def leaders (code : Code) : List Nat :=
  (code.instructions.head?.map Instruction.offset).toList
    ++ (code.instructions.flatMap fun insn => insn.op.targets)
    ++ resumptions code.instructions
    ++ code.handlers.map ExceptionHandler.handler

/-- The runs of instructions of which only the first is at an offset in `starts`. -/
def runs (starts : Std.HashSet Nat) (instructions : List Instruction) : List (List Instruction) :=
  instructions.splitBy fun _ next => !starts.contains next.offset

/-- The position behind the last instruction of `blocks`. -/
def nextPosition (blocks : Array BasicBlock) : Nat :=
  (blocks.back?.map fun b => b.first + b.count).getD 0

/-- One more block, made of `run` and still without successors. -/
def pushRun (index : LineIndex) (blocks : Array BasicBlock) (run : List Instruction) :
    Array BasicBlock :=
  match run.head?, run.getLast? with
  | some head, some last =>
    blocks.push
      { id := blocks.size, start := head.offset, first := nextPosition blocks,
        count := run.length, last, lines := index.linesOf run, successors := [] }
  | _, _ => blocks

/-- The blocks of `code` without successors. -/
def outline (code : Code) : Array BasicBlock :=
  (runs (.ofList (leaders code)) code.instructions).foldl (pushRun (.ofCode code)) #[]

/-! ## Edges -/

/-- The edges of jumps from `b`, where `blockAt?` finds the block that starts at an offset. -/
def jumpEdges (blockAt? : Nat → Option Nat) (b : BasicBlock) : List Edge :=
  (b.last.op.targets.filterMap blockAt?).map fun target => ⟨target, .branchTaken⟩

/-- The edge to the next of `total` blocks, if control falls through. -/
def fallthroughEdge (total : Nat) (b : BasicBlock) : List Edge :=
  if b.last.op.fallsThrough && b.id + 1 < total then [⟨b.id + 1, .fallthrough⟩] else []

/-- The edges to handlers of protected ranges that meet `b`. -/
def exceptionEdges (handlers : List (ExceptionHandler × Nat)) (b : BasicBlock) : List Edge :=
  (handlers.filter fun (h, _) => b.meets h.start h.limit).map fun (_, target) =>
    ⟨target, .exception⟩

/-- The handlers of `code` that start a block, with the number of that block. -/
def handlerBlocks (blockAt? : Nat → Option Nat) (code : Code) : List (ExceptionHandler × Nat) :=
  code.handlers.filterMap fun h => (blockAt? h.handler).map fun target => (h, target)

/-- Only the first edge to each block. -/
def firstEdges (edges : List Edge) : List Edge :=
  edges.eraseDupsBy fun a b => a.target == b.target

/-- The block with its successors. -/
def link (blockAt? : Nat → Option Nat) (total : Nat) (handlers : List (ExceptionHandler × Nat))
    (b : BasicBlock) : BasicBlock :=
  { b with successors :=
      firstEdges (jumpEdges blockAt? b ++ fallthroughEdge total b ++ exceptionEdges handlers b) }

/-- The control-flow graph of `code`. -/
def ofCode (code : Code) : FlowGraph :=
  let blocks := outline code
  let blockAt? := Search.find? BasicBlock.start blocks
  ⟨blocks.map (link blockAt? blocks.size (handlerBlocks blockAt? code))⟩

/-! ## Looking up -/

/-- The number of the block that starts at `offset`. -/
def blockAt? (g : FlowGraph) (offset : Nat) : Option Nat :=
  Search.find? BasicBlock.start g.blocks offset

/-- The number of the block with `offset` in its range. -/
def blockContaining? (g : FlowGraph) (offset : Nat) : Option Nat :=
  (Search.lastUpTo? BasicBlock.start g.blocks offset).filter fun i =>
    g.blocks[i]?.any fun b => offset < b.limit

/-- The numbers of the blocks with an edge to block `id`. -/
def predecessors (g : FlowGraph) (id : Nat) : List Nat :=
  (g.blocks.toList.filter fun b => b.successors.any (·.target == id)).map BasicBlock.id

/-- The number of edges. -/
def edgeCount (g : FlowGraph) : Nat :=
  g.blocks.foldl (fun count b => count + b.successors.length) 0

end FlowGraph

end JvmCoverage
