import JvmCoverage.Machine.Graph
import JvmCoverage.Probe.Layout

/-!
# The layout of probed code on a machine

What is known about the instructions of a body is kept in arrays side by side: the offsets before,
the offsets at which control enters, the offsets of the instructions themselves and whether they
are widened.  What is found by the offset before is looked up by place in the others.
-/

namespace JvmCoverage.Machine

/-- The offsets of a method body with probes. -/
structure Layout where
  /-- The offsets of the instructions before. -/
  oldOffsets : List Nat
  /-- The length of the code before. -/
  oldLength : Nat
  /-- The offsets at which control enters the instructions. -/
  labels : List Nat
  /-- The offsets of the instructions. -/
  positions : List Nat
  /-- Which jumps take their form with a four-byte distance. -/
  widened : List Bool
  /-- The length of the code with probes. -/
  length : Nat

section

variable {m : Type → Type} [Monad m] [Faulting m]

namespace Layout

/-- The place of the instruction at the old offset `old`. -/
def index? (layout : Layout) (old : Nat) : Option Nat :=
  Search.find? id layout.oldOffsets.toArray old

/-- The offset that control going to `old` goes to. -/
def label? (layout : Layout) (old : Nat) : m (Option Nat) :=
  match layout.index? old with
  | some i => some <$> item layout.labels i
  | none => return none

/-- The offset that a range of code up to `old` goes up to. -/
def limit? (layout : Layout) (old : Nat) : m (Option Nat) :=
  if old = layout.oldLength then return some layout.length else layout.label? old

/-- The offset of the instruction that was at `old`. -/
def position? (layout : Layout) (old : Nat) : m (Option Nat) :=
  match layout.index? old with
  | some i => some <$> item layout.positions i
  | none => return none

end Layout

/-! ## Places -/

/-- The labels and positions of some instructions and the offset behind the last of them. -/
structure Places where
  labels : List Nat := []
  positions : List Nat := []
  offset : Nat := 0

/-- The offset of the instruction in place `i` when control enters at `label`. -/
def positionAt (probed : List Bool) (label i : Nat) : m Nat :=
  if probed[i]?.getD false then add 32 label Probe.length else return label

/-- The number of bytes the instruction in place `i` takes at `position`. -/
def sizeAt (widened : List Bool) (position : Nat) (insn : Instruction) (i : Nat) : m Nat := do
  if ← item widened i then return Site.widenedSize else size position insn.op

/-- The places with those of the instruction in place `i`. -/
def placeNext (probed widened : List Bool) (places : Places) (insn : Instruction) (i : Nat) :
    m Places := do
  let label := places.offset
  let position ← positionAt probed label i
  let size ← sizeAt widened position insn i
  let offset ← add 32 position size
  return {
    labels := places.labels ++ [label], positions := places.positions ++ [position], offset }

/-- The places of `instructions`. -/
def placesOf (probed widened : List Bool) (instructions : List Instruction) : m Places :=
  instructions.zipIdx.foldlM (fun places p => placeNext probed widened places p.1 p.2) {}

end

/-! ## Widening -/

/-- Whether the branch at a place of the layout has to be widened. -/
def needsWidening (layout : Layout) (location : String) (insn : Instruction) (i : Nat)
    (opcode : Opcode) (target : Nat) : Checked InstrumentError Bool := do
  match ← layout.label? target with
  | none => throw (.error (.encode (.unknownBranchTarget location target)))
  | some label => do
    let position ← item layout.positions i
    let distance ← signed 64 (label - position)
    if -32768 ≤ distance ∧ distance ≤ 32767 then return false
    else if opcode.isGoto || opcode.isJsr then return true
    else throw (.error (.unsupported location (.shortBranch opcode insn.offset)))

/-- Which jumps are widened and whether that has changed, after a look at the instruction in place
`i`. -/
def reviseNext (layout : Layout) (location : String) (state : List Bool × Bool)
    (insn : Instruction) (i : Nat) : Checked InstrumentError (List Bool × Bool) :=
  match insn.op with
  | .branch opcode target => do
    if (← item state.1 i) || opcode.isWideBranch then return state
    else if ← needsWidening layout location insn i opcode target then
      let widened ← update state.1 i true
      return (widened, true)
    else return state
  | _ => return state

/-- The layout of `code` once no more jumps have to be widened, which takes at most `rounds`
rounds. -/
def widen (code : Code) (probed : List Bool) (location : String) :
    (rounds : Nat) → (widened : List Bool) → Checked InstrumentError Layout
  | 0, _ => fault .endless
  | rounds + 1, widened => do
    let places ← placesOf probed widened code.instructions
    if CodeArray.maxLength < places.offset then
      throw (.error (.capacity .instrumentedLength places.offset CodeArray.maxLength))
    else
      let oldLength ← codeLength code
      let layout : Layout := {
        oldOffsets := code.instructions.map Instruction.offset, oldLength,
        labels := places.labels, positions := places.positions, widened, length := places.offset }
      let (revised, changed) ← code.instructions.zipIdx.foldlM
        (fun state p => reviseNext layout location state p.1 p.2) (widened, false)
      if changed then widen code probed location rounds revised else return layout

/-- The layout of `code` with probes in front of the instructions flagged in `probed`. -/
def compute (code : Code) (probed : List Bool) (location : String) :
    Checked InstrumentError Layout :=
  widen code probed location (code.instructions.length + 1)
    (.replicate code.instructions.length false)

end JvmCoverage.Machine
