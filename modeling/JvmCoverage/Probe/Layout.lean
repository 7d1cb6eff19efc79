import JvmCoverage.ClassFile.Code
import JvmCoverage.Probe.Sequence

/-!
# The layout of probed code

Probes are put in front of some instructions of a method body, which moves everything behind
them.  A `Layout` tells where each instruction comes to stand.  A `goto` or `jsr` whose target
has moved out of the reach of a two-byte distance is widened, which moves the code behind it
again, until every jump reaches its target.
-/

namespace JvmCoverage

/-- An instruction with what is decided about it. -/
structure Site where
  insn : Instruction
  /-- The probe in front of the instruction. -/
  probe : Option Nat
  /-- Whether the instruction is a jump that takes its form with a four-byte distance. -/
  widened : Bool := false
  deriving DecidableEq

namespace Site

/-- The number of bytes of a jump with a four-byte distance. -/
def widenedSize : Nat := 5

/-- The offset of the instruction before. -/
def old (site : Site) : Nat := site.insn.offset

/-- The number of bytes in front of the instruction. -/
def lead (site : Site) : Nat :=
  if site.probe.isSome then Probe.length else 0

/-- The offset of the instruction when control enters at `label`. -/
def position (site : Site) (label : Nat) : Nat := label + site.lead

/-- The number of bytes the instruction takes at `position`. -/
def size (site : Site) (position : Nat) : Nat :=
  if site.widened then widenedSize else site.insn.op.size position

/-- The offset behind the instruction when control enters at `label`. -/
def limit (site : Site) (label : Nat) : Nat :=
  site.position label + site.size (site.position label)

end Site

/-- The offsets of a method body with probes. -/
structure Layout where
  /-- The instructions, in order. -/
  sites : Array Site
  /-- The offsets at which control enters the instructions: those of their probes, if they have
  one. -/
  labels : Array Nat
  /-- The length of the code before. -/
  oldLength : Nat
  /-- The length of the code with probes. -/
  length : Nat
  deriving DecidableEq

namespace Layout

/-! ## Places -/

/-- The labels of some instructions and the offset behind the last of them, with one more
instruction. -/
def place (laid : Array Nat × Nat) (site : Site) : Array Nat × Nat :=
  (laid.1.push laid.2, site.limit laid.2)

/-- The layout of instructions one behind the other. -/
def ofSites (oldLength : Nat) (sites : Array Site) : Layout :=
  let (labels, length) := sites.foldl place (#[], 0)
  { sites, labels, oldLength, length }

/-- The index of the instruction at the old offset `old`. -/
def index? (layout : Layout) (old : Nat) : Option Nat :=
  Search.find? Site.old layout.sites old

/-- The offset that control going to `old` goes to. -/
def label? (layout : Layout) (old : Nat) : Option Nat :=
  (layout.index? old).bind fun i => layout.labels[i]?

/-- The offset of the instruction that was at `old`. -/
def position? (layout : Layout) (old : Nat) : Option Nat :=
  (layout.index? old).bind fun i =>
    (layout.sites[i]?).bind fun site => (layout.labels[i]?).map site.position

/-- The offset that a range of code up to `old` goes up to. -/
def limit? (layout : Layout) (old : Nat) : Option Nat :=
  if old = layout.oldLength then some layout.length else layout.label? old

/-- The number of jumps that are widened. -/
def widenedCount (layout : Layout) : Nat :=
  layout.sites.countP Site.widened

/-! ## Widening -/

/-- Whether a two-byte distance leads from `position` to `target`. -/
def reaches (position target : Nat) : Bool :=
  target ≤ position + 32767 && position ≤ target + 32768

/-- Fails for the branch at a place of the layout, or tells whether it has to be widened. -/
def needsWidening (layout : Layout) (location : String) (site : Site) (opcode : Opcode)
    (target position : Nat) : Except InstrumentError Bool :=
  match layout.label? target with
  | none => .error (.encode (.unknownBranchTarget location target))
  | some label =>
    if reaches position label then .ok false
    else if opcode.isGoto || opcode.isJsr then .ok true
    else .error (.unsupported location (.shortBranch opcode site.insn.offset))

/-- The decisions about the instruction with index `i` after a look at its place. -/
def revise (layout : Layout) (location : String) (i : Nat) (site : Site) :
    Except InstrumentError Site :=
  match site.insn.op with
  | .branch opcode target =>
    if site.widened || opcode.isWideBranch then .ok site
    else
      let position := site.position (layout.labels[i]?.getD 0)
      (layout.needsWidening location site opcode target position).map fun widen =>
        { site with widened := widen }
  | _ => .ok site

/-- The decisions about all instructions after a look at the layout. -/
def reviseAll (layout : Layout) (location : String) : Except InstrumentError (Array Site) :=
  layout.sites.mapIdxM (layout.revise location)

/-- The number of instructions in their first form. -/
def unwidened (sites : Array Site) : Nat :=
  sites.countP fun site => !site.widened

/-- The layout of `sites` once no more jumps have to be widened. -/
def widen (location : String) (oldLength : Nat) (sites : Array Site) :
    Except InstrumentError Layout :=
  let layout := ofSites oldLength sites
  if CodeArray.maxLength < layout.length then
    .error (.capacity .instrumentedLength layout.length CodeArray.maxLength)
  else
    match layout.reviseAll location with
    | .error e => .error e
    | .ok revised =>
      if unwidened revised < unwidened sites then widen location oldLength revised
      else .ok layout
termination_by unwidened sites

/-- The layout of `code` with the probe `probeAt i` in front of the instruction at position `i`.
Fails when the code grows too long, or when a conditional branch no longer reaches its
target. -/
def compute (code : Code) (probeAt : Nat → Option Nat) (location : String) :
    Except InstrumentError Layout :=
  let sites := code.instructions.mapIdx fun i insn => { insn, probe := probeAt i : Site }
  widen location code.length sites.toArray

end Layout

end JvmCoverage
