import JvmCoverage.Command.Instrument

/-!
# Inspecting one class

The control-flow graphs of the methods of a class, with the probes that a policy gives them.
-/

namespace JvmCoverage

/-- A block with its probe. -/
structure BlockView where
  block : BasicBlock
  probe : Option Nat
  deriving DecidableEq

/-- A method with its blocks. -/
structure MethodInspection where
  record : MethodRecord
  /-- The length of the code, if there is any. -/
  codeLength : Option Nat
  /-- The length of the code with its probes, if it gets any. -/
  instrumentedLength : Option Nat
  blocks : List BlockView
  deriving DecidableEq

/-- A class with its methods. -/
structure ClassInspection where
  className : String
  sourceFile : Option String
  probes : Nat
  branchSites : Nat
  methods : List MethodInspection
  deriving DecidableEq

namespace MethodInspection

/-- The blocks of a method with the given plan and body. -/
def blocksOf (planned : Option MethodPlan) (code : Option Code) : List BlockView :=
  match planned, code with
  | some planned, _ =>
    (planned.graph.blocks.toList.zip planned.blockProbes.toList).map fun (block, probe) =>
      ⟨block, probe⟩
  | none, some code => (FlowGraph.ofCode code).blocks.toList.map fun block => ⟨block, none⟩
  | none, none => []

/-- The inspection of the method at position `index`. -/
def of (c : ClassFile) (plan : ClassPlan) (index : Nat) (record : MethodRecord) :
    MethodInspection :=
  let code := c.methods[index]? >>= Method.code?
  let planned := plan.planned.find? (·.method == index)
  { record
    codeLength := code.map Code.length
    instrumentedLength := planned.map (·.layout.length)
    blocks := blocksOf planned code }

end MethodInspection

namespace ClassInspection

/-- The inspection of a class under a policy. -/
def of (policy : Policy) (c : ClassFile) : Except InstrumentError ClassInspection := do
  let plan ← ClassPlan.ofClass policy c
  return {
    className := plan.className
    sourceFile := plan.sourceFile
    probes := plan.probeCount
    branchSites := plan.branches.length
    methods := plan.methods.mapIdx (MethodInspection.of c plan) }

/-- The inspection with only the methods called `name`. -/
def only (name : String) (i : ClassInspection) : ClassInspection :=
  { i with methods := i.methods.filter (·.record.name == name) }

/-! ## Listings -/

/-- The end of the line of a block: where control goes. -/
def edgesText (edges : List Edge) : String :=
  if edges.isEmpty then ""
  else " -> " ++ String.intercalate ", " (edges.map fun e => s!"B{e.target} ({e.kind.label})")

/-- The source lines in the line of a block. -/
def linesText (lines : List UInt16) : String :=
  if lines.isEmpty then "" else " lines " ++ String.intercalate "," (lines.map toString)

/-- The line of a block. -/
def blockLine (view : BlockView) : String :=
  let b := view.block
  let probe := match view.probe with
    | some probe => s!"  P{probe}"
    | none => ""
  s!"    B{b.id} [{b.start}, {b.limit}) {b.terminator.name}" ++ linesText b.lines
    ++ edgesText b.successors ++ probe ++ "\n"

/-- The length of a method in its line. -/
def lengthText (m : MethodInspection) : String :=
  match m.codeLength, m.instrumentedLength with
  | some before, some after => s!" {before} -> {after} bytes"
  | some before, none => s!" {before} bytes"
  | none, _ => ""

/-- The lines of a method. -/
def methodLines (m : MethodInspection) : String :=
  s!"\n  {m.record.name}{m.record.descriptor} [{m.record.status.label}]" ++ lengthText m ++ "\n"
    ++ String.join (m.blocks.map blockLine)

/-- The listing of a class. -/
def text (i : ClassInspection) : String :=
  let source := match i.sourceFile with
    | some file => s!" ({file})"
    | none => ""
  s!"class {i.className}{source}: {i.probes} probes, {i.branchSites} branch sites\n"
    ++ String.join (i.methods.map methodLines)

/-! ## Documents -/

/-- The document of an edge. -/
def edgeDocument (e : Edge) : Document :=
  .record [("target", .number e.target), ("kind", .text e.kind.name)]

/-- The document of a block. -/
def blockDocument (view : BlockView) : Document :=
  let b := view.block
  .record [("id", .number b.id), ("start", .number b.start), ("end", .number b.limit),
    ("lines", .list (b.lines.map .number16)), ("terminator", .text b.terminator.name),
    ("successors", .list (b.successors.map edgeDocument)),
    ("probe", .optional .number view.probe)]

/-- The document of a method. -/
def methodDocument (m : MethodInspection) : Document :=
  .record ([("name", .text m.record.name), ("descriptor", .text m.record.descriptor)]
    ++ m.record.status.fields
    ++ [("code_length", .optional .number m.codeLength),
      ("instrumented_length", .optional .number m.instrumentedLength),
      ("blocks", .list (m.blocks.map blockDocument))])

/-- The document of a class. -/
def toDocument (i : ClassInspection) : Document :=
  .record [("class", .text i.className), ("source_file", .optional .text i.sourceFile),
    ("probes", .number i.probes), ("branch_sites", .number i.branchSites),
    ("methods", .list (i.methods.map methodDocument))]

end ClassInspection

end JvmCoverage
