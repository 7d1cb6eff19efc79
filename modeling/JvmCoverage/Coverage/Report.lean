import JvmCoverage.Coverage.Record
import JvmCoverage.Ordered

/-!
# Coverage reports

A report lists classes, their methods, and the lines and branches of the methods.  Everything is
in a fixed order, so the same coverage gives the same report.
-/

namespace JvmCoverage

/-- How much of a line was reached. -/
inductive LineStatus where
  | covered
  | partiallyCovered
  | missed
  deriving DecidableEq

namespace LineStatus

/-- The name of a status. -/
def name : LineStatus → String
  | covered => "covered"
  | partiallyCovered => "partially_covered"
  | missed => "missed"

/-- The status of a line from its probes and the outcomes of its branches. -/
def of (probesHit probesTotal branchesCovered branchesTotal : Nat) : LineStatus :=
  if probesHit = 0 ∧ branchesCovered = 0 then missed
  else if probesHit = probesTotal ∧ branchesCovered = branchesTotal then covered
  else partiallyCovered

end LineStatus

/-- The coverage of a line. -/
structure LineCoverage where
  /-- The highest count among the probes of the line. -/
  hits : Nat
  status : LineStatus
  probesHit : Nat
  probesTotal : Nat
  branchesCovered : Nat
  branchesTotal : Nat
  deriving DecidableEq

/-- The outcomes of a branch. -/
structure BranchCoverage where
  line : Option UInt16
  offset : Nat
  covered : Nat
  total : Nat
  deriving DecidableEq

/-- The coverage of a method. -/
structure MethodCoverage where
  name : String
  descriptor : String
  status : MethodStatus
  /-- The lines in ascending order. -/
  lines : List (UInt16 × LineCoverage)
  /-- The branches in code order. -/
  branches : List BranchCoverage
  probesHit : Nat
  probesTotal : Nat
  deriving DecidableEq

namespace MethodCoverage

/-- The coverage of a line of the method. -/
def line? (m : MethodCoverage) (line : UInt16) : Option LineCoverage :=
  Ordered.lookup line m.lines

/-- Whether some probe of the method has run. -/
def executed (m : MethodCoverage) : Bool := 0 < m.probesHit

end MethodCoverage

/-- The coverage of one version of a class. -/
structure ClassCoverage where
  identity : ClassIdentity
  sourceFile : Option String
  /-- Whether some probe of the class has run. -/
  executed : Bool
  /-- The declared methods in order. -/
  methods : List MethodCoverage
  deriving DecidableEq

namespace ClassCoverage

/-- The first method called `name`. -/
def method? (c : ClassCoverage) (name : String) : Option MethodCoverage :=
  c.methods.find? (·.name == name)

end ClassCoverage

/-- Totals over a report. -/
structure CoverageSummary where
  classes : Nat
  executedClasses : Nat
  methods : Nat
  instrumentedMethods : Nat
  linesTotal : Nat
  linesCovered : Nat
  linesPartial : Nat
  branchesTotal : Nat
  branchesCovered : Nat
  probesTotal : Nat
  probesHit : Nat
  deriving DecidableEq

namespace CoverageSummary

/-- The sum of `f` over `members`. -/
def total {α : Type} (f : α → Nat) (members : List α) : Nat :=
  members.foldl (fun sum a => sum + f a) 0

/-- The totals over `classes`. -/
def ofClasses (classes : List ClassCoverage) : CoverageSummary :=
  let methods := classes.flatMap ClassCoverage.methods
  let lines := methods.flatMap fun m => m.lines.map (·.2.status)
  let branches := methods.flatMap MethodCoverage.branches
  { classes := classes.length
    executedClasses := classes.countP ClassCoverage.executed
    methods := methods.length
    instrumentedMethods := methods.countP (·.status == .instrumented)
    linesTotal := lines.length
    linesCovered := lines.count .covered
    linesPartial := lines.count .partiallyCovered
    branchesTotal := total BranchCoverage.total branches
    branchesCovered := total BranchCoverage.covered branches
    probesTotal := total MethodCoverage.probesTotal methods
    probesHit := total MethodCoverage.probesHit methods }

/-- The share of lines that were reached at least partially, in percent; all of them when there
are none. -/
def percent (s : CoverageSummary) : Float :=
  if s.linesTotal = 0 then 100.0
  else Float.ofNat (s.linesCovered + s.linesPartial) / Float.ofNat s.linesTotal * 100.0

end CoverageSummary

/-- The coverage of all classes. -/
structure CoverageReport where
  /-- The classes in the order of their keys. -/
  classes : List (String × ClassCoverage)
  deriving DecidableEq

namespace CoverageReport

/-- The order of keys. -/
def precedes (a b : String) : Bool := a < b

/-- The key for one more class: its name, or its name with the digest when the name is taken. -/
def keyFor (classes : List (String × ClassCoverage)) (c : ClassCoverage) : String :=
  if (Ordered.lookup c.identity.name classes).isSome then c.identity.text else c.identity.name

/-- The classes with one more. -/
def add (classes : List (String × ClassCoverage)) (c : ClassCoverage) :
    List (String × ClassCoverage) :=
  Ordered.insert precedes (keyFor classes c) c classes

/-- The report on `classes`. -/
def ofClasses (classes : List ClassCoverage) : CoverageReport :=
  ⟨classes.foldl add []⟩

/-- The totals. -/
def summary (r : CoverageReport) : CoverageSummary :=
  .ofClasses (r.classes.map (·.2))

/-- The class with the given key. -/
def class? (r : CoverageReport) (key : String) : Option ClassCoverage :=
  Ordered.lookup key r.classes

/-- The names of classes of which some probe has run, in order and without repetition. -/
def executedClasses (r : CoverageReport) : List String :=
  let names := (r.classes.filter (·.2.executed)).map (·.2.identity.name)
  (names.mergeSort (· ≤ ·)).eraseReps

end CoverageReport

end JvmCoverage
