import JvmCoverage.Coverage.Report
import JvmCoverage.Coverage.Store

/-!
# Reading counters as coverage

`CoverageReport.aggregate` puts the records of classes and their counters together.  A probe
counts for every line that it accounts for, and a branch counts for its own line.
-/

namespace JvmCoverage

/-- What is known about a line. -/
structure LineTally where
  hits : Nat := 0
  probesHit : Nat := 0
  probesTotal : Nat := 0
  branchesCovered : Nat := 0
  branchesTotal : Nat := 0
  deriving DecidableEq

namespace LineTally

/-- What is known from two sources. -/
def add (a b : LineTally) : LineTally where
  hits := max a.hits b.hits
  probesHit := a.probesHit + b.probesHit
  probesTotal := a.probesTotal + b.probesTotal
  branchesCovered := a.branchesCovered + b.branchesCovered
  branchesTotal := a.branchesTotal + b.branchesTotal

/-- What a probe with the given count says about its lines. -/
def ofProbe (hits : Nat) : LineTally where
  hits
  probesHit := if 0 < hits then 1 else 0
  probesTotal := 1

/-- What a branch says about its line. -/
def ofBranch (branch : BranchCoverage) : LineTally where
  branchesCovered := branch.covered
  branchesTotal := branch.total

/-- The coverage of a line. -/
def coverage (t : LineTally) : LineCoverage where
  hits := t.hits
  status := .of t.probesHit t.probesTotal t.branchesCovered t.branchesTotal
  probesHit := t.probesHit
  probesTotal := t.probesTotal
  branchesCovered := t.branchesCovered
  branchesTotal := t.branchesTotal

/-- The tally of one line from the tallies about it. -/
def total (tallies : List (UInt16 × LineTally)) : Option (UInt16 × LineTally) :=
  match tallies with
  | [] => none
  | (line, first) :: rest => some (line, rest.foldl (fun t entry => t.add entry.2) first)

/-- The tallies of all lines, in ascending order of lines. -/
def byLine (tallies : List (UInt16 × LineTally)) : List (UInt16 × LineTally) :=
  let sorted := tallies.mergeSort fun a b => a.1 ≤ b.1
  (sorted.splitBy fun a b => a.1 == b.1).filterMap total

end LineTally

namespace ClassRecord

/-- The count of a probe in the counters of its class. -/
def countOf (counts : Array UInt64) (probe : Nat) : Nat :=
  (counts[probe]?.getD 0).toNat

/-- The outcomes of a branch. -/
def branchCoverage (counts : Array UInt64) (site : BranchSite) : BranchCoverage where
  line := site.line
  offset := site.offset
  covered := site.successors.countP fun probe => 0 < countOf counts probe
  total := site.successors.length

/-- What the probes of a method say about lines. -/
def probeTallies (counts : Array UInt64) (probes : List ProbeRecord) :
    List (UInt16 × LineTally) :=
  probes.flatMap fun p => p.lines.map fun line => (line, .ofProbe (countOf counts p.probe))

/-- What the branches of a method say about lines. -/
def branchTallies (branches : List BranchCoverage) : List (UInt16 × LineTally) :=
  branches.filterMap fun b => b.line.map fun line => (line, .ofBranch b)

/-- The coverage of the method at position `index`. -/
def methodCoverage (r : ClassRecord) (counts : Array UInt64) (index : Nat) (m : MethodRecord) :
    MethodCoverage :=
  let probes := r.methodProbes index
  let branches := (r.branches.filter (·.method == index)).map (branchCoverage counts)
  let tallies := LineTally.byLine (probeTallies counts probes ++ branchTallies branches)
  { name := m.name
    descriptor := m.descriptor
    status := m.status
    lines := tallies.map fun (line, tally) => (line, tally.coverage)
    branches
    probesHit := probes.countP fun p => 0 < countOf counts p.probe
    probesTotal := probes.length }

/-- The coverage of a class with the given counters. -/
def coverage (r : ClassRecord) (counts : Array UInt64) : ClassCoverage where
  identity := r.identity
  sourceFile := r.sourceFile
  executed := counts.any (0 < ·)
  methods := r.methods.mapIdx (r.methodCoverage counts)

end ClassRecord

namespace CoverageReport

/-- The counters of a class; none if it has no segment. -/
def countsFor (segments : List Segment) (identity : ClassIdentity) : Array UInt64 :=
  ((segments.find? (·.identity == identity)).map Segment.counts).getD #[]

/-- The report on the classes in `records` with the counters in `segments`.  A class without a
segment has not run. -/
def aggregate (records : List ClassRecord) (segments : List Segment) : CoverageReport :=
  .ofClasses (records.map fun r => r.coverage (countsFor segments r.identity))

end CoverageReport

end JvmCoverage
