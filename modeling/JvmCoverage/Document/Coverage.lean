import JvmCoverage.Coverage.Diagnostic
import JvmCoverage.Coverage.Report
import JvmCoverage.Document.Basic
import JvmCoverage.Policy.Basic

/-!
# Documents about coverage

How records, reports, diagnostics and policies are written as documents.  Fields stand in the
order in which the types list them.
-/

namespace JvmCoverage

/-! ## Records -/

/-- The document of an identity. -/
def ClassIdentity.toDocument (identity : ClassIdentity) : Document :=
  .record [("name", .text identity.name), ("digest", .number identity.digest.toNat)]

/-- The fields that tell a status; a failure tells its reason. -/
def MethodStatus.fields : MethodStatus → List (String × Document)
  | .failed kind reason =>
    [("status", .text "failed"), ("kind", .text kind.name), ("reason", .text reason)]
  | status => [("status", .text status.name)]

/-- The document of a method record. -/
def MethodRecord.toDocument (m : MethodRecord) : Document :=
  .record [("name", .text m.name), ("descriptor", .text m.descriptor),
    ("status", .record m.status.fields)]

/-- The document of a probe record. -/
def ProbeRecord.toDocument (p : ProbeRecord) : Document :=
  .record [("probe", .number p.probe), ("method", .number p.method), ("block", .number p.block),
    ("terminator", .text p.terminator.name), ("lines", .list (p.lines.map .number16))]

/-- The document of a branch. -/
def BranchSite.toDocument (b : BranchSite) : Document :=
  .record [("method", .number b.method), ("offset", .number b.offset),
    ("line", .optional .number16 b.line), ("successors", .list (b.successors.map .number))]

/-- The document of a class record. -/
def ClassRecord.toDocument (r : ClassRecord) : Document :=
  .record [("identity", r.identity.toDocument), ("source_file", .optional .text r.sourceFile),
    ("methods", .list (r.methods.map MethodRecord.toDocument)),
    ("probes", .list (r.probes.map ProbeRecord.toDocument)),
    ("branches", .list (r.branches.map BranchSite.toDocument))]

/-! ## Reports -/

/-- The document of the coverage of a line. -/
def LineCoverage.toDocument (l : LineCoverage) : Document :=
  .record [("hits", .number l.hits), ("status", .text l.status.name),
    ("probes_hit", .number l.probesHit), ("probes_total", .number l.probesTotal),
    ("branches_covered", .number l.branchesCovered), ("branches_total", .number l.branchesTotal)]

/-- The document of the coverage of a branch. -/
def BranchCoverage.toDocument (b : BranchCoverage) : Document :=
  .record [("line", .optional .number16 b.line), ("offset", .number b.offset),
    ("covered", .number b.covered), ("total", .number b.total)]

/-- The document of the coverage of a method. -/
def MethodCoverage.toDocument (m : MethodCoverage) : Document :=
  .record ([("name", .text m.name), ("descriptor", .text m.descriptor)] ++ m.status.fields
    ++ [("lines", .record (m.lines.map fun (line, l) => (toString line, l.toDocument))),
      ("branches", .list (m.branches.map BranchCoverage.toDocument)),
      ("probes_hit", .number m.probesHit), ("probes_total", .number m.probesTotal)])

/-- The document of the coverage of a class. -/
def ClassCoverage.toDocument (c : ClassCoverage) : Document :=
  .record [("name", .text c.identity.name), ("digest", .number c.identity.digest.toNat),
    ("source_file", .optional .text c.sourceFile), ("executed", .flag c.executed),
    ("methods", .list (c.methods.map MethodCoverage.toDocument))]

/-- The document of the totals. -/
def CoverageSummary.toDocument (s : CoverageSummary) : Document :=
  .record [("classes", .number s.classes), ("executed_classes", .number s.executedClasses),
    ("methods", .number s.methods), ("instrumented_methods", .number s.instrumentedMethods),
    ("lines_total", .number s.linesTotal), ("lines_covered", .number s.linesCovered),
    ("lines_partial", .number s.linesPartial), ("branches_total", .number s.branchesTotal),
    ("branches_covered", .number s.branchesCovered), ("probes_total", .number s.probesTotal),
    ("probes_hit", .number s.probesHit), ("coverage_percent", .share s.percent)]

/-- The document of a report. -/
def CoverageReport.toDocument (r : CoverageReport) : Document :=
  .record [("classes", .record (r.classes.map fun (key, c) => (key, c.toDocument))),
    ("summary", r.summary.toDocument)]

/-! ## Diagnostics and policies -/

/-- The document of a diagnostic. -/
def Diagnostic.toDocument (d : Diagnostic) : Document :=
  .record [("class", .text d.className), ("method", .optional .text d.method),
    ("kind", .optional (fun kind => .text kind.name) d.kind), ("message", .text d.message),
    ("action", .text d.action.name)]

/-- The document of a bridge. -/
def Bridge.toDocument (b : Bridge) : Document :=
  .record [("owner", .text b.owner), ("name", .text b.name), ("descriptor", .text b.descriptor)]

/-- The document of a policy. -/
def Policy.toDocument (p : Policy) : Document :=
  .record [("granularity", .text p.granularity.name),
    ("excluded_methods", .list (p.excludedMethods.map .text)),
    ("skip_annotation", .optional .text p.skipAnnotation), ("bridge", p.bridge.toDocument),
    ("self_check", .flag p.selfCheck)]

end JvmCoverage
