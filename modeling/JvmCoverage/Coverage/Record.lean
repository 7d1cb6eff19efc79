import JvmCoverage.Coverage.Identity
import JvmCoverage.Error.Instrument
import JvmCoverage.Flow.Block

/-!
# What the probes of a class stand for

A `ClassRecord` says for every probe of a class which block it counts and which lines that block
accounts for, so that counters can be read as coverage later.
-/

namespace JvmCoverage

/-- What became of a method. -/
inductive MethodStatus where
  | instrumented
  /-- The method is abstract or native. -/
  | noCode
  /-- The method was made by the compiler. -/
  | synthetic
  /-- The policy excludes the name. -/
  | excluded
  /-- The method carries the annotation that opts out. -/
  | skipAnnotated
  /-- The method could not be instrumented. -/
  | failed (kind : ErrorKind) (reason : String)
  deriving DecidableEq

namespace MethodStatus

/-- The status of a method that `error` keeps from being instrumented. -/
def ofError (error : InstrumentError) : MethodStatus :=
  failed error.kind error.message

/-- The name of a status. -/
def name : MethodStatus → String
  | instrumented => "instrumented"
  | noCode => "no_code"
  | synthetic => "synthetic"
  | excluded => "excluded"
  | skipAnnotated => "skip_annotated"
  | failed _ _ => "failed"

end MethodStatus

/-- A declared method and what became of it. -/
structure MethodRecord where
  name : String
  descriptor : String
  status : MethodStatus
  deriving DecidableEq

/-- A probe and the code it counts. -/
structure ProbeRecord where
  probe : Nat
  /-- The position of the method in the class. -/
  method : Nat
  /-- The block that the probe stands in front of. -/
  block : Nat
  terminator : Terminator
  /-- The lines that the probe accounts for. -/
  lines : List UInt16
  deriving DecidableEq

/-- A branch whose outcomes are counted by the probes of the blocks it leads to. -/
structure BranchSite where
  /-- The position of the method in the class. -/
  method : Nat
  /-- The offset of the branch before probes are put in. -/
  offset : Nat
  line : Option UInt16
  /-- The probes of the blocks that the branch chooses from. -/
  successors : List Nat
  deriving DecidableEq

/-- Everything needed to read the counters of one class. -/
structure ClassRecord where
  identity : ClassIdentity
  sourceFile : Option String
  /-- The declared methods in order. -/
  methods : List MethodRecord
  /-- The probes in the order of their counters. -/
  probes : List ProbeRecord
  branches : List BranchSite
  deriving DecidableEq

namespace ClassRecord

/-- The number of counters of the class. -/
def probeCount (r : ClassRecord) : Nat := r.probes.length

/-- The probes in the method at position `method`. -/
def methodProbes (r : ClassRecord) (method : Nat) : List ProbeRecord :=
  r.probes.filter (·.method == method)

end ClassRecord

end JvmCoverage
