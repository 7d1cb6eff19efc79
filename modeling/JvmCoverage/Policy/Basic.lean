/-!
# Instrumentation policies

A `Policy` says which methods get probes, where the probes stand and what they call.
-/

namespace JvmCoverage

/-- Where probes stand. -/
inductive Granularity where
  /-- In front of every basic block. -/
  | basicBlock
  /-- In front of the first block of every line, and of every block without a line. -/
  | line
  deriving DecidableEq

/-- The name of a granularity. -/
def Granularity.name : Granularity → String
  | basicBlock => "basic_block"
  | line => "line"

/-- The static method that a probe calls with the numbers of its segment and of its counter. -/
structure Bridge where
  owner : String := "bytecov/runtime/Probes"
  name : String := "hit"
  descriptor : String := "(II)V"
  deriving DecidableEq

/-- How classes are instrumented. -/
structure Policy where
  granularity : Granularity := .basicBlock
  /-- The names of methods that never get probes. -/
  excludedMethods : List String := ["<init>", "<clinit>"]
  /-- The type of the annotation that opts a method out. -/
  skipAnnotation : Option String := some "Lbytecov/runtime/DoNotTrack;"
  bridge : Bridge := {}
  /-- Whether every class with probes is read again before it is handed back. -/
  selfCheck : Bool := true
  deriving DecidableEq

namespace Policy

/-- Whether methods called `name` never get probes. -/
def excludes (policy : Policy) (name : String) : Bool :=
  policy.excludedMethods.contains name

/-- The policy that also excludes methods called `name`. -/
def exclude (name : String) (policy : Policy) : Policy :=
  { policy with excludedMethods := policy.excludedMethods ++ [name] }

end Policy

end JvmCoverage
