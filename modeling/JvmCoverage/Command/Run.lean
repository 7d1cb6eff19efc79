import JvmCoverage.Command.Arguments
import JvmCoverage.Command.Files
import JvmCoverage.Command.Inspect
import JvmCoverage.Command.Path
import JvmCoverage.Command.Verify
import JvmCoverage.Policy.Reader

/-!
# Running the program

`Command.run` carries out the arguments of the program on a file system and says what is printed
and how the program ends.
-/

namespace JvmCoverage

/-- How the program ends. -/
structure Outcome where
  exitCode : Nat := 0
  /-- What is printed. -/
  output : String := ""
  /-- What is printed about an error. -/
  error : Option String := none
  deriving DecidableEq

namespace Command

/-- The name and the version of the program. -/
def version : String := "bytecov 0.4.0\n"

/-- How the program is called. -/
def usage : String :=
  "Usage: bytecov [-v] [-q] [--config FILE] <instrument|inspect|verify> ...\n"

variable {m : Type → Type} [Monad m]

/-- A computation that uses files and prints, and may fail after having printed. -/
abbrev Running (m : Type → Type) (α : Type) := ExceptT CommandError (StateT String m) α

/-- Prints a text. -/
def print (text : String) : Running m Unit :=
  modify (· ++ text)

/-- Does something with files. -/
def withFiles {α : Type} (answer : m α) : Running m α :=
  ExceptT.lift (StateT.lift answer)

/-- What a file operation gives. -/
def ask {α : Type} (answer : m (Except FileError α)) : Running m α := do
  match ← withFiles answer with
  | .ok a => return a
  | .error e => throw (.file e)

/-- The policy in a file. -/
def readPolicy (files : Files m) (path : String) : Running m Policy := do
  match ← withFiles (files.read path) with
  | .error e => throw (.policy path (.unreadable e))
  | .ok bytes =>
    match Text.Utf8.decode? bytes with
    | none => throw (.policy path (.unreadable .notText))
    | some source =>
      match Policy.parse? source with
      | some policy => return policy
      | none => throw (.policy path .malformed)

/-- The policy in the file named on the command line, or the usual one. -/
def policyFor (files : Files m) (common : Arguments.Common) : Running m Policy :=
  match common.policyFile with
  | some path => readPolicy files path
  | none => return {}

/-- Carries out `instrument`. -/
def instrument (files : Files m) (verbosity : Verbosity) (policy : Policy) (input : String)
    (args : Arguments.Instrument) : Running m Unit := do
  let output := args.output.getD (Path.instrumented input)
  let bytes ← ask (files.read input)
  let result ← MonadExcept.ofExcept (Instrumented.ofBytes (args.changes.apply policy) bytes)
  ask (files.write output result.bytes)
  match args.metadata, result.record with
  | some path, some record =>
    ask (files.write path (Text.Utf8.encode record.toDocument.pretty))
  | _, _ => pure ()
  let summary := InstrumentSummary.of result output
  if args.json then print (summary.toDocument.pretty ++ "\n")
  else if !verbosity.isQuiet then print summary.text

/-- Carries out `inspect`. -/
def inspect (files : Files m) (policy : Policy) (input : String) (args : Arguments.Inspect) :
    Running m Unit := do
  let bytes ← ask (files.read input)
  let c ← MonadExcept.ofExcept ((ClassFile.read bytes).mapError CommandError.decode)
  let policy := { policy with granularity := args.granularity.getD policy.granularity }
  let all ← MonadExcept.ofExcept ((ClassInspection.of policy c).mapError CommandError.instrument)
  let inspection := match args.method with
    | some name => all.only name
    | none => all
  match args.format.getD .text with
  | .text => print inspection.text
  | .json => print (inspection.toDocument.pretty ++ "\n")

/-- The files that an argument of `verify` names: the class files in a directory, in order, or
the file itself. -/
def expand (files : Files m) (input : String) : Running m (List String) := do
  if ← withFiles (files.isDirectory input) then
    let names ← ask (files.names input)
    let classFiles := names.filter Path.isClassFile
    return (classFiles.mergeSort (· ≤ ·)).map (Path.join input)
  else
    return [input]

/-- Verifies one file. -/
def verifyFile (files : Files m) (policy : Policy) (path : String) :
    Running m (Except CommandError Verified) := do
  match ← withFiles (files.read path) with
  | .ok bytes => return Verified.ofBytes policy bytes
  | .error e => return .error (.file e)

/-- Verifies files and gives the numbers of those that failed and of those looked at. -/
def verifyAll (files : Files m) (verbosity : Verbosity) (policy : Policy) (failFast : Bool)
    (failed checked : Nat) : List String → Running m (Nat × Nat)
  | [] => return (failed, checked)
  | path :: rest => do
    match ← verifyFile files policy path with
    | .ok verified =>
      if !verbosity.isQuiet then print (verified.line path)
      verifyAll files verbosity policy failFast failed (checked + 1) rest
    | .error e =>
      print (Verified.failureLine path e)
      if failFast then return (failed + 1, checked + 1)
      verifyAll files verbosity policy failFast (failed + 1) (checked + 1) rest

/-- Carries out `verify`. -/
def verify (files : Files m) (verbosity : Verbosity) (policy : Policy)
    (args : Arguments.Verify) : Running m Unit := do
  let inputs ← args.inputs.mapM (expand files)
  let (failed, checked) ←
    verifyAll files verbosity policy args.failFast 0 0 inputs.flatten
  if 0 < failed then throw (.verification (.failures failed checked))
  if !verbosity.isQuiet then print s!"{checked} files verified\n"

/-- Carries out an action. -/
def perform (files : Files m) (common : Arguments.Common) (action : Arguments.Action) :
    Running m Unit := do
  let policy ← policyFor files common
  let verbosity := Verbosity.ofFlags common.verbose common.quiet
  match action with
  | .instrument input args => instrument files verbosity policy input args
  | .inspect input args => inspect files policy input args
  | .verify args => verify files verbosity policy args

/-- The exit code of a command that failed. -/
def failureCode : Nat := 1

/-- The exit code for arguments that make no sense. -/
def misuseCode : Nat := 2

/-- Runs the program. -/
def run (files : Files m) (args : List String) : m Outcome := do
  match Arguments.parse args with
  | .error .version => return { output := version }
  | .error .help => return { output := usage }
  | .error .misuse => return { exitCode := misuseCode, error := some usage }
  | .ok (common, action) =>
    match ← ((perform files common action).run.run "" : m _) with
    | (.ok (), output) => return { output }
    | (.error e, output) =>
      return { exitCode := failureCode, output, error := some s!"Error: {e.message}\n" }

end Command

end JvmCoverage
