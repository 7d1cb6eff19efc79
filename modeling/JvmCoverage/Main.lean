import JvmCoverage.Command.Run

/-!
# The program

Runs `Command.run` on the files of the machine.
-/

namespace JvmCoverage

/-- The error with a number, which comes as it is or negated. -/
def FileError.ofCode (code : UInt32) : FileError :=
  match (min code (0 - code)).toNat with
  | 2 => .notFound
  | 13 => .denied
  | 20 => .notDirectory
  | 21 => .isDirectory
  | 36 => .nameTooLong
  | number => .numbered number

/-- Why a file operation of the machine failed. -/
def FileError.ofMachine : IO.Error → FileError
  | .noFileOrDirectory .. => .notFound
  | .permissionDenied .. => .denied
  | .inappropriateType _ code _ | .invalidArgument _ code _ | .resourceExhausted _ code _
  | .hardwareFault code _ | .otherError code _ => ofCode code
  | _ => .numbered 5

/-- What a file operation of the machine gives. -/
def attempt {α : Type} (operation : IO α) : IO (Except FileError α) := do
  match ← operation.toBaseIO with
  | .ok a => return .ok a
  | .error e => return .error (.ofMachine e)

/-- The files of the machine. -/
def machineFiles : Files IO where
  read path := attempt do
    return (← IO.FS.readBinFile path).data.toList
  write path bytes := attempt (IO.FS.writeBinFile path ⟨bytes.toArray⟩)
  isDirectory path := do
    return ← ((← IO.currentDir) / path).isDir
  names path := attempt do
    let entries ← ((← IO.currentDir) / path).readDir
    return entries.toList.map fun entry => entry.fileName

end JvmCoverage

/-- Runs the program with the given arguments. -/
def main (args : List String) : IO UInt32 := do
  let outcome ← JvmCoverage.Command.run JvmCoverage.machineFiles args
  IO.print outcome.output
  match outcome.error with
  | some text => IO.eprint text
  | none => pure ()
  return UInt32.ofNat outcome.exitCode
