import JvmCoverage.Error.Instrument

/-!
# Why a command fails

`CommandError` lists the causes, with `FileError` for what the file system refuses.
-/

namespace JvmCoverage

/-- Why a file cannot be read or written. -/
inductive FileError where
  | notFound
  | denied
  | notDirectory
  | isDirectory
  /-- A name or the whole path has too many bytes. -/
  | nameTooLong
  /-- The content is no text. -/
  | notText
  | numbered (code : Nat)
  deriving DecidableEq

namespace FileError

/-- A description with the number of the error. -/
def describe (description : String) (code : Nat) : String :=
  s!"{description} (os error {code})"

/-- The text shown for an error. -/
def message : FileError → String
  | notFound => describe "No such file or directory" 2
  | denied => describe "Permission denied" 13
  | notDirectory => describe "Not a directory" 20
  | isDirectory => describe "Is a directory" 21
  | nameTooLong => describe "File name too long" 36
  | notText => "stream did not contain valid UTF-8"
  | numbered code => describe "Unknown error" code

end FileError

/-- Why a policy file cannot be used. -/
inductive PolicyFault where
  | unreadable (error : FileError)
  /-- The text is not the JSON text of a policy. -/
  | malformed
  deriving DecidableEq

/-- Why a class does not pass, or how many did not. -/
inductive VerificationFault where
  | changes (className : String)
  | failures (failed checked : Nat)
  deriving DecidableEq

/-- Why a command fails. -/
inductive CommandError where
  | policy (path : String) (fault : PolicyFault)
  | file (error : FileError)
  | instrument (error : InstrumentError)
  | decode (error : DecodeError)
  | verification (fault : VerificationFault)
  deriving DecidableEq

namespace CommandError

/-- The text shown for a policy file. -/
def policyMessage (path : String) : PolicyFault → String
  | .unreadable error => s!"cannot read {path}: {error.message}"
  | .malformed => s!"{path}: JSON error"

/-- The text shown for a class that does not pass. -/
def verificationMessage : VerificationFault → String
  | .changes className => s!"{className} changes when re-encoded"
  | .failures failed checked => s!"{failed} of {checked} files failed"

/-- The text shown for an error. -/
def message : CommandError → String
  | policy path fault => s!"Configuration error: {policyMessage path fault}"
  | file error => s!"I/O error: {error.message}"
  | instrument error => s!"Bytecov error: {error.message}"
  | decode error => s!"Decode error: {error.message}"
  | verification fault => s!"Verification failed: {verificationMessage fault}"

end CommandError

end JvmCoverage
