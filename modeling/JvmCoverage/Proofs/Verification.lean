import JvmCoverage.Command.Verify
import JvmCoverage.Proofs.Class

/-!
# Verifying is instrumenting with the check on

Writing and reading a class again never fails for a class that was read
(`Verified.checkStable_eq_ok`), so that what can go wrong in `Verified.ofBytes` is what can go wrong
in `Instrumented.ofBytes` with the check on (`Verified.agrees_ofBytes`).
-/

namespace JvmCoverage

namespace Verified

/-- Whether a class is verified as it is instrumented: both fail with the same error, which does not
come from comparing the class with what is read again, or both pass with the same number of
probes. -/
inductive Agrees (output : String) :
    Except CommandError Verified → Except CommandError Instrumented → Prop where
  | failed {e : CommandError} (hverification : ∀ fault, e ≠ .verification fault) :
    Agrees output (.error e) (.error e)
  | passed {v : Verified} {result : Instrumented}
    (hprobes : v.probes = (InstrumentSummary.of result output).probes) :
    Agrees output (.ok v) (.ok result)

/-- A class that was read stays as it is when it is written and read again. -/
theorem checkStable_eq_ok {bytes : List UInt8} {c : ClassFile} (h : ClassFile.read bytes = .ok c) :
  checkStable c = .ok ()
  := by
  obtain ⟨hc, -⟩ := ClassFile.wellFormed_of_read h
  have hread := (ClassFile.read_form_iff hc).mpr (ClassFile.lengthsFit_of_read h)
  simp only [checkStable, ClassFile.toBytes_eq hc, hread, if_true]

/-- A class is verified as it is instrumented with the check on. -/
theorem agrees_ofBytes (policy : Policy) (bytes : List UInt8) (output : String) :
  Agrees output (ofBytes policy bytes)
    (Instrumented.ofBytes { policy with selfCheck := true } bytes)
  := by
  rw [ofBytes, Instrumented.ofBytes]
  cases hread : ClassFile.read bytes with
  | error e => exact .failed fun _ => CommandError.noConfusion
  | ok c =>
    simp only [checkStable_eq_ok hread, Except.bind, bind]
    cases (Instrumented.agentFor { policy with selfCheck := true }).tryTransform c.name bytes with
    | mk answer agent =>
      cases answer with
      | error e => exact .failed fun _ => CommandError.noConfusion
      | ok out => exact .passed rfl

end Verified

end JvmCoverage
