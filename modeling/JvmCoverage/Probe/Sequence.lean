import JvmCoverage.ClassFile.ConstantPool
import JvmCoverage.ClassFile.Instruction

/-!
# Probes

A probe is a sequence of three instructions that pushes the number of a counter segment and the
number of a counter and calls a static method with both.  All probes take the same number of
bytes, so the layout of probed code depends on neither number.
-/

namespace JvmCoverage.Probe

/-- The number of bytes of a probe. -/
def length : Nat := 9

/-- The number of operand stack slots a probe needs. -/
def operands : Nat := 2

/-- The first counter whose number is no operand of `sipush` and takes a pool entry. -/
def firstPooled : Nat := 32768

/-- The slots of what all probes of a class share: the number of the segment and the method
called. -/
structure Context where
  segment : UInt16
  bridge : UInt16

/-- Pushes the integer in slot `index`. -/
def pushInteger (index : UInt16) : Operation :=
  .plain Opcode.ldcWide (Bytes.field16 index)

/-- Pushes the number of a counter. -/
def pushCounter (probe : Nat) : PoolBuilder Operation :=
  if probe < firstPooled then return .plain Opcode.sipush (Bytes.count16 probe)
  else pushInteger <$> PoolBuilder.integer (Int32.ofNat probe)

/-- The instructions of `ops` when the first of them stands at `offset`. -/
def runFrom : (offset : Nat) → (ops : List Operation) → List Instruction
  | _, [] => []
  | offset, op :: ops =>
    let insn : Instruction := ⟨offset, op⟩
    insn :: runFrom insn.limit ops

/-- The instructions of a probe at `offset`. -/
def instructions (context : Context) (offset probe : Nat) : PoolBuilder (List Instruction) := do
  let counter ← pushCounter probe
  return runFrom offset
    [pushInteger context.segment, counter, .invoke Opcode.invokestatic context.bridge 0]

end JvmCoverage.Probe
