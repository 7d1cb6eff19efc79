/-!
# Opcodes

An instruction begins with an opcode byte.  The bytes up to `jsr_w` are opcodes, each with a
mnemonic and a layout of the operands that follow it; the remaining bytes are not opcodes.
-/

namespace JvmCoverage

/-- The byte an instruction begins with. -/
abbrev Opcode := UInt8

/-- The shape of the operands behind an opcode. -/
inductive OperandLayout where
  /-- A fixed number of bytes. -/
  | fixed (length : Nat)
  /-- A signed two-byte distance to the target. -/
  | branch16
  /-- A signed four-byte distance to the target. -/
  | branch32
  /-- The aligned tables of a `tableswitch` or `lookupswitch`. -/
  | switch
  /-- A second opcode, whose operands are widened. -/
  | wide
  deriving DecidableEq

namespace Opcode

/-! ## Opcodes with a meaning of their own -/

def sipush : Opcode := 0x11
def ldcWide : Opcode := 0x13
def iinc : Opcode := 0x84
def goto : Opcode := 0xa7
def jsr : Opcode := 0xa8
def ret : Opcode := 0xa9
def tableswitch : Opcode := 0xaa
def lookupswitch : Opcode := 0xab
def invokestatic : Opcode := 0xb8
def invokeinterface : Opcode := 0xb9
def invokedynamic : Opcode := 0xba
def athrow : Opcode := 0xbf
def wide : Opcode := 0xc4
def gotoWide : Opcode := 0xc8
def jsrWide : Opcode := 0xc9

/-! ## Layouts -/

/-- The layouts of all opcodes in ascending order; an entry holds for the opcodes after the
entry before it up to the one it names. -/
def layouts : List (Opcode × OperandLayout) :=
  [(0x0f, .fixed 0), (0x10, .fixed 1), (0x11, .fixed 2), (0x12, .fixed 1), (0x14, .fixed 2),
   (0x19, .fixed 1), (0x35, .fixed 0), (0x3a, .fixed 1), (0x83, .fixed 0), (0x84, .fixed 2),
   (0x98, .fixed 0), (0xa8, .branch16), (0xa9, .fixed 1), (0xab, .switch), (0xb1, .fixed 0),
   (0xb8, .fixed 2), (0xba, .fixed 4), (0xbb, .fixed 2), (0xbc, .fixed 1), (0xbd, .fixed 2),
   (0xbf, .fixed 0), (0xc1, .fixed 2), (0xc3, .fixed 0), (0xc4, .wide), (0xc5, .fixed 3),
   (0xc7, .branch16), (0xc9, .branch32)]

/-- The layout of the operands of `opcode`, if the byte is an opcode. -/
def layout? (opcode : Opcode) : Option OperandLayout :=
  (layouts.find? fun entry => opcode ≤ entry.1).map (·.2)

/-! ## Classes of opcodes -/

/-- Branches that may also continue with the next instruction: `ifeq` to `if_acmpne`, `ifnull`
and `ifnonnull`. -/
def isConditional (opcode : Opcode) : Bool :=
  (0x99 ≤ opcode && opcode ≤ 0xa6) || opcode == 0xc6 || opcode == 0xc7

/-- Opcodes that may follow `wide`: the loads and stores of a local variable, `ret` and `iinc`. -/
def isWidenable (opcode : Opcode) : Bool :=
  (0x15 ≤ opcode && opcode ≤ 0x19) || (0x36 ≤ opcode && opcode ≤ 0x3a)
    || opcode == ret || opcode == iinc

/-- `goto` and `goto_w`. -/
def isGoto (opcode : Opcode) : Bool :=
  opcode == goto || opcode == gotoWide

/-- `jsr` and `jsr_w`. -/
def isJsr (opcode : Opcode) : Bool :=
  opcode == jsr || opcode == jsrWide

/-- The branches whose distance takes four bytes. -/
def isWideBranch (opcode : Opcode) : Bool :=
  opcode == gotoWide || opcode == jsrWide

/-- `ireturn` to `return`. -/
def isReturn (opcode : Opcode) : Bool :=
  0xac ≤ opcode && opcode ≤ 0xb1

/-- The invocations whose only operand is a pool index. -/
def isPlainInvoke (opcode : Opcode) : Bool :=
  0xb6 ≤ opcode && opcode ≤ 0xb8

/-- The invocations with two further operand bytes. -/
def isLongInvoke (opcode : Opcode) : Bool :=
  opcode == invokeinterface || opcode == invokedynamic

/-! ## Mnemonics -/

/-- The mnemonics of the opcodes, by opcode. -/
def mnemonics : Array String := #[
  "nop", "aconst_null", "iconst_m1", "iconst_0", "iconst_1", "iconst_2", "iconst_3", "iconst_4",
  "iconst_5", "lconst_0", "lconst_1", "fconst_0", "fconst_1", "fconst_2", "dconst_0", "dconst_1",
  "bipush", "sipush", "ldc", "ldc_w", "ldc2_w", "iload", "lload", "fload", "dload", "aload",
  "iload_0", "iload_1", "iload_2", "iload_3", "lload_0", "lload_1", "lload_2", "lload_3",
  "fload_0", "fload_1", "fload_2", "fload_3", "dload_0", "dload_1", "dload_2", "dload_3",
  "aload_0", "aload_1", "aload_2", "aload_3", "iaload", "laload", "faload", "daload", "aaload",
  "baload", "caload", "saload", "istore", "lstore", "fstore", "dstore", "astore", "istore_0",
  "istore_1", "istore_2", "istore_3", "lstore_0", "lstore_1", "lstore_2", "lstore_3",
  "fstore_0", "fstore_1", "fstore_2", "fstore_3", "dstore_0", "dstore_1", "dstore_2",
  "dstore_3", "astore_0", "astore_1", "astore_2", "astore_3", "iastore", "lastore", "fastore",
  "dastore", "aastore", "bastore", "castore", "sastore", "pop", "pop2", "dup", "dup_x1",
  "dup_x2", "dup2", "dup2_x1", "dup2_x2", "swap", "iadd", "ladd", "fadd", "dadd", "isub",
  "lsub", "fsub", "dsub", "imul", "lmul", "fmul", "dmul", "idiv", "ldiv", "fdiv", "ddiv",
  "irem", "lrem", "frem", "drem", "ineg", "lneg", "fneg", "dneg", "ishl", "lshl", "ishr",
  "lshr", "iushr", "lushr", "iand", "land", "ior", "lor", "ixor", "lxor", "iinc", "i2l", "i2f",
  "i2d", "l2i", "l2f", "l2d", "f2i", "f2l", "f2d", "d2i", "d2l", "d2f", "i2b", "i2c", "i2s",
  "lcmp", "fcmpl", "fcmpg", "dcmpl", "dcmpg", "ifeq", "ifne", "iflt", "ifge", "ifgt", "ifle",
  "if_icmpeq", "if_icmpne", "if_icmplt", "if_icmpge", "if_icmpgt", "if_icmple", "if_acmpeq",
  "if_acmpne", "goto", "jsr", "ret", "tableswitch", "lookupswitch", "ireturn", "lreturn",
  "freturn", "dreturn", "areturn", "return", "getstatic", "putstatic", "getfield", "putfield",
  "invokevirtual", "invokespecial", "invokestatic", "invokeinterface", "invokedynamic", "new",
  "newarray", "anewarray", "arraylength", "athrow", "checkcast", "instanceof", "monitorenter",
  "monitorexit", "wide", "multianewarray", "ifnull", "ifnonnull", "goto_w", "jsr_w"]

/-- The mnemonic of `opcode`. -/
def mnemonic (opcode : Opcode) : String :=
  mnemonics[opcode.toNat]?.getD "<invalid>"

end Opcode

end JvmCoverage
