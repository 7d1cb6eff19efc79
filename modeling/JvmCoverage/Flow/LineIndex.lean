import JvmCoverage.ClassFile.Code

/-!
# Looking up source lines

A `LineIndex` holds the line entries of a method body in ascending order of start and line, so
that the line of an offset is found by binary search.
-/

namespace JvmCoverage

/-- The line entries of a body in ascending order. -/
structure LineIndex where
  entries : Array LineEntry

namespace LineIndex

/-- The order of entries: by start, and by line where starts agree. -/
def inOrder (a b : LineEntry) : Bool :=
  a.start < b.start || (a.start == b.start && a.line ≤ b.line)

/-- The index of the line entries of `code`. -/
def ofCode (code : Code) : LineIndex :=
  ⟨(code.lineEntries.mergeSort inOrder).toArray⟩

/-- The line of the last entry that starts up to `offset`. -/
def lineAt? (index : LineIndex) (offset : Nat) : Option UInt16 :=
  (Search.lastUpTo? LineEntry.start index.entries offset).bind fun i =>
    index.entries[i]?.map LineEntry.line

/-- The distinct lines of `instructions`, in ascending order. -/
def linesOf (index : LineIndex) (instructions : List Instruction) : List UInt16 :=
  ((instructions.filterMap fun insn => index.lineAt? insn.offset).mergeSort (· ≤ ·)).eraseReps

end LineIndex

end JvmCoverage
