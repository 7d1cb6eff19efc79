import JvmCoverage.Bytes.Reader

/-!
# Runtime annotations

The content of a runtime annotation attribute is a list of annotations, each a type and pairs
of a name and an element value.  Element values nest through arrays and through annotations;
the type of every annotation at the top is collected and the values are walked past.
-/

namespace JvmCoverage.Annotation

/-- The number of levels on which element values may stand. -/
def maxLevels : Nat := 65

open Reader

/-- Walks past the element values that end with the next `n` bytes. -/
def skip (n : Nat) : Reader Unit := do
  let _ ← take n

/-- Reads the type of an annotation and walks past its values with `value`. -/
def typeIndex (value : Reader Unit) : Reader UInt16 := do
  let type ← field16
  let pairs ← unsigned 2
  let _ ← times pairs do
    skip 2
    value
  return type

/-- Walks past one element value that may use `levels` levels. -/
def skipValue : (levels : Nat) → Reader Unit
  | 0 => throw (.malformed .elementsTooDeep)
  | levels + 1 => do
    let tag ← field8
    match Char.ofNat tag.toNat with
    | 'B' | 'C' | 'D' | 'F' | 'I' | 'J' | 'S' | 'Z' | 's' | 'c' => skip 2
    | 'e' => skip 4
    | '@' => do
      let _ ← typeIndex (skipValue levels)
    | '[' => do
      let _ ← counted (skipValue levels)
    | _ => throw (.malformed (.unknownElementTag tag))

/-- The pool slots of the types of the annotations in an attribute. -/
def typeIndices (payload : List UInt8) : Except DecodeError (List UInt16) :=
  runAll (counted (typeIndex (skipValue maxLevels))) payload

end JvmCoverage.Annotation
