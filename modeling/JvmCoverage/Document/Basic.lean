import JvmCoverage.Decimal.Shortest
import JvmCoverage.Text.Hex

/-!
# JSON documents

A `Document` is a JSON value to be written.  `Document.pretty` writes it with one element a line
and two blanks for each level.
-/

namespace JvmCoverage

/-- A JSON value. -/
inductive Document where
  | null
  | flag (value : Bool)
  | number (value : Nat)
  /-- A number with a fraction. -/
  | share (value : Float)
  | text (value : String)
  | list (items : List Document)
  | record (fields : List (String × Document))

namespace Document

/-! ## Values -/

/-- A value, or `null`. -/
def optional {α : Type} (f : α → Document) : Option α → Document
  | some a => f a
  | none => null

/-- A two-byte number. -/
def number16 (n : UInt16) : Document := number n.toNat

/-! ## Numbers -/

/-- How numbers with a fraction are written: without an exponent from a hundred-thousandth up to
ten to the power sixteen, and then with a digit behind the point at least. -/
def decimal (d : Decimal.Scaled) : String :=
  let digits := toString d.digits
  let point : Int := digits.length + d.exponent
  if 0 ≤ d.exponent ∧ point ≤ 16 then
    digits ++ String.ofList (List.replicate d.exponent.toNat '0') ++ ".0"
  else if 0 < point ∧ point ≤ 16 then
    String.ofList (digits.toList.take point.toNat) ++ "."
      ++ String.ofList (digits.toList.drop point.toNat)
  else if -5 < point ∧ point ≤ 0 then
    "0." ++ String.ofList (List.replicate (-point).toNat '0') ++ digits
  else
    let rest := digits.toList.drop 1
    String.ofList (digits.toList.take 1) ++ (if rest.isEmpty then "" else "." ++ String.ofList rest)
      ++ "e" ++ toString (point - 1)

/-- The text of a number with a fraction: the shortest decimal that reads back. -/
def shareText (value : Float) : String :=
  if value.isFinite then
    let sign := if value.toBits >>> 63 == 1 then "-" else ""
    match Decimal.shortest? value.toBits with
    | some d => sign ++ decimal d
    | none => sign ++ "0.0"
  else "null"

/-! ## Texts -/

/-- The escaped form of a character.  Quotes, backslashes and the characters below the blank are
escaped. -/
def escapeChar (c : Char) : String :=
  match c with
  | '"' => "\\\""
  | '\\' => "\\\\"
  | '\n' => "\\n"
  | '\r' => "\\r"
  | '\t' => "\\t"
  | '\x08' => "\\b"
  | '\x0c' => "\\f"
  | c => if c.toNat < 32 then "\\u" ++ Text.hex 4 c.toNat else c.toString

/-- A text in quotes. -/
def quoted (value : String) : String :=
  value.toList.foldl (fun out c => out ++ escapeChar c) "\"" ++ "\""

/-! ## Layout -/

/-- The start of a line at the given level. -/
def newLine (level : Nat) : String :=
  "\n" ++ String.ofList (List.replicate (2 * level) ' ')

mutual

/-- Writes a value at the given level behind `out`. -/
def write (level : Nat) (out : String) : Document → String
  | null => out ++ "null"
  | flag value => out ++ (if value then "true" else "false")
  | number value => out ++ toString value
  | share value => out ++ shareText value
  | text value => out ++ quoted value
  | list [] => out ++ "[]"
  | list (item :: items) =>
    let first := write (level + 1) (out ++ "[" ++ newLine (level + 1)) item
    writeItems (level + 1) first items ++ newLine level ++ "]"
  | record [] => out ++ "\x7b\x7d"
  | record ((key, value) :: fields) =>
    let start := out ++ "\x7b" ++ newLine (level + 1) ++ quoted key ++ ": "
    let first := write (level + 1) start value
    writeFields (level + 1) first fields ++ newLine level ++ "\x7d"

/-- Writes further items of a list. -/
def writeItems (level : Nat) (out : String) : List Document → String
  | [] => out
  | item :: items => writeItems level (write level (out ++ "," ++ newLine level) item) items

/-- Writes further fields of a record. -/
def writeFields (level : Nat) (out : String) : List (String × Document) → String
  | [] => out
  | (key, value) :: fields =>
    let start := out ++ "," ++ newLine level ++ quoted key ++ ": "
    writeFields level (write level start value) fields

end

/-- The text of a document. -/
def pretty (d : Document) : String := write 0 "" d

end Document

end JvmCoverage
