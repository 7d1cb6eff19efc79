import JvmCoverage.Text.Shapeless

/-!
# Visible text

A text in quotes in which every character shows: what has no shape of its own is written by its
number.
-/

namespace JvmCoverage.Text.Visible

/-- The digits of a number in hexadecimal, without leading zeros. -/
def hexDigits (n : Nat) : String :=
  String.ofList (Nat.toDigits 16 n)

/-- The visible form of a character. -/
def escapeChar (c : Char) : String :=
  match c with
  | '"' => "\\\""
  | '\\' => "\\\\"
  | '\n' => "\\n"
  | '\r' => "\\r"
  | '\t' => "\\t"
  | '\x00' => "\\0"
  | c =>
    if Shapeless.holds c then
      "\\u\x7b" ++ hexDigits c.toNat ++ "\x7d"
    else c.toString

/-- The visible form of a text, in quotes. -/
def quoted (text : String) : String :=
  text.toList.foldl (fun out c => out ++ escapeChar c) "\"" ++ "\""

end JvmCoverage.Text.Visible
