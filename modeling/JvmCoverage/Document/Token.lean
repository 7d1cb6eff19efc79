/-!
# The tokens of JSON texts

`Token.scan` cuts a JSON text into tokens, one character after the other.  A text token may hold
half of a surrogate pair; it is a token all the same, but has no content.
-/

namespace JvmCoverage

/-- A token of a JSON text. -/
inductive Token where
  | openList
  | closeList
  | openRecord
  | closeRecord
  | comma
  | colon
  | null
  | flag (value : Bool)
  | number
  /-- A text; it has no content when an escape stands for half of a surrogate pair. -/
  | text (content : Option String)
  deriving DecidableEq

namespace Token

/-! ## Texts -/

/-- The characters `done`, last first, and then those for the code units of a text, in which
only escapes stand for surrogates. -/
def decodeUnits (done : List Char) : List Nat → Option (List Char)
  | [] => some done.reverse
  | unit :: rest =>
    if 0xd800 ≤ unit ∧ unit < 0xdc00 then
      match rest with
      | low :: rest =>
        if 0xdc00 ≤ low ∧ low < 0xe000 then
          let c := Char.ofNat (0x10000 + (unit - 0xd800) * 0x400 + (low - 0xdc00))
          decodeUnits (c :: done) rest
        else none
      | [] => none
    else if 0xdc00 ≤ unit ∧ unit < 0xe000 then none
    else decodeUnits (Char.ofNat unit :: done) rest

/-- The text token with the given code units, last first. -/
def ofUnits (reversed : List Nat) : Token :=
  text ((decodeUnits [] reversed.reverse).map String.ofList)

/-- The code unit that a character after a backslash stands for, `u` aside. -/
def escape? (c : Char) : Option Nat :=
  match c with
  | '"' | '\\' | '/' => some c.toNat
  | 'b' => some 8
  | 'f' => some 12
  | 'n' => some 10
  | 'r' => some 13
  | 't' => some 9
  | _ => none

/-- The value of a hexadecimal digit. -/
def hexDigit? (c : Char) : Option Nat :=
  if c.isDigit then some (c.toNat - '0'.toNat)
  else if 'a' ≤ c ∧ c ≤ 'f' then some (c.toNat - 'a'.toNat + 10)
  else if 'A' ≤ c ∧ c ≤ 'F' then some (c.toNat - 'A'.toNat + 10)
  else none

/-! ## Scanning -/

/-- How far a number has been scanned. -/
inductive NumberPhase where
  | sign
  | zero
  | whole
  | point
  | fraction
  | exponent
  | exponentSign
  | exponentDigits
  deriving DecidableEq

/-- Whether a number may end here. -/
def NumberPhase.isComplete : NumberPhase → Bool
  | zero | whole | fraction | exponentDigits => true
  | _ => false

/-- How far a number has been scanned after one more character, if the character belongs to
it. -/
def NumberPhase.next? (phase : NumberPhase) (c : Char) : Option NumberPhase :=
  let digit := c.isDigit
  let startsExponent := c = 'e' ∨ c = 'E'
  match phase with
  | sign => if c = '0' then some zero else if digit then some whole else none
  | zero => if c = '.' then some point else if startsExponent then some exponent else none
  | whole =>
    if digit then some whole
    else if c = '.' then some point
    else if startsExponent then some exponent
    else none
  | point => if digit then some fraction else none
  | fraction => if digit then some fraction else if startsExponent then some exponent else none
  | exponent =>
    if c = '+' ∨ c = '-' then some exponentSign else if digit then some exponentDigits else none
  | exponentSign | exponentDigits => if digit then some exponentDigits else none

/-- What is being scanned. -/
inductive Mode where
  | between
  /-- A word of which `rest` is still to come. -/
  | word (token : Token) (rest : List Char)
  | number (phase : NumberPhase)
  /-- A text with the code units so far, last first. -/
  | text (units : List Nat)
  | escape (units : List Nat)
  /-- A code unit in hexadecimal digits, of which `missing + 1` are still to come. -/
  | hex (units : List Nat) (missing value : Nat)

/-- What is being scanned, and the tokens before it, last first. -/
structure Scan where
  mode : Mode
  tokens : List Token

/-- Starts to scan a token with the character `c`. -/
def start (tokens : List Token) (c : Char) : Option Scan :=
  match c with
  | ' ' | '\t' | '\n' | '\r' => some ⟨.between, tokens⟩
  | '[' => some ⟨.between, openList :: tokens⟩
  | ']' => some ⟨.between, closeList :: tokens⟩
  | '\x7b' => some ⟨.between, openRecord :: tokens⟩
  | '\x7d' => some ⟨.between, closeRecord :: tokens⟩
  | ',' => some ⟨.between, comma :: tokens⟩
  | ':' => some ⟨.between, colon :: tokens⟩
  | '"' => some ⟨.text [], tokens⟩
  | 'n' => some ⟨.word null ['u', 'l', 'l'], tokens⟩
  | 't' => some ⟨.word (flag true) ['r', 'u', 'e'], tokens⟩
  | 'f' => some ⟨.word (flag false) ['a', 'l', 's', 'e'], tokens⟩
  | '-' => some ⟨.number .sign, tokens⟩
  | '0' => some ⟨.number .zero, tokens⟩
  | c => if c.isDigit then some ⟨.number .whole, tokens⟩ else none

/-- Scans one more character. -/
def step (scan : Scan) (c : Char) : Option Scan :=
  match scan.mode with
  | .between => start scan.tokens c
  | .word token rest =>
    match rest with
    | [] => none
    | [last] => if c = last then some ⟨.between, token :: scan.tokens⟩ else none
    | next :: rest => if c = next then some ⟨.word token rest, scan.tokens⟩ else none
  | .number phase =>
    match phase.next? c with
    | some phase => some ⟨.number phase, scan.tokens⟩
    | none => if phase.isComplete then start (number :: scan.tokens) c else none
  | .text units =>
    if c = '"' then some ⟨.between, ofUnits units :: scan.tokens⟩
    else if c = '\\' then some ⟨.escape units, scan.tokens⟩
    else if c.toNat < 32 then none
    else some ⟨.text (c.toNat :: units), scan.tokens⟩
  | .escape units =>
    if c = 'u' then some ⟨.hex units 3 0, scan.tokens⟩
    else (escape? c).map fun unit => ⟨.text (unit :: units), scan.tokens⟩
  | .hex units missing value =>
    (hexDigit? c).map fun digit =>
      let value := 16 * value + digit
      match missing with
      | 0 => ⟨.text (value :: units), scan.tokens⟩
      | missing + 1 => ⟨.hex units missing value, scan.tokens⟩

/-- The tokens at the end of the text. -/
def finish (scan : Scan) : Option (List Token) :=
  match scan.mode with
  | .between => some scan.tokens.reverse
  | .number phase => if phase.isComplete then some (number :: scan.tokens).reverse else none
  | _ => none

/-- The tokens of `text`; none if it is not made of tokens. -/
def scan (text : String) : Option (List Token) :=
  text.toList.foldlM step ⟨.between, []⟩ >>= finish

end Token

end JvmCoverage
