/-!
# UTF-8

`Utf8.encode` gives the UTF-8 bytes of a text.  `Utf8.decodeLossy` reads any byte sequence as
text: each well-formed sequence is its character, and each longest piece that begins a
well-formed sequence without completing one is a single U+FFFD.
-/

namespace JvmCoverage.Text.Utf8

/-- The UTF-8 bytes of `text`. -/
def encode (text : String) : List UInt8 :=
  text.toUTF8.data.toList

/-- The payload of a leading byte and the ranges of the bytes that must follow it.  The range
of the second byte excludes overlong forms, surrogates and numbers past U+10FFFF. -/
def lead? (first : UInt8) : Option (Nat × List (UInt8 × UInt8)) :=
  let tail : UInt8 × UInt8 := (0x80, 0xbf)
  let n := first.toNat
  if n < 0x80 then some (n, [])
  else if n < 0xc2 then none
  else if n < 0xe0 then some (n - 0xc0, [tail])
  else if n = 0xe0 then some (0, [(0xa0, 0xbf), tail])
  else if n = 0xed then some (0xd, [(0x80, 0x9f), tail])
  else if n < 0xf0 then some (n - 0xe0, [tail, tail])
  else if n = 0xf0 then some (0, [(0x90, 0xbf), tail, tail])
  else if n < 0xf4 then some (n - 0xf0, [tail, tail, tail])
  else if n = 0xf4 then some (4, [(0x80, 0x8f), tail, tail])
  else none

/-- Follows the byte `ranges` as far as `bytes` keep to them.  The result is the number of bytes
followed and, when none of the ranges is left, the payload extended by those bytes. -/
def follow (payload : Nat) :
    (ranges : List (UInt8 × UInt8)) → (bytes : List UInt8) → Nat × Option Nat
  | [], _ => (0, some payload)
  | _ :: _, [] => (0, none)
  | (low, high) :: ranges, b :: bytes =>
    if low ≤ b ∧ b ≤ high then
      let (followed, result) := follow (payload * 64 + b.toNat % 64) ranges bytes
      (followed + 1, result)
    else (0, none)

/-- The character that replaces what is not well formed. -/
def replacement : Char := Char.ofNat 0xfffd

/-- The character that begins with `first`, and the number of further bytes it takes. -/
def next (first : UInt8) (rest : List UInt8) : Char × Nat :=
  match lead? first with
  | none => (replacement, 0)
  | some (payload, ranges) =>
    match follow payload ranges rest with
    | (followed, some code) => (Char.ofNat code, followed)
    | (followed, none) => (replacement, followed)

/-- The characters of `bytes` after the characters `done`, latest first. -/
def charsAfter (done : List Char) : (bytes : List UInt8) → List Char
  | [] => done.reverse
  | first :: rest =>
    let (c, taken) := next first rest
    charsAfter (c :: done) (rest.drop taken)
termination_by bytes => bytes.length
decreasing_by
  simp only [List.length_drop, List.length_cons]
  omega

/-- The text of `bytes`, with U+FFFD for what is not well formed. -/
def decodeLossy (bytes : List UInt8) : String :=
  String.ofList (charsAfter [] bytes)

/-- The text with the UTF-8 bytes `bytes`. -/
def decode? (bytes : List UInt8) : Option String :=
  let text := decodeLossy bytes
  if encode text = bytes then some text else none

end JvmCoverage.Text.Utf8
