import JvmCoverage.Bytes.BigEndian

/-!
# SHA-256

The hash of a byte sequence.  The message is padded to whole blocks of 64 bytes, and each block
is mixed into a state of eight words in 64 rounds.  A round uses the first word of a window of
sixteen, which then moves on by one word.
-/

namespace JvmCoverage.Sha256

/-- The state between blocks and between rounds. -/
structure State where
  a : UInt32
  b : UInt32
  c : UInt32
  d : UInt32
  e : UInt32
  f : UInt32
  g : UInt32
  h : UInt32
  deriving DecidableEq

/-- The state before the first block. -/
def initial : State :=
  ⟨0x6a09e667, 0xbb67ae85, 0x3c6ef372, 0xa54ff53a, 0x510e527f, 0x9b05688c, 0x1f83d9ab, 0x5be0cd19⟩

/-- The constants of the rounds. -/
def roundConstants : List UInt32 :=
  [0x428a2f98, 0x71374491, 0xb5c0fbcf, 0xe9b5dba5, 0x3956c25b, 0x59f111f1, 0x923f82a4, 0xab1c5ed5,
   0xd807aa98, 0x12835b01, 0x243185be, 0x550c7dc3, 0x72be5d74, 0x80deb1fe, 0x9bdc06a7, 0xc19bf174,
   0xe49b69c1, 0xefbe4786, 0x0fc19dc6, 0x240ca1cc, 0x2de92c6f, 0x4a7484aa, 0x5cb0a9dc, 0x76f988da,
   0x983e5152, 0xa831c66d, 0xb00327c8, 0xbf597fc7, 0xc6e00bf3, 0xd5a79147, 0x06ca6351, 0x14292967,
   0x27b70a85, 0x2e1b2138, 0x4d2c6dfc, 0x53380d13, 0x650a7354, 0x766a0abb, 0x81c2c92e, 0x92722c85,
   0xa2bfe8a1, 0xa81a664b, 0xc24b8b70, 0xc76c51a3, 0xd192e819, 0xd6990624, 0xf40e3585, 0x106aa070,
   0x19a4c116, 0x1e376c08, 0x2748774c, 0x34b0bcb5, 0x391c0cb3, 0x4ed8aa4a, 0x5b9cca4f, 0x682e6ff3,
   0x748f82ee, 0x78a5636f, 0x84c87814, 0x8cc70208, 0x90befffa, 0xa4506ceb, 0xbef9a3f7, 0xc67178f2]

/-- Rotation to the right by `n` of 32 bits. -/
def rotate (x n : UInt32) : UInt32 :=
  (x >>> n) ||| (x <<< (32 - n))

/-- The word behind the window of sixteen words. -/
def nextWord : List UInt32 → UInt32
  | [w0, w1, _, _, _, _, _, _, _, w9, _, _, _, _, w14, _] =>
    let s0 := rotate w1 7 ^^^ rotate w1 18 ^^^ (w1 >>> 3)
    let s1 := rotate w14 17 ^^^ rotate w14 19 ^^^ (w14 >>> 10)
    w0 + s0 + w9 + s1
  | _ => 0

/-- One round with the constant `k` and the word `w`. -/
def round (s : State) (k w : UInt32) : State :=
  let s1 := rotate s.e 6 ^^^ rotate s.e 11 ^^^ rotate s.e 25
  let choice := (s.e &&& s.f) ^^^ (~~~s.e &&& s.g)
  let t1 := s.h + s1 + choice + k + w
  let s0 := rotate s.a 2 ^^^ rotate s.a 13 ^^^ rotate s.a 22
  let majority := (s.a &&& s.b) ^^^ (s.a &&& s.c) ^^^ (s.b &&& s.c)
  ⟨t1 + (s0 + majority), s.a, s.b, s.c, s.d + t1, s.e, s.f, s.g⟩

/-- One round, after which the window moves on. -/
def step (state : State × List UInt32) (k : UInt32) : State × List UInt32 :=
  match state with
  | (s, w :: rest) => (round s k w, rest ++ [nextWord (w :: rest)])
  | (s, []) => (s, [])

/-- The four-byte words of `bytes`. -/
def words : List UInt8 → List UInt32
  | a :: b :: c :: d :: rest => UInt32.ofNat (Bytes.ofBigEndian [a, b, c, d]) :: words rest
  | _ => []

/-- The state after one more block. -/
def absorb (s : State) (block : List UInt8) : State :=
  let (t, _) := roundConstants.foldl step (s, words block)
  ⟨s.a + t.a, s.b + t.b, s.c + t.c, s.d + t.d, s.e + t.e, s.f + t.f, s.g + t.g, s.h + t.h⟩

/-- The state after all blocks of `bytes`. -/
def absorbAll (s : State) (bytes : List UInt8) : State :=
  if bytes.isEmpty then s else absorbAll (absorb s (bytes.take 64)) (bytes.drop 64)
termination_by bytes.length
decreasing_by
  rename_i h
  simp only [List.isEmpty_iff] at h
  have := List.length_pos_iff.mpr h
  rw [List.length_drop]
  omega

/-- The bytes behind a message of `length` bytes: a one bit, zeros up to the last eight bytes of
a block, and the length in bits. -/
def padding (length : Nat) : List UInt8 :=
  0x80 :: (List.replicate ((119 - length % 64) % 64) 0 ++ Bytes.bigEndian 8 (8 * length))

/-- The hash of `bytes`. -/
def hash (bytes : List UInt8) : List UInt8 :=
  let s := absorbAll initial (bytes ++ padding bytes.length)
  [s.a, s.b, s.c, s.d, s.e, s.f, s.g, s.h].flatMap Bytes.field32

end JvmCoverage.Sha256
