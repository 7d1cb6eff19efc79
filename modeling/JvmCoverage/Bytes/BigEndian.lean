/-!
# Big-endian numbers

`bigEndian w n` writes the low `w` base-256 digits of `n`, most significant first, and
`ofBigEndian` reads such digits back.  Writing what was read gives the same bytes.  A count
that does not fit its field is stored modulo the size of the field.
-/

namespace JvmCoverage.Bytes

/-- The low `width` base-256 digits of `n`, most significant first. -/
def bigEndian : (width : Nat) → (n : Nat) → List UInt8
  | 0, _ => []
  | width + 1, n => bigEndian width (n / 256) ++ [UInt8.ofNat n]

/-- The number whose base-256 digits are `bytes`, most significant first. -/
def ofBigEndian (bytes : List UInt8) : Nat :=
  bytes.foldl (fun n b => n * 256 + b.toNat) 0

@[simp]
theorem length_bigEndian (width n : Nat) :
  (bigEndian width n).length = width
  := by
  induction width generalizing n with
  | zero => rfl
  | succ width ih => simp [bigEndian, ih]

@[simp]
theorem ofBigEndian_append_singleton (bytes : List UInt8) (b : UInt8) :
  ofBigEndian (bytes ++ [b]) = ofBigEndian bytes * 256 + b.toNat
  := by
  simp [ofBigEndian]

/-- Writing back what was read gives the bytes that were read. -/
theorem bigEndian_ofBigEndian (bytes : List UInt8) :
  bigEndian bytes.length (ofBigEndian bytes) = bytes
  := by
  induction h : bytes.length generalizing bytes with
  | zero => simp_all [bigEndian]
  | succ width ih =>
    obtain ⟨front, b, rfl⟩ : ∃ front b, bytes = front ++ [b] :=
      ⟨bytes.dropLast, bytes.getLast (by intro hb; simp [hb] at h),
        (List.dropLast_concat_getLast _).symm⟩
    have hb := b.toNat_lt
    have hq : (ofBigEndian front * 256 + b.toNat) / 256 = ofBigEndian front := by omega
    rw [bigEndian, ofBigEndian_append_singleton, hq, ih front (by simpa using h)]
    congr 2
    apply UInt8.toNat.inj
    rw [UInt8.toNat_ofNat']
    omega

/-! ## Fields of the class format -/

/-- A one-byte field. -/
def field8 (value : UInt8) : List UInt8 := [value]

/-- A two-byte field. -/
def field16 (value : UInt16) : List UInt8 := bigEndian 2 value.toNat

/-- A four-byte field. -/
def field32 (value : UInt32) : List UInt8 := bigEndian 4 value.toNat

/-- An eight-byte field. -/
def field64 (value : UInt64) : List UInt8 := bigEndian 8 value.toNat

/-- A two-byte count, stored modulo `2 ^ 16`. -/
def count16 (n : Nat) : List UInt8 := bigEndian 2 n

/-- A four-byte count, stored modulo `2 ^ 32`. -/
def count32 (n : Nat) : List UInt8 := bigEndian 4 n

/-- A two's complement number in `width` bytes. -/
def signed (width : Nat) (z : Int) : List UInt8 :=
  bigEndian width (z % (Nat.pow 256 width : Nat)).toNat

/-- The number that `bytes` hold in two's complement. -/
def ofSigned (bytes : List UInt8) : Int :=
  (ofBigEndian bytes : Int).bmod (Nat.pow 256 bytes.length)

end JvmCoverage.Bytes
