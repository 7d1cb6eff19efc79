import JvmCoverage.Proofs.Grammar
import Mathlib.Algebra.Order.Group.Int
import Mathlib.Tactic.Linarith

/-!
# The forms of numbers

A number in a field of fixed width has one form only, the one that is written for it.  A number
in two's complement has to fit its field.
-/

namespace JvmCoverage

namespace Bytes

/-- Reading back what was written keeps the number modulo the size of the field. -/
theorem ofBigEndian_bigEndian (width n : Nat) :
  ofBigEndian (bigEndian width n) = n % 256 ^ width
  := by
  induction width generalizing n with
  | zero => simp [bigEndian, ofBigEndian, Nat.mod_one]
  | succ width ih =>
    rw [bigEndian, ofBigEndian_append_singleton, ih, Nat.pow_succ,
      Nat.mul_comm (256 ^ width) 256, Nat.mod_mul, UInt8.toNat_ofNat']
    omega

/-- A number that fits its field is read back unchanged. -/
theorem ofBigEndian_bigEndian_of_lt {width n : Nat} (h : n < 256 ^ width) :
  ofBigEndian (bigEndian width n) = n
  := by
  rw [ofBigEndian_bigEndian, Nat.mod_eq_of_lt h]

theorem ofBigEndian_lt (bytes : List UInt8) :
  ofBigEndian bytes < 256 ^ bytes.length
  := by
  have h := ofBigEndian_bigEndian bytes.length (ofBigEndian bytes)
  rw [bigEndian_ofBigEndian] at h
  rw [h]
  apply Nat.mod_lt
  apply Nat.pow_pos
  decide

/-- Whether the integer has a two's complement form in `width` bytes. -/
def Fits (width : Nat) (z : Int) : Prop :=
  -(256 ^ width : Nat) ≤ 2 * z ∧ 2 * z < (256 ^ width : Nat)

@[simp]
theorem length_signed (width : Nat) (z : Int) :
  (signed width z).length = width
  := length_bigEndian width _

@[simp]
theorem length_field16 (value : UInt16) :
  (field16 value).length = 2
  := length_bigEndian 2 _

@[simp]
theorem length_field32 (value : UInt32) :
  (field32 value).length = 4
  := length_bigEndian 4 _

@[simp]
theorem length_count16 (n : Nat) :
  (count16 n).length = 2
  := length_bigEndian 2 n

@[simp]
theorem length_count32 (n : Nat) :
  (count32 n).length = 4
  := length_bigEndian 4 n

/-- What holds of the numbers below 256 holds of all bytes. -/
theorem forall_of_lt {P : UInt8 → Prop} (h : ∀ n < 256, P (UInt8.ofNat n)) (byte : UInt8) :
  P byte
  := by
  have hbyte := h byte.toNat byte.toNat_lt
  rwa [UInt8.ofNat_toNat] at hbyte

/-- What is read in two's complement fits its field. -/
theorem fits_ofSigned (bytes : List UInt8) :
  Fits bytes.length (ofSigned bytes)
  := by
  have hpos : 0 < 256 ^ bytes.length := Nat.pow_pos (by decide)
  have hlow := Int.le_bmod (x := (ofBigEndian bytes : Int)) hpos
  have hhigh := Int.bmod_lt (x := (ofBigEndian bytes : Int)) hpos
  constructor
  · rw [ofSigned, Nat.pow_eq]
    omega
  · rw [ofSigned, Nat.pow_eq]
    omega

/-- Reading back a number that fits its field gives the number. -/
theorem ofSigned_signed {width : Nat} {z : Int} (h : Fits width z) :
  ofSigned (signed width z) = z
  := by
  have hpos : (0 : Int) < (256 ^ width : Nat) := by
    exact_mod_cast Nat.pow_pos (by decide)
  have hnonneg := Int.emod_nonneg z hpos.ne'
  rw [ofSigned, signed, length_bigEndian, ofBigEndian_bigEndian, Nat.pow_eq, Int.natCast_emod,
    Int.toNat_of_nonneg hnonneg, Int.emod_emod_of_dvd z (Int.dvd_refl _), Int.emod_bmod]
  obtain ⟨hlow, hhigh⟩ := h
  apply Int.bmod_eq_of_le
  · omega
  · omega

/-- Writing back a number that was read gives the bytes that were read. -/
theorem signed_ofSigned (bytes : List UInt8) :
  signed bytes.length (ofSigned bytes) = bytes
  := by
  have hlt := ofBigEndian_lt bytes
  have hmod : ((ofBigEndian bytes : Int) % (256 ^ bytes.length : Nat)).toNat
      = ofBigEndian bytes := by
    rw [← Int.natCast_emod, Int.toNat_natCast, Nat.mod_eq_of_lt hlt]
  rw [signed, ofSigned, Nat.pow_eq, Int.bmod_emod, hmod, bigEndian_ofBigEndian]

theorem fits_int32 (value : Int32) :
  Fits 4 value.toInt
  := by
  have hlow := value.le_toInt
  have hhigh := value.toInt_lt
  constructor
  · norm_num
    omega
  · norm_num
    omega

theorem fits_int64 (value : Int64) :
  Fits 8 value.toInt
  := by
  have hlow := value.le_toInt
  have hhigh := value.toInt_lt
  constructor
  · norm_num
    omega
  · norm_num
    omega

theorem Fits.toInt_int32 {z : Int} (h : Fits 4 z) :
  (Int32.ofInt z).toInt = z
  := by
  obtain ⟨hlow, hhigh⟩ := h
  norm_num at hlow hhigh
  apply Int32.toInt_ofInt_of_le
  · omega
  · omega

theorem Fits.toInt_int64 {z : Int} (h : Fits 8 z) :
  (Int64.ofInt z).toInt = z
  := by
  obtain ⟨hlow, hhigh⟩ := h
  norm_num at hlow hhigh
  apply Int64.toInt_ofInt_of_le
  · omega
  · omega

end Bytes

namespace Reader

variable {α : Type}

instance (width : Nat) : IsLocal (unsigned width) :=
  inferInstanceAs (IsLocal (_ <$> take width))

instance (width : Nat) : IsLocal (signed width) :=
  inferInstanceAs (IsLocal (_ <$> take width))

instance : IsLocal field8 :=
  inferInstanceAs (IsLocal (_ <$> unsigned 1))

instance : IsLocal field16 :=
  inferInstanceAs (IsLocal (_ <$> unsigned 2))

instance : IsLocal field32 :=
  inferInstanceAs (IsLocal (_ <$> unsigned 4))

instance : IsLocal field64 :=
  inferInstanceAs (IsLocal (_ <$> unsigned 8))

@[simp]
theorem reads_unsigned {width n : Nat} {taken : List UInt8} :
  (unsigned width).Reads taken n ↔ n < 256 ^ width ∧ taken = Bytes.bigEndian width n
  := by
  simp only [unsigned, reads_map, reads_take]
  constructor
  · rintro ⟨bytes, ⟨rfl, rfl⟩, rfl⟩
    exact ⟨Bytes.ofBigEndian_lt _, (Bytes.bigEndian_ofBigEndian _).symm⟩
  · rintro ⟨hn, rfl⟩
    exact ⟨_, ⟨rfl, Bytes.length_bigEndian width n⟩,
      (Bytes.ofBigEndian_bigEndian_of_lt hn).symm⟩

@[simp]
theorem reads_signed {width : Nat} {z : Int} {taken : List UInt8} :
  (signed width).Reads taken z ↔ Bytes.Fits width z ∧ taken = Bytes.signed width z
  := by
  simp only [signed, reads_map, reads_take]
  constructor
  · rintro ⟨bytes, ⟨rfl, rfl⟩, rfl⟩
    exact ⟨Bytes.fits_ofSigned _, (Bytes.signed_ofSigned _).symm⟩
  · rintro ⟨hz, rfl⟩
    exact ⟨_, ⟨rfl, Bytes.length_signed width z⟩, (Bytes.ofSigned_signed hz).symm⟩

@[simp]
theorem reads_field8 {value : UInt8} {taken : List UInt8} :
  field8.Reads taken value ↔ taken = [value]
  := by
  simp only [field8, reads_map, reads_unsigned]
  constructor
  · rintro ⟨n, ⟨-, rfl⟩, rfl⟩
    rfl
  · rintro rfl
    refine ⟨value.toNat, ⟨value.toNat_lt, ?_⟩, by simp⟩
    simp [Bytes.bigEndian]

/-- A byte in front decides how what follows is read. -/
theorem Reads.field8_bind {f : UInt8 → Reader α} {byte : UInt8} {back : List UInt8} {a : α}
    (h : (f byte).Reads back a) :
  (field8 >>= f).Reads (byte :: back) a
  := (reads_field8.mpr rfl).bind h

/-- A form that begins with a tag. -/
theorem reads_tag {f : UInt8 → Reader α} [∀ tag, IsLocal (f tag)] {taken : List UInt8} {a : α} :
  (field8 >>= f).Reads taken a ↔ ∃ tag back, (f tag).Reads back a ∧ taken = tag :: back
  := by
  simp only [reads_bind, reads_field8]
  constructor
  · rintro ⟨tag, _, rfl, back, hback, rfl⟩
    exact ⟨tag, back, hback, rfl⟩
  · rintro ⟨tag, back, hback, rfl⟩
    exact ⟨tag, [tag], rfl, back, hback, rfl⟩

@[simp]
theorem reads_field16 {value : UInt16} {taken : List UInt8} :
  field16.Reads taken value ↔ taken = Bytes.field16 value
  := by
  simp only [field16, reads_map, reads_unsigned]
  constructor
  · rintro ⟨n, ⟨hn, rfl⟩, rfl⟩
    rw [Bytes.field16, UInt16.toNat_ofNat_of_lt' hn]
  · rintro rfl
    exact ⟨value.toNat, ⟨value.toNat_lt, rfl⟩, by simp⟩

@[simp]
theorem reads_field32 {value : UInt32} {taken : List UInt8} :
  field32.Reads taken value ↔ taken = Bytes.field32 value
  := by
  simp only [field32, reads_map, reads_unsigned]
  constructor
  · rintro ⟨n, ⟨hn, rfl⟩, rfl⟩
    rw [Bytes.field32, UInt32.toNat_ofNat_of_lt' hn]
  · rintro rfl
    exact ⟨value.toNat, ⟨value.toNat_lt, rfl⟩, by simp⟩

@[simp]
theorem reads_field64 {value : UInt64} {taken : List UInt8} :
  field64.Reads taken value ↔ taken = Bytes.field64 value
  := by
  simp only [field64, reads_map, reads_unsigned]
  constructor
  · rintro ⟨n, ⟨hn, rfl⟩, rfl⟩
    rw [Bytes.field64, UInt64.toNat_ofNat_of_lt' hn]
  · rintro rfl
    exact ⟨value.toNat, ⟨value.toNat_lt, rfl⟩, by simp⟩

theorem reads_int32 {value : Int32} {taken : List UInt8} :
  (∃ z, (signed 4).Reads taken z ∧ value = Int32.ofInt z)
    ↔ taken = Bytes.signed 4 value.toInt
  := by
  simp only [reads_signed]
  constructor
  · rintro ⟨z, ⟨hz, rfl⟩, rfl⟩
    rw [hz.toInt_int32]
  · rintro rfl
    exact ⟨value.toInt, ⟨Bytes.fits_int32 value, rfl⟩, (Int32.ofInt_toInt value).symm⟩

theorem reads_int64 {value : Int64} {taken : List UInt8} :
  (∃ z, (signed 8).Reads taken z ∧ value = Int64.ofInt z)
    ↔ taken = Bytes.signed 8 value.toInt
  := by
  simp only [reads_signed]
  constructor
  · rintro ⟨z, ⟨hz, rfl⟩, rfl⟩
    rw [hz.toInt_int64]
  · rintro rfl
    exact ⟨value.toInt, ⟨Bytes.fits_int64 value, rfl⟩, (Int64.ofInt_toInt value).symm⟩

/-! ## Counted repetition -/

instance (r : Reader α) [IsLocal r] : IsLocal (counted r) :=
  inferInstanceAs (IsLocal (unsigned 2 >>= fun n => times n r))

/-- A counted list begins with its count, which fits its field. -/
theorem reads_counted {r : Reader α} [IsLocal r] {taken : List UInt8} {as : List α} :
  (counted r).Reads taken as
    ↔ as.length ≤ 65535
      ∧ ∃ parts, List.Forall₂ r.Reads parts as
        ∧ taken = Bytes.count16 as.length ++ parts.flatten
  := by
  apply Iff.trans (reads_bind (f := fun n => times n r))
  simp only [reads_unsigned, reads_times]
  constructor
  · rintro ⟨n, _, ⟨hn, rfl⟩, _, ⟨rfl, parts, hparts, rfl⟩, rfl⟩
    exact ⟨by omega, parts, hparts, rfl⟩
  · rintro ⟨hlength, parts, hparts, rfl⟩
    exact ⟨as.length, _, ⟨by omega, rfl⟩, _, ⟨rfl, parts, hparts, rfl⟩, rfl⟩

theorem HasForm.counted {r : Reader α} [IsLocal r] {valid : α → Prop} {form : α → List UInt8}
    (h : r.HasForm valid form) :
  (counted r).HasForm (fun as => as.length ≤ 65535 ∧ ∀ a ∈ as, valid a)
    (fun as => Bytes.count16 as.length ++ as.flatMap form)
  := by
  intro taken as
  simp only [reads_counted, h.forall₂_iff, List.flatMap]
  constructor
  · rintro ⟨hlength, _, ⟨has, rfl⟩, rfl⟩
    exact ⟨⟨hlength, has⟩, rfl⟩
  · rintro ⟨⟨hlength, has⟩, rfl⟩
    exact ⟨hlength, _, ⟨has, rfl⟩, rfl⟩

/-- A counted list is written when its members are. -/
theorem Normalizes.counted {β : Type} {r : Reader α} {outline : Reader β} [IsLocal r]
    [IsLocal outline] {valid : α → Prop} {form : α → List UInt8} {normal : β → Prop}
    (h : r.Normalizes valid form outline normal) :
  (counted r).Normalizes (fun as => as.length ≤ 65535 ∧ ∀ a ∈ as, valid a)
    (fun as => Bytes.count16 as.length ++ as.flatMap form) (counted outline)
    (fun bs => ∀ b ∈ bs, normal b)
  where
    reads_form as has := reads_counted.mpr ⟨has.1, as.map form, h.forall₂_form has.2, rfl⟩
    valid_of_reads taken as hreads := by
      obtain ⟨hlength, parts, hparts, -⟩ := reads_counted.mp hreads
      exact ⟨hlength, h.forall_valid hparts⟩
    length_le taken as hreads := by
      obtain ⟨-, parts, hparts, rfl⟩ := reads_counted.mp hreads
      have hle := h.length_flatMap_le hparts
      rw [List.length_append, List.length_append]
      apply Nat.add_le_add_left hle _
    eq_form taken as hreads := by
      obtain ⟨hlength, parts, hparts, rfl⟩ := reads_counted.mp hreads
      obtain ⟨bs, hbs, heq⟩ := h.flatten_eq hparts
      have hcount : bs.length = as.length := hbs.length_eq.symm.trans hparts.length_eq
      refine ⟨bs, reads_counted.mpr ⟨hcount ▸ hlength, parts, hbs, by rw [hcount]⟩, ?_⟩
      intro hnormal
      rw [heq hnormal]

end Reader

end JvmCoverage
