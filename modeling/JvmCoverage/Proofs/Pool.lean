import JvmCoverage.ClassFile.ConstantPool
import JvmCoverage.Proofs.Fields
import JvmCoverage.Proofs.Outcome

/-!
# The forms of constant pools

A constant has one form.  The slots of a pool are laid out from its constants, of which some take
two (`ConstantPool.layOut`), and a pool with at least one constant has one form
(`ConstantPool.eq_toBytes_of_reads`).
-/

namespace JvmCoverage

open Reader

/-! ## Constants -/

namespace Constant

/-- Whether a constant can be read. -/
def Valid : Constant → Prop
  | utf8 bytes => bytes.length ≤ 65535
  | unusable => False
  | _ => True

instance : (c : Constant) → Decidable c.Valid
  | utf8 bytes => inferInstanceAs (Decidable (bytes.length ≤ 65535))
  | unusable => .isFalse id
  | integer _ | float _ | long _ | double _ | classRef _ | stringRef _ | fieldRef _ _
  | methodRef _ _ | interfaceMethodRef _ _ | nameAndType _ _ | methodHandle _ _ | methodType _
  | dynamic _ _ | invokeDynamic _ _ | moduleRef _ | packageRef _ => .isTrue trivial

/-- Reads what follows the tag of the constant for slot `index`. -/
def readPayload (index : UInt16) (tag : UInt8) : Reader Constant :=
  match tag with
  | 1 => do
    let length ← unsigned 2
    utf8 <$> take length
  | 3 => (fun z => integer (Int32.ofInt z)) <$> signed 4
  | 4 => float <$> field32
  | 5 => (fun z => long (Int64.ofInt z)) <$> signed 8
  | 6 => double <$> field64
  | 7 => classRef <$> field16
  | 8 => stringRef <$> field16
  | 9 => fieldRef <$> field16 <*> field16
  | 10 => methodRef <$> field16 <*> field16
  | 11 => interfaceMethodRef <$> field16 <*> field16
  | 12 => nameAndType <$> field16 <*> field16
  | 15 => methodHandle <$> field8 <*> field16
  | 16 => methodType <$> field16
  | 17 => dynamic <$> field16 <*> field16
  | 18 => invokeDynamic <$> field16 <*> field16
  | 19 => moduleRef <$> field16
  | 20 => packageRef <$> field16
  | tag => throw (.unknownConstantTag tag index)

instance (index : UInt16) (tag : UInt8) : IsLocal (readPayload index tag) := by
  unfold readPayload
  split <;> infer_instance

instance (index : UInt16) : IsLocal (read index) :=
  inferInstanceAs (IsLocal (field8 >>= readPayload index))

theorem reads_read {index : UInt16} {taken : List UInt8} {c : Constant} :
  (read index).Reads taken c
    ↔ ∃ tag back, (readPayload index tag).Reads back c ∧ taken = tag :: back
  := reads_tag (f := readPayload index)

theorem reads_one {make : UInt16 → Constant} {back : List UInt8} {c : Constant} :
  (make <$> field16).Reads back c ↔ ∃ i, c = make i ∧ back = Bytes.field16 i
  := by
  simp only [reads_map, reads_field16]
  constructor
  · rintro ⟨i, rfl, rfl⟩
    exact ⟨i, rfl, rfl⟩
  · rintro ⟨i, rfl, rfl⟩
    exact ⟨i, rfl, rfl⟩

theorem reads_two {make : UInt16 → UInt16 → Constant} {back : List UInt8} {c : Constant} :
  (make <$> field16 <*> field16).Reads back c
    ↔ ∃ i j, c = make i j ∧ back = Bytes.field16 i ++ Bytes.field16 j
  := by
  simp only [reads_seq, reads_map, reads_field16]
  constructor
  · rintro ⟨_, _, ⟨i, rfl, rfl⟩, j, _, rfl, rfl, rfl⟩
    exact ⟨i, j, rfl, rfl⟩
  · rintro ⟨i, j, rfl, rfl⟩
    exact ⟨make i, _, ⟨i, rfl, rfl⟩, j, _, rfl, rfl, rfl⟩

theorem reads_handle {back : List UInt8} {c : Constant} :
  (methodHandle <$> field8 <*> field16).Reads back c
    ↔ ∃ kind i, c = methodHandle kind i ∧ back = kind :: Bytes.field16 i
  := by
  simp only [reads_seq, reads_map, reads_field8, reads_field16]
  constructor
  · rintro ⟨_, _, ⟨kind, rfl, rfl⟩, i, _, rfl, rfl, rfl⟩
    exact ⟨kind, i, rfl, rfl⟩
  · rintro ⟨kind, i, rfl, rfl⟩
    exact ⟨methodHandle kind, _, ⟨kind, rfl, rfl⟩, i, _, rfl, rfl, rfl⟩

theorem reads_text {back : List UInt8} {c : Constant} :
  (unsigned 2 >>= fun length => utf8 <$> take length).Reads back c
    ↔ ∃ bytes, c = utf8 bytes ∧ bytes.length ≤ 65535
      ∧ back = Bytes.count16 bytes.length ++ bytes
  := by
  simp only [reads_bind, reads_map, reads_unsigned, reads_take]
  constructor
  · rintro ⟨_, _, ⟨hlength, rfl⟩, _, ⟨bytes, ⟨rfl, rfl⟩, rfl⟩, rfl⟩
    exact ⟨_, rfl, Nat.le_of_lt_succ hlength, rfl⟩
  · rintro ⟨bytes, rfl, hlength, rfl⟩
    exact ⟨bytes.length, _, ⟨Nat.lt_succ_of_le hlength, rfl⟩, bytes, ⟨bytes, ⟨rfl, rfl⟩, rfl⟩, rfl⟩

/-- The payloads of the constants are what follows their tags. -/
theorem reads_payload {index : UInt16} {tag : UInt8} {back : List UInt8} {c : Constant}
    (h : (readPayload index tag).Reads back c) :
  c.Valid ∧ tag :: back = c.toBytes
  := by
  unfold readPayload at h
  split at h
  case h_1 =>
    obtain ⟨bytes, rfl, hlength, rfl⟩ := reads_text.mp h
    exact ⟨hlength, rfl⟩
  case h_2 =>
    obtain ⟨z, hz, rfl⟩ := reads_map.mp h
    rw [reads_int32.mp ⟨z, hz, rfl⟩]
    exact ⟨trivial, rfl⟩
  case h_3 =>
    obtain ⟨bits, hbits, rfl⟩ := reads_map.mp h
    rw [reads_field32.mp hbits]
    exact ⟨trivial, rfl⟩
  case h_4 =>
    obtain ⟨z, hz, rfl⟩ := reads_map.mp h
    rw [reads_int64.mp ⟨z, hz, rfl⟩]
    exact ⟨trivial, rfl⟩
  case h_5 =>
    obtain ⟨bits, hbits, rfl⟩ := reads_map.mp h
    rw [reads_field64.mp hbits]
    exact ⟨trivial, rfl⟩
  case h_12 =>
    obtain ⟨kind, i, rfl, rfl⟩ := reads_handle.mp h
    exact ⟨trivial, rfl⟩
  case h_18 => exact absurd h not_reads_throw
  all_goals first
    | obtain ⟨i, rfl, rfl⟩ := reads_one.mp h
      exact ⟨trivial, rfl⟩
    | obtain ⟨i, j, rfl, rfl⟩ := reads_two.mp h
      exact ⟨trivial, rfl⟩

/-- A constant has one form. -/
theorem hasForm_read (index : UInt16) :
  (read index).HasForm Valid toBytes
  := by
  intro taken c
  rw [reads_read]
  constructor
  · rintro ⟨tag, back, h, rfl⟩
    apply reads_payload h
  · rintro ⟨hvalid, rfl⟩
    cases c with
    | utf8 bytes => exact ⟨1, _, reads_text.mpr ⟨bytes, rfl, hvalid, rfl⟩, rfl⟩
    | integer value =>
      obtain ⟨z, hz, hvalue⟩ := reads_int32.mpr (rfl : Bytes.signed 4 value.toInt = _)
      exact ⟨3, _, reads_map.mpr ⟨z, hz, congrArg integer hvalue⟩, rfl⟩
    | float bits => exact ⟨4, _, reads_map.mpr ⟨bits, reads_field32.mpr rfl, rfl⟩, rfl⟩
    | long value =>
      obtain ⟨z, hz, hvalue⟩ := reads_int64.mpr (rfl : Bytes.signed 8 value.toInt = _)
      exact ⟨5, _, reads_map.mpr ⟨z, hz, congrArg long hvalue⟩, rfl⟩
    | double bits => exact ⟨6, _, reads_map.mpr ⟨bits, reads_field64.mpr rfl, rfl⟩, rfl⟩
    | classRef i => exact ⟨7, _, reads_one.mpr ⟨i, rfl, rfl⟩, rfl⟩
    | stringRef i => exact ⟨8, _, reads_one.mpr ⟨i, rfl, rfl⟩, rfl⟩
    | fieldRef i j => exact ⟨9, _, reads_two.mpr ⟨i, j, rfl, rfl⟩, rfl⟩
    | methodRef i j => exact ⟨10, _, reads_two.mpr ⟨i, j, rfl, rfl⟩, rfl⟩
    | interfaceMethodRef i j => exact ⟨11, _, reads_two.mpr ⟨i, j, rfl, rfl⟩, rfl⟩
    | nameAndType i j => exact ⟨12, _, reads_two.mpr ⟨i, j, rfl, rfl⟩, rfl⟩
    | methodHandle kind i => exact ⟨15, _, reads_handle.mpr ⟨kind, i, rfl, rfl⟩, rfl⟩
    | methodType i => exact ⟨16, _, reads_one.mpr ⟨i, rfl, rfl⟩, rfl⟩
    | dynamic i j => exact ⟨17, _, reads_two.mpr ⟨i, j, rfl, rfl⟩, rfl⟩
    | invokeDynamic i j => exact ⟨18, _, reads_two.mpr ⟨i, j, rfl, rfl⟩, rfl⟩
    | moduleRef i => exact ⟨19, _, reads_one.mpr ⟨i, rfl, rfl⟩, rfl⟩
    | packageRef i => exact ⟨20, _, reads_one.mpr ⟨i, rfl, rfl⟩, rfl⟩
    | unusable => cases hvalid

end Constant

/-! ## Entries -/

namespace ConstantPool

/-- The slots of constants one behind the other. -/
def layOut (constants : List Constant) : List Constant :=
  constants.flatMap fun c => if c.isWide then [c, .unusable] else [c]

theorem layOut_cons (c : Constant) (constants : List Constant) :
  layOut (c :: constants) = (if c.isWide then [c, .unusable] else [c]) ++ layOut constants
  := rfl

theorem layOut_append (front back : List Constant) :
  layOut (front ++ back) = layOut front ++ layOut back
  := List.flatMap_append

/-- Unusable slots have no bytes. -/
theorem flatMap_toBytes_layOut (constants : List Constant) :
  (layOut constants).flatMap Constant.toBytes = constants.flatMap Constant.toBytes
  := by
  induction constants with
  | nil => rfl
  | cons c constants ih =>
    rw [layOut_cons, List.flatMap_append, ih, List.flatMap_cons]
    split <;> simp [Constant.toBytes]

theorem isLocal_readEntries : ∀ (slots : Nat) (entries : Array Constant),
  IsLocal (readEntries slots entries)
  | 0, entries => inferInstanceAs (IsLocal (pure entries))
  | 1, entries => by
    rw [readEntries]
    infer_instance
  | slots + 2, entries => by
    have hwide : ∀ entries, IsLocal (readEntries slots entries) := isLocal_readEntries slots
    have hnarrow : ∀ entries, IsLocal (readEntries (slots + 1) entries) :=
      isLocal_readEntries (slots + 1)
    rw [readEntries]
    infer_instance

instance (slots : Nat) (entries : Array Constant) : IsLocal (readEntries slots entries) :=
  isLocal_readEntries slots entries

theorem length_layOut_pos (c : Constant) (constants : List Constant) :
  0 < (layOut (c :: constants)).length
  := by
  rw [layOut_cons]
  split <;> simp

/-- The entries read are those in front and the slots of the constants read. -/
def EntriesRead (slots : Nat) (entries : Array Constant) (taken : List UInt8)
    (result : Array Constant) : Prop :=
  ∃ constants, (∀ c ∈ constants, c.Valid) ∧ (layOut constants).length = slots
    ∧ result.toList = entries.toList ++ layOut constants
    ∧ taken = constants.flatMap Constant.toBytes

/-- One more constant in one slot. -/
theorem EntriesRead.narrow {slots : Nat} {entries result : Array Constant} {taken : List UInt8}
    {c : Constant} (hc : c.Valid) (hwide : c.isWide = false)
    (h : EntriesRead slots (entries.push c) taken result) :
  EntriesRead (slots + 1) entries (c.toBytes ++ taken) result
  := by
  obtain ⟨constants, hvalid, rfl, hresult, rfl⟩ := h
  refine ⟨c :: constants, List.forall_mem_cons.mpr ⟨hc, hvalid⟩, ?_, ?_, rfl⟩
  · simp [layOut_cons, hwide]
  · simp [layOut_cons, hwide, hresult]

/-- One more constant in two slots. -/
theorem EntriesRead.wide {slots : Nat} {entries result : Array Constant} {taken : List UInt8}
    {c : Constant} (hc : c.Valid) (hwide : c.isWide = true)
    (h : EntriesRead slots ((entries.push c).push .unusable) taken result) :
  EntriesRead (slots + 2) entries (c.toBytes ++ taken) result
  := by
  obtain ⟨constants, hvalid, rfl, hresult, rfl⟩ := h
  refine ⟨c :: constants, List.forall_mem_cons.mpr ⟨hc, hvalid⟩, ?_, ?_, rfl⟩
  · simp [layOut_cons, hwide]
  · simp [layOut_cons, hwide, hresult]

theorem entriesRead_zero {entries result : Array Constant} {taken : List UInt8} :
  EntriesRead 0 entries taken result ↔ result = entries ∧ taken = []
  := by
  constructor
  · rintro ⟨constants, -, hslots, hresult, rfl⟩
    cases constants with
    | nil => exact ⟨Array.toList_inj.mp (by simpa [layOut] using hresult), rfl⟩
    | cons c constants => exact absurd hslots (length_layOut_pos c constants).ne'
  · rintro ⟨rfl, rfl⟩
    exact ⟨[], by simp, rfl, by simp [layOut], rfl⟩

/-- What is read into at least one slot begins with a constant. -/
theorem EntriesRead.cons {slots : Nat} {entries result : Array Constant} {taken : List UInt8}
    (h : EntriesRead (slots + 1) entries taken result) :
  ∃ c taken', c.Valid ∧ taken = c.toBytes ++ taken'
    ∧ if c.isWide then ∃ n, slots = n + 1
        ∧ EntriesRead n ((entries.push c).push .unusable) taken' result
      else EntriesRead slots (entries.push c) taken' result
  := by
  obtain ⟨constants, hvalid, hslots, hresult, rfl⟩ := h
  cases constants with
  | nil => cases hslots
  | cons c constants =>
    obtain ⟨hc, hvalid⟩ := List.forall_mem_cons.mp hvalid
    use c, constants.flatMap Constant.toBytes, hc, rfl
    rw [layOut_cons] at hslots hresult
    split
    · rename_i hwide
      rw [if_pos hwide] at hslots hresult
      refine ⟨(layOut constants).length, ?_, constants, hvalid, rfl, ?_, rfl⟩
      · simp at hslots
        omega
      · simpa using hresult
    · rename_i hwide
      rw [if_neg hwide] at hslots hresult
      refine ⟨constants, hvalid, ?_, ?_, rfl⟩
      · simpa using hslots
      · simpa using hresult

/-- Reading entries fills the slots with constants. -/
theorem reads_readEntries : ∀ {slots : Nat} {entries result : Array Constant}
    {taken : List UInt8},
  (readEntries slots entries).Reads taken result ↔ EntriesRead slots entries taken result
  | 0, entries, result, taken => by
    rw [readEntries, reads_pure, entriesRead_zero]
  | 1, entries, result, taken => by
    simp only [readEntries, throw_then, reads_bind, (Constant.hasForm_read _) _ _, reads_ite_throw,
      reads_pure]
    constructor
    · rintro ⟨c, _, ⟨hc, rfl⟩, back, ⟨hwide, hresult⟩, rfl⟩
      apply (entriesRead_zero.mpr hresult).narrow hc (by simpa using hwide)
    · intro h
      obtain ⟨c, back, hc, rfl, hback⟩ := h.cons
      refine ⟨c, _, ⟨hc, rfl⟩, back, ?_, rfl⟩
      split at hback
      · obtain ⟨n, hn, -⟩ := hback
        cases hn
      · rename_i hwide
        exact ⟨hwide, entriesRead_zero.mp hback⟩
  | slots + 2, entries, result, taken => by
    simp only [readEntries, reads_bind, (Constant.hasForm_read _) _ _]
    constructor
    · rintro ⟨c, _, ⟨hc, rfl⟩, back, hback, rfl⟩
      split at hback
      · rename_i hwide
        apply (reads_readEntries.mp hback).wide hc hwide
      · rename_i hwide
        apply (reads_readEntries.mp hback).narrow hc (by simpa using hwide)
    · intro h
      obtain ⟨c, back, hc, rfl, hback⟩ := h.cons
      refine ⟨c, _, ⟨hc, rfl⟩, back, ?_, rfl⟩
      split
      · rename_i hwide
        rw [if_pos hwide] at hback
        obtain ⟨n, hn, hback⟩ := hback
        obtain rfl : slots = n := by omega
        apply reads_readEntries.mpr hback
      · rename_i hwide
        rw [if_neg hwide] at hback
        apply reads_readEntries.mpr hback

/-! ## Pools -/

/-- Whether the slots of the pool are those of valid constants whose references are valid. -/
structure WellFormed (pool : ConstantPool) : Prop where
  layOut : ∃ constants, (∀ c ∈ constants, c.Valid)
    ∧ pool.entries.toList = .unusable :: layOut constants
  count_le : pool.count ≤ maxSlots
  valid : pool.validate = .ok ()

instance : IsLocal read := by
  rw [read]
  infer_instance

theorem toBytes_eq {pool : ConstantPool} {constants : List Constant}
    (h : pool.entries.toList = .unusable :: ConstantPool.layOut constants) :
  pool.count = (ConstantPool.layOut constants).length + 1
    ∧ pool.toBytes = Bytes.count16 pool.count ++ constants.flatMap Constant.toBytes
  := by
  constructor
  · rw [count, ← Array.length_toList, h, List.length_cons]
  · rw [toBytes, h, List.drop_one, List.tail_cons, flatMap_toBytes_layOut]

/-- A well-formed pool is read. -/
theorem reads_toBytes {pool : ConstantPool} (h : pool.WellFormed) :
  read.Reads pool.toBytes pool
  := by
  obtain ⟨constants, hvalid, hentries⟩ := h.layOut
  obtain ⟨hcount, hbytes⟩ := toBytes_eq hentries
  have hlimit := h.count_le
  have hslots : (unsigned 2).Reads (Bytes.count16 pool.count) pool.count :=
    reads_unsigned.mpr ⟨Nat.lt_succ_of_le hlimit, rfl⟩
  have hread : (readEntries (pool.count - 1) #[.unusable]).Reads
      (constants.flatMap Constant.toBytes) pool.entries :=
    reads_readEntries.mpr ⟨constants, hvalid, by omega, hentries, rfl⟩
  have hpool : read.Reads _ pool :=
    hslots.bind (hread.bind ((reads_lift.mpr ⟨h.valid, rfl⟩).bind (reads_pure.mpr ⟨rfl, rfl⟩)))
  rw [hbytes]
  simpa using hpool

/-- A pool that is read is well formed; when it has any constant, it has one form. -/
theorem of_reads {pool : ConstantPool} {taken : List UInt8} (h : read.Reads taken pool) :
  pool.WellFormed ∧ (1 < pool.count → taken = pool.toBytes)
  := by
  simp only [read, reads_bind, reads_unsigned, reads_readEntries, reads_lift, reads_pure] at h
  obtain ⟨n, _, ⟨hn, rfl⟩, _, ⟨entries, _, ⟨constants, hvalid, hslots, hentries, rfl⟩, _,
    ⟨⟨⟩, _, ⟨hvalidate, rfl⟩, _, ⟨rfl, rfl⟩, rfl⟩, rfl⟩, rfl⟩ := h
  have hslotsEq : (ConstantPool.mk entries).entries.toList = .unusable :: layOut constants :=
    hentries
  obtain ⟨hcount, hbytes⟩ := toBytes_eq hslotsEq
  have hlimit : maxSlots = 65535 := rfl
  refine ⟨⟨⟨constants, hvalid, hentries⟩, by omega, hvalidate⟩, ?_⟩
  intro hpos
  have hsize : n = count ⟨entries⟩ := by omega
  rw [hbytes, ← hsize]
  simp [Bytes.count16]

end ConstantPool

end JvmCoverage
