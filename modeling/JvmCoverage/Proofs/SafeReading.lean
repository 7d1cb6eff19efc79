import JvmCoverage.Proofs.SafeFrames

/-!
# Reading does not fault

The decoders of the constant pool, of the instructions, of the bodies of methods, of annotations,
and of whole classes follow their readers.
-/

namespace JvmCoverage.Machine

/-! ## Constants -/

theorem follows_one (make : UInt16 → Constant) :
  Follows (make <$> field16) (make <$> Reader.field16)
  := follows_field16.map make

theorem follows_two (make : UInt16 → UInt16 → Constant) :
  Follows (make <$> field16 <*> field16) (make <$> Reader.field16 <*> Reader.field16)
  := (follows_field16.map make).seq follows_field16

theorem follows_readConstant (index : UInt16) :
  Follows (readConstant index) (Constant.read index)
  := by
  apply follows_field8.bind
  intro tag _
  split
  · apply (follows_unsigned 2).bind
    intro length _
    exact (follows_take length).map _
  · exact (follows_integer 4).map _
  · exact follows_field32.map _
  · exact (follows_integer 8).map _
  · exact follows_field64.map _
  · apply follows_one
  · apply follows_one
  · apply follows_two
  · apply follows_two
  · apply follows_two
  · apply follows_two
  · exact (follows_field8.map _).seq follows_field16
  · apply follows_one
  · apply follows_two
  · apply follows_two
  · apply follows_one
  · apply follows_one
  · -- no other tag is that of a constant
    try split
    all_goals first | contradiction | apply follows_throw

section Slots

variable {count : UInt16} {slot : Nat}

theorem ofNat_lt_iff (h : slot < 2 ^ 16) :
  UInt16.ofNat slot < count ↔ slot < count.toNat
  := by
  rw [UInt16.lt_iff_toNat_lt, UInt16.toNat_ofNat_of_lt' h]

theorem le_ofNat_iff (h : slot < 2 ^ 16) :
  count ≤ UInt16.ofNat slot ↔ count.toNat ≤ slot
  := by
  rw [UInt16.le_iff_toNat_le, UInt16.toNat_ofNat_of_lt' h]

theorem add16_one {m : Type → Type} [Monad m] [Faulting m] (h : slot + 1 < 2 ^ 16) :
  (add16 (UInt16.ofNat slot) 1 : m UInt16) = pure (UInt16.ofNat (slot + 1))
  := by
  have hslot : (UInt16.ofNat slot).toNat = slot := UInt16.toNat_ofNat_of_lt' (by
    rw [UInt16.size]
    omega)
  rw [add16_eq (by rw [hslot]; exact h), UInt16.ofNat_add]
  rfl

theorem sub16_one {m : Type → Type} [Monad m] [Faulting m] (h : slot + 1 < 2 ^ 16) :
  (sub16 (UInt16.ofNat (slot + 1)) 1 : m UInt16) = pure (UInt16.ofNat slot)
  := by
  have hslot : (UInt16.ofNat (slot + 1)).toNat = slot + 1 := UInt16.toNat_ofNat_of_lt' h
  rw [sub16_eq (by rw [UInt16.le_iff_toNat_le, hslot]; simp), UInt16.ofNat_add]
  simp

end Slots

/-- The slot to read next is the one behind the entries, and there are as many rounds as slots. -/
theorem follows_readEntries {count : UInt16} {rounds : Nat} (slots : Nat) (entries : Array Constant)
    (hslots : slots = count.toNat - entries.size) (hrounds : slots ≤ rounds)
    (hsize : entries.size < 2 ^ 16) :
  Follows (readEntries count rounds (UInt16.ofNat entries.size) entries)
    (ConstantPool.readEntries slots entries)
  := by
  have hcount := count.toNat_lt
  induction rounds generalizing slots entries with
  | zero =>
    obtain rfl : slots = 0 := by omega
    rw [readEntries, if_neg (mt (ofNat_lt_iff hsize).mp (by omega))]
    apply follows_pure
  | succ rounds ih =>
    rw [readEntries]
    match slots with
    | 0 =>
      rw [if_neg (mt (ofNat_lt_iff hsize).mp (by omega))]
      apply follows_pure
    | 1 =>
      rw [if_pos ((ofNat_lt_iff hsize).mpr (by omega))]
      apply (follows_readConstant _).bind
      intro c _
      rw [add16_one (by omega), pure_bind]
      cases hwide : c.isWide
      · simpa [ConstantPool.readEntries] using ih 0 (entries.push c) (by simp; omega) (by omega)
          (by simp; omega)
      · rw [if_pos rfl, if_pos ((le_ofNat_iff (by omega)).mpr (by omega)), sub16_one (by omega),
          pure_bind]
        apply follows_throw
    | slots + 2 =>
      rw [if_pos ((ofNat_lt_iff hsize).mpr (by omega))]
      apply (follows_readConstant _).bind
      intro c _
      rw [add16_one (by omega), pure_bind]
      cases hwide : c.isWide
      · simpa using ih (slots + 1) (entries.push c) (by simp; omega) (by omega)
          (by simp; omega)
      · rw [if_pos rfl, if_neg (mt (le_ofNat_iff (by omega)).mp (by omega)), add16_one (by omega),
          pure_bind]
        simpa using ih slots ((entries.push c).push .unusable)
          (by simp; omega) (by omega) (by simp; omega)

theorem follows_readPool :
  Follows readPool ConstantPool.read
  := by
  change Follows (UInt16.ofNat <$> unsigned 2 >>= _) _
  rw [bind_map_left]
  apply (follows_unsigned 2).bind
  intro n hn
  obtain ⟨_, hn⟩ := hn
  have hn := (Reader.reads_unsigned.mp hn).1
  have hcount : (UInt16.ofNat n).toNat = n := UInt16.toNat_ofNat_of_lt' hn
  have hentries : Follows (readEntries (UInt16.ofNat n) (UInt16.ofNat n).toNat 1 #[.unusable])
      (ConstantPool.readEntries (n - 1) #[.unusable]) :=
    follows_readEntries (n - 1) #[.unusable] (by simp [hcount]) (by omega) (by simp)
  apply hentries.bind
  intro entries _
  apply (follows_lift _).bind
  intro _ _
  apply follows_pure

/-! ## Instructions -/

section

variable {m : Type → Type} [Monad m] [Faulting m] [LawfulMonad m]

theorem switchPadding_eq {offset : Nat} (h : offset + 1 < 2 ^ 32) :
  (switchPadding offset : m Nat) = pure (JvmCoverage.switchPadding offset)
  := by
  rw [switchPadding, add_eq h, pure_bind, sub_eq (by omega), pure_bind, JvmCoverage.switchPadding]
  congr 1
  omega

end

/-- A distance of up to four bytes. -/
def IsDistance (z : Int) : Prop := -2 ^ 31 ≤ z ∧ z < 2 ^ 31

theorem isDistance_of_reads {width : Nat} (hwidth : width ≤ 4) {z : Int}
    (h : ∃ taken, (Reader.signed width).Reads taken z) :
  IsDistance z
  := by
  obtain ⟨taken, h⟩ := h
  obtain ⟨⟨hlow, hhigh⟩, -⟩ := Reader.reads_signed.mp h
  have hpow : 256 ^ width ≤ 256 ^ 4 := Nat.pow_le_pow_right (by omega) hwidth
  constructor <;> omega

theorem follows_resolve {offset : Nat} (hoffset : offset < 2 ^ 32) {distance : Int}
    (hdistance : IsDistance distance) (codeLength : Nat) :
  Follows (resolve offset distance codeLength)
    (Reader.lift (Operation.resolve offset distance codeLength))
  := by
  obtain ⟨hlow, hhigh⟩ := hdistance
  rw [resolve, signed_eq (by omega) (by omega), pure_bind, Operation.resolve]
  split
  · apply follows_throw
  · apply follows_pure

section Offsets

variable {offset : Nat} (hoffset : offset < 2 ^ 16) (codeLength : Nat)

include hoffset

theorem follows_readTarget {width : Nat} (hwidth : width ≤ 4) :
  Follows (readTarget width offset codeLength) (Operation.readTarget width offset codeLength)
  := (follows_integer width).bind fun _ hz =>
    follows_resolve (by omega) (isDistance_of_reads hwidth hz) codeLength

theorem follows_readTable :
  Follows (readTable offset codeLength) (Operation.readTable offset codeLength)
  := by
  apply (follows_integer 4).bind
  intro low hlow
  apply (follows_integer 4).bind
  intro high hhigh
  have hlow := isDistance_of_reads le_rfl hlow
  have hhigh := isDistance_of_reads le_rfl hhigh
  apply Follows.ite
  · intro _
    apply follows_throw
  · intro hle
    obtain ⟨hlow, -⟩ := hlow
    obtain ⟨-, hhigh⟩ := hhigh
    rw [signed_eq (by omega) (by omega), pure_bind, signed_eq (by omega) (by omega), pure_bind,
      mul_eq (by omega), pure_bind]
    apply follows_demand_bind
    apply ((follows_readTarget hoffset codeLength le_rfl).times _).bind
    intro targets _
    apply follows_pure

theorem follows_readPair :
  Follows (readPair offset codeLength) (Operation.readPair offset codeLength)
  := by
  apply (follows_integer 4).bind
  intro key _
  apply (follows_readTarget hoffset codeLength le_rfl).bind
  intro target _
  apply follows_pure

theorem follows_readLookup :
  Follows (readLookup offset codeLength) (Operation.readLookup offset codeLength)
  := by
  apply (follows_integer 4).bind
  intro count hcount
  obtain ⟨-, hhigh⟩ := isDistance_of_reads le_rfl hcount
  apply Follows.ite
  · intro _
    apply follows_throw
  · intro _
    rw [mul_eq (by omega), pure_bind]
    apply follows_demand_bind
    exact ((follows_readPair hoffset codeLength).times _).map _

theorem follows_readCases (opcode : Opcode) :
  Follows (readCases opcode offset codeLength) (Operation.readCases opcode offset codeLength)
  := Follows.ite (fun _ => follows_readTable hoffset codeLength)
    (fun _ => follows_readLookup hoffset codeLength)

theorem follows_readSwitch (opcode : Opcode) :
  Follows (readSwitch opcode offset codeLength) (Operation.readSwitch opcode offset codeLength)
  := by
  rw [readSwitch, switchPadding_eq (by omega), pure_bind]
  apply (follows_take _).bind
  intro _ _
  apply (follows_readTarget hoffset codeLength le_rfl).bind
  intro default _
  apply (follows_readCases hoffset codeLength opcode).bind
  intro cases _
  apply follows_pure

omit hoffset in
theorem follows_readFixed (opcode : Opcode) (length : Nat) :
  Follows (readFixed opcode length offset) (Operation.readFixed opcode length offset)
  := by
  apply Follows.ite
  · intro _
    apply follows_field16.bind
    intro index _
    apply follows_pure
  intro _
  apply Follows.ite
  · intro _
    apply follows_field16.bind
    intro index _
    apply follows_field8.bind
    intro count _
    apply follows_field8.bind
    intro reserved _
    exact Follows.ite (fun _ => follows_throw _) (fun _ => follows_pure _)
  intro _
  apply Follows.ite (fun _ => follows_pure _)
  intro _
  apply Follows.ite (fun _ => follows_pure _)
  intro _
  apply Follows.ite
  · intro _
    apply (follows_unsigned 1).bind
    intro index _
    apply follows_pure
  · intro _
    exact (follows_take length).map _

theorem follows_readWide :
  Follows (readWide offset) (Operation.readWide offset)
  := by
  apply follows_field8.bind
  intro widened _
  apply Follows.ite
  · intro _
    apply follows_field16.bind
    intro index _
    apply follows_pure
  intro _
  apply Follows.ite
  · intro _
    apply (follows_take _).bind
    intro operands _
    apply follows_pure
  · intro _
    rw [add_eq (by omega), pure_bind]
    apply follows_throw

theorem follows_readOperands (opcode : Opcode) :
  Follows (readOperands offset codeLength opcode) (Operation.readOperands offset codeLength opcode)
  := by
  unfold readOperands Operation.readOperands
  cases opcode.layout? with
  | none => apply follows_throw
  | some layout =>
    cases layout with
    | fixed length => apply follows_readFixed
    | branch16 => exact (follows_readTarget hoffset codeLength (by decide : 2 ≤ 4)).map _
    | branch32 => exact (follows_readTarget hoffset codeLength le_rfl).map _
    | switch => exact follows_readSwitch hoffset codeLength opcode
    | wide => exact follows_readWide hoffset

theorem follows_readOperation :
  Follows (readOperation offset codeLength) (Operation.read offset codeLength)
  := follows_field8.bind fun opcode _ => follows_readOperands hoffset codeLength opcode

end Offsets

/-- An instruction takes at least a byte, so there are as many rounds as bytes. -/
theorem readInstructionsFrom_eq (codeLength rounds : Nat) (done : List Instruction)
    {s : ByteReader} (hs : s.IsValid) (hlength : s.bytes.length < 2 ^ 16)
    (hrounds : s.bytes.length - s.position ≤ rounds) :
  (readInstructionsFrom codeLength rounds done).run' s
    = faultless (CodeArray.instructionsAfter codeLength done s.cursor)
  := by
  have hrest {s : ByteReader} : s.cursor.rest.length = s.bytes.length - s.position :=
    List.length_drop
  induction rounds generalizing done s with
  | zero =>
    have hempty : s.cursor.rest = [] := List.length_eq_zero_iff.mp (by rw [hrest]; omega)
    change Prod.fst <$> (remaining s >>= _) = _
    rw [remaining_eq hs, pure_bind, CodeArray.instructionsAfter]
    simp [hempty]
    rfl
  | succ rounds ih =>
    change Prod.fst <$> (remaining s >>= _) = _
    rw [remaining_eq hs, pure_bind, CodeArray.instructionsAfter]
    cases hc : s.cursor.rest with
    | nil =>
      simp
      rfl
    | cons byte rest =>
      have hlt := congrArg List.length hc
      rw [hrest, List.length_cons] at hlt
      simp only [List.length_cons, Nat.zero_lt_succ, if_true, List.isEmpty_cons, Bool.false_eq_true,
        if_false]
      have hoffset : s.position < 2 ^ 16 := by
        have := hs.position_le
        omega
      have hread := follows_readOperation hoffset codeLength s hs
      change Prod.fst <$> (readOperation s.position codeLength s >>= fun p =>
        readInstructionsFrom codeLength rounds (⟨s.position, p.1⟩ :: done) p.2) = _
      rw [hread]
      split
      · rename_i e he
        change Operation.read s.position codeLength s.cursor = _ at he
        rw [he]
        rfl
      · rename_i op c' hop
        change Operation.read s.position codeLength s.cursor = _ at hop
        obtain ⟨taken, htaken, hposition, -⟩ := Reader.IsLocal.reads_of_ok _ _ _ hop
        obtain ⟨hvalid, hcursor⟩ := ByteReader.moved_spec hs htaken hposition
        have hless : (s.moved c').cursor.rest.length < s.cursor.rest.length := by
          rw [hcursor]
          exact Operation.read_lt hop
        rw [hrest, hrest] at hless
        rw [hop]
        change Prod.fst <$> readInstructionsFrom codeLength rounds _ (s.moved c') = _
        rw [← hcursor]
        apply ih _ hvalid hlength
        simp only [ByteReader.moved] at hless ⊢
        omega

theorem readCodeArray_eq (code : List UInt8) :
  readCodeArray code = faultless (CodeArray.read code)
  := by
  simp only [readCodeArray, CodeArray.read]
  by_cases h : code.length = 0 ∨ CodeArray.maxLength < code.length
  · simp only [if_pos h]
    rfl
  · have hlength : code.length < 2 ^ 16 := by
      rw [CodeArray.maxLength] at h
      omega
    have hvalid : ByteReader.IsValid ⟨code, 0⟩ := ⟨Nat.zero_le _, by simp only; omega⟩
    have hread := readInstructionsFrom_eq code.length code.length [] hvalid hlength (by simp)
    change _ = faultless (CodeArray.instructionsAfter code.length [] ⟨0, code⟩) at hread
    simp only [if_neg h, hread, faultless_bind, faultless_pure]

/-! ## Method bodies -/

open Code (Boundaries)

theorem follows_readLine (b : Boundaries) :
  Follows (readLine b) (Code.readLine b)
  := by
  apply (follows_unsigned 2).bind
  intro start _
  apply follows_field16.bind
  intro line _
  exact Follows.ite (fun _ => follows_pure _) (fun _ => follows_throw _)

theorem follows_readVariable (types : Bool) (b : Boundaries) :
  Follows (readVariable types b) (Code.readVariable types b)
  := by
  apply (follows_unsigned 2).bind
  rintro start ⟨_, hstart⟩
  apply (follows_unsigned 2).bind
  rintro length ⟨_, hlength⟩
  have hstart := (Reader.reads_unsigned.mp hstart).1
  have hlength := (Reader.reads_unsigned.mp hlength).1
  apply follows_field16.bind
  intro nameIndex _
  apply follows_field16.bind
  intro descriptorIndex _
  apply follows_field16.bind
  intro slot _
  rw [add_eq (by omega), pure_bind]
  exact Follows.ite (fun _ => follows_pure _) (fun _ => follows_throw _)

theorem follows_readHandler (b : Boundaries) :
  Follows (readHandler b) (Code.readHandler b)
  := by
  apply (follows_unsigned 2).bind
  intro start _
  apply (follows_unsigned 2).bind
  intro limit _
  apply (follows_unsigned 2).bind
  intro handler _
  apply follows_field16.bind
  intro catchType _
  exact Follows.ite (fun _ => follows_pure _) (fun _ => follows_throw _)

theorem readContent_eq (b : Boundaries) (name : List UInt8) (nameIndex : UInt16)
    {info : List UInt8} (hlength : info.length < 2 ^ 64) :
  readContent b name nameIndex info = faultless (Code.readContent b name nameIndex info)
  := by
  unfold readContent Code.readContent
  split
  · rw [runAll_eq (follows_readLine b).counted hlength]
    apply (faultless_map _ _).symm
  split
  · rw [runAll_eq (follows_readVariable false b).counted hlength]
    apply (faultless_map _ _).symm
  split
  · rw [runAll_eq (follows_readVariable true b).counted hlength]
    apply (faultless_map _ _).symm
  split
  · rw [readFrameTable_eq hlength, faultless_bind]
    congr
    funext frames
    cases frames.find? fun frame => !b.isStart frame.offset <;> rfl
  · rfl

/-- The content of an attribute is shorter than its four-byte length says at most. -/
theorem length_lt_of_reads {length : Nat} (h : ∃ taken, (Reader.unsigned 4).Reads taken length)
    {info : List UInt8} (h' : ∃ taken, (Reader.take length).Reads taken info) :
  info.length < 2 ^ 64
  := by
  obtain ⟨_, h⟩ := h
  obtain ⟨_, h'⟩ := h'
  have hlt := (Reader.reads_unsigned.mp h).1
  have hlength := (Reader.reads_take.mp h')
  simp_all
  omega

theorem follows_readCodeAttribute (pool : ConstantPool) (b : Boundaries) :
  Follows (readCodeAttribute pool b) (Code.readAttribute pool b)
  := by
  apply follows_field16.bind
  intro nameIndex _
  apply (follows_unsigned 4).bind
  intro length hlength
  apply (follows_take length).bind
  intro info hinfo
  apply (follows_lift _).bind
  intro name _
  exact follows_checked (readContent_eq b name nameIndex (length_lt_of_reads hlength hinfo))

theorem follows_readInstructions :
  Follows readInstructions Code.readInstructions
  := by
  apply (follows_unsigned 4).bind
  intro length _
  apply Follows.ite (fun _ => follows_throw _)
  intro _
  apply (follows_take length).bind
  intro code _
  apply (follows_checked (readCodeArray_eq code)).bind
  intro instructions _
  apply follows_pure

theorem follows_readBody (pool : ConstantPool) :
  Follows (readBody pool) (Code.readBody pool)
  := by
  apply follows_field16.bind
  intro maxStack _
  apply follows_field16.bind
  intro maxLocals _
  apply follows_readInstructions.bind
  rintro ⟨length, instructions⟩ _
  apply (follows_readHandler _).counted.bind
  intro handlers _
  apply (follows_readCodeAttribute pool _).counted.bind
  intro attributes _
  apply follows_pure

/-! ## Annotations -/

instance (n : Nat) : Reader.IsLocal <| Annotation.skip n := by
  unfold Annotation.skip
  infer_instance

instance (value : Reader Unit) [Reader.IsLocal value] :
    Reader.IsLocal <| Annotation.typeIndex value := by
  unfold Annotation.typeIndex
  infer_instance

theorem isLocal_bind {α β : Type} {r : Reader α} [Reader.IsLocal r] {f : α → Reader β}
    (h : ∀ a, Reader.IsLocal (f a)) :
  Reader.IsLocal (r >>= f)
  := inferInstance

theorem isLocal_skipValue (levels : Nat) :
  Reader.IsLocal <| Annotation.skipValue levels
  := by
  induction levels with
  | zero =>
    unfold Annotation.skipValue
    infer_instance
  | succ levels ih =>
    unfold Annotation.skipValue
    apply isLocal_bind
    intro tag
    split <;> infer_instance

theorem follows_skip (n : Nat) :
  Follows (skip n) <| Annotation.skip n
  := by
  apply (follows_take n).bind
  intro _ _
  apply follows_pure

theorem follows_typeIndex {d : Decoder Unit} {value : Reader Unit} [Reader.IsLocal value]
    (hd : Follows d value) :
  Follows (typeIndex d) <| Annotation.typeIndex value
  := by
  apply follows_field16.bind
  intro type _
  apply (follows_unsigned 2).bind
  intro pairs _
  have hpair : Follows (do skip 2; d) (do Annotation.skip 2; value) :=
    (follows_skip 2).bind fun _ _ => hd
  apply (hpair.times pairs).bind
  intro _ _
  apply follows_pure

/-- The levels that are left make up for the depth. -/
theorem follows_skipValue {rounds depth levels : Nat} (hdepth : depth + levels = Annotation.maxLevels)
    (hrounds : levels < rounds) :
  Follows (skipValue rounds depth) <| Annotation.skipValue levels
  := by
  unfold Annotation.maxLevels at hdepth
  induction levels generalizing rounds depth with
  | zero =>
    obtain ⟨rounds, rfl⟩ := Nat.exists_eq_add_one_of_ne_zero (Nat.ne_zero_of_lt hrounds)
    rw [skipValue, if_pos (by omega)]
    apply follows_throw
  | succ levels ih =>
    obtain ⟨rounds, rfl⟩ := Nat.exists_eq_add_one_of_ne_zero (Nat.ne_zero_of_lt hrounds)
    have hbelow : Follows (skipValue rounds (depth + 1)) <| Annotation.skipValue levels :=
      ih (by omega) (by omega)
    have := isLocal_skipValue levels
    rw [skipValue, if_neg (by omega), Annotation.skipValue]
    apply follows_field8.bind
    intro tag _
    rw [add_eq (by omega)]
    simp only [pure_bind]
    generalize Char.ofNat tag.toNat = c
    split
    case h_12 =>
      apply (follows_typeIndex hbelow).bind
      intro _ _
      apply follows_pure
    case h_13 =>
      apply hbelow.counted.bind
      intro _ _
      apply follows_pure
    case h_14 =>
      -- no other letter is a tag
      try split
      all_goals first | contradiction | apply follows_throw
    all_goals apply follows_skip

theorem typeIndices_eq {payload : List UInt8} (hlength : payload.length < 2 ^ 64) :
  typeIndices payload = (faultless <| Annotation.typeIndices payload)
  := by
  have := isLocal_skipValue Annotation.maxLevels
  have hvalue : Follows (skipValue 66 0) <| Annotation.skipValue Annotation.maxLevels :=
    follows_skipValue rfl (by decide)
  exact runAll_eq (follows_typeIndex hvalue).counted hlength

/-! ## Classes -/

theorem readCode_eq (pool : ConstantPool) {info : List UInt8} (hlength : info.length < 2 ^ 64) :
  readCode pool info = faultless (Code.read pool info)
  := runAll_eq (follows_readBody pool) hlength

theorem follows_readRawAttribute (pool : ConstantPool) :
  Follows (readRawAttribute pool) (ClassFile.readRawAttribute pool)
  := by
  apply follows_field16.bind
  intro nameIndex _
  apply (follows_lift _).bind
  intro _ _
  apply (follows_unsigned 4).bind
  intro length _
  apply (follows_take length).bind
  intro info _
  apply follows_pure

theorem follows_readField (pool : ConstantPool) :
  Follows (readField pool) (ClassFile.readField pool)
  := by
  apply follows_field16.bind
  intro accessFlags _
  apply follows_field16.bind
  intro nameIndex _
  apply follows_field16.bind
  intro descriptorIndex _
  apply (follows_readRawAttribute pool).counted.bind
  intro attributes _
  apply follows_pure

theorem follows_readMethodAttribute (pool : ConstantPool) :
  Follows (readMethodAttribute pool) (ClassFile.readMethodAttribute pool)
  := by
  apply follows_field16.bind
  intro nameIndex _
  apply (follows_unsigned 4).bind
  intro length hlength
  apply (follows_take length).bind
  intro info hinfo
  apply (follows_lift _).bind
  intro name _
  apply Follows.ite
  · intro _
    exact (follows_checked (readCode_eq pool (length_lt_of_reads hlength hinfo))).map _
  · intro _
    apply follows_pure

theorem follows_readMethod (pool : ConstantPool) :
  Follows (readMethod pool) (ClassFile.readMethod pool)
  := by
  apply follows_field16.bind
  intro accessFlags _
  apply follows_field16.bind
  intro nameIndex _
  apply follows_field16.bind
  intro descriptorIndex _
  apply (follows_readMethodAttribute pool).counted.bind
  intro attributes _
  apply (follows_lift _).bind
  intro name _
  apply (follows_lift _).bind
  intro descriptor _
  apply follows_pure

theorem follows_readMagic :
  Follows readMagic ClassFile.readMagic
  := follows_field32.bind fun _ _ =>
    Follows.ite (fun _ => follows_pure _) (fun _ => follows_throw _)

theorem follows_readClassFile :
  Follows readClassFile ClassFile.readClass
  := by
  apply follows_readMagic.bind
  intro _ _
  apply follows_field16.bind
  intro minorVersion _
  apply follows_field16.bind
  intro majorVersion _
  apply follows_readPool.bind
  intro pool _
  apply follows_field16.bind
  intro accessFlags _
  apply follows_field16.bind
  intro thisClass _
  apply follows_field16.bind
  intro superClass _
  apply (follows_lift _).bind
  intro name _
  apply (follows_lift _).bind
  intro _ _
  apply follows_field16.counted.bind
  intro interfaces _
  apply (follows_readField pool).counted.bind
  intro fields _
  apply (follows_readMethod pool).counted.bind
  intro methods _
  apply (follows_readRawAttribute pool).counted.bind
  intro attributes _
  apply follows_pure

/-- Reading a class from an array of bytes does not fault. -/
theorem read_eq {bytes : List UInt8} (hlength : bytes.length < 2 ^ 64) :
  read bytes = faultless (ClassFile.read bytes)
  := runAll_eq follows_readClassFile hlength

end JvmCoverage.Machine
