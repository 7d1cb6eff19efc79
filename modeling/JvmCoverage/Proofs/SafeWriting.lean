import JvmCoverage.Machine.Writing
import JvmCoverage.Proofs.Class
import JvmCoverage.Proofs.SafeReading

/-!
# Writing does not fault

A writer on a machine *appends* bytes when it puts them behind what is written, as long as the
length of both has 64 bits.  The parts of a well-formed class append their forms.
-/

namespace JvmCoverage.Machine

/-- The writer puts `bytes` behind what is written. -/
def Appends {ε : Type} (w : List UInt8 → Checked ε (List UInt8)) (bytes : List UInt8) : Prop :=
  ∀ out : List UInt8, out.length + bytes.length < 2 ^ 64 → w out = pure (out ++ bytes)

section Combinators

variable {ε α : Type} {w w' : List UInt8 → Checked ε (List UInt8)} {bytes bytes' : List UInt8}

theorem Appends.bind (h : Appends w bytes) (h' : Appends w' bytes') :
  Appends (fun out => w out >>= w') (bytes ++ bytes')
  := by
  intro out hlength
  rw [List.length_append] at hlength
  change w out >>= w' = _
  rw [h out (by omega), pure_bind, h' _ (by rw [List.length_append]; omega), List.append_assoc]

/-- Bytes in front of a writer. -/
theorem Appends.behind (h : Appends w bytes) (front : List UInt8) :
  Appends (fun out => w (out ++ front)) (front ++ bytes)
  := by
  intro out hlength
  rw [List.length_append] at hlength
  change w (out ++ front) = _
  rw [h _ (by rw [List.length_append]; omega), List.append_assoc]

theorem appends_foldlM {f : List UInt8 → α → Checked ε (List UInt8)} {g : α → List UInt8}
    {xs : List α} (h : ∀ x ∈ xs, Appends (fun out => f out x) (g x)) :
  Appends (fun out => xs.foldlM f out) (xs.flatMap g)
  := by
  induction xs with
  | nil =>
    intro out _
    exact congrArg pure (List.append_nil out).symm
  | cons x xs ih =>
    obtain ⟨hx, hxs⟩ := List.forall_mem_cons.mp h
    simpa only [List.foldlM_cons, List.flatMap_cons] using hx.bind (ih hxs)

end Combinators

/-! ## Attributes -/

/-- A count in four bytes is that of what is left of it in 32 bits. -/
theorem count32_cast (n : Nat) :
  Bytes.count32 (cast 32 n) = Bytes.count32 n
  := by
  have h := Bytes.bigEndian_ofBigEndian (Bytes.bigEndian 4 n)
  rw [Bytes.length_bigEndian, Bytes.ofBigEndian_bigEndian] at h
  exact h

section

variable {m : Type → Type} [Monad m] [Faulting m] [LawfulMonad m]

theorem patchLength_eq {front : List UInt8} (hfront : front.length + 4 < 2 ^ 64)
    (info : List UInt8) :
  (patchLength (front ++ Bytes.count32 0 ++ info) front.length : m (List UInt8))
    = pure (front ++ Bytes.count32 info.length ++ info)
  := by
  have hzeros : (Bytes.count32 0).length = 4 := rfl
  have hlength : (front ++ Bytes.count32 0 ++ info).length = front.length + 4 + info.length := by
    rw [List.length_append, List.length_append, hzeros]
  have hinfo : front.length + 4 + info.length - front.length - 4 = info.length := by omega
  have hdigits : (Bytes.count32 info.length).length = 4 := Bytes.length_bigEndian 4 _
  rw [patchLength, hlength, sub_eq (by omega), pure_bind, sub_eq (by omega), pure_bind,
    add_eq hfront, pure_bind, slice_eq (by omega) (by omega), pure_bind, hinfo, count32_cast,
    fill_eq, pure_bind]
  · congr 2
    · rw [List.append_assoc, List.take_left]
    · apply List.drop_left'
      rw [List.length_append, hzeros]
  · rw [hdigits, List.length_drop, List.length_take, hlength]
    omega

end

theorem appends_putAttribute {ε : Type} (nameIndex : UInt16) (info : List UInt8) :
  Appends (ε := ε) (putAttribute nameIndex info) (Code.attributeBytes nameIndex info)
  := by
  intro out hlength
  have hfield : (Bytes.field16 nameIndex).length = 2 := Bytes.length_field16 nameIndex
  have hdigits : (Bytes.count32 info.length).length = 4 := Bytes.length_bigEndian 4 _
  simp only [Code.attributeBytes, List.length_append, hfield, hdigits] at hlength
  rw [putAttribute, patchLength_eq, Code.attributeBytes]
  · simp only [List.append_assoc]
  · rw [List.length_append, hfield]
    omega

theorem appends_putRawAttributes {ε : Type} (attributes : List RawAttribute) :
  Appends (ε := ε) (putRawAttributes attributes) (ClassFile.rawAttributesBytes attributes)
  := (appends_foldlM fun attr _ => appends_putAttribute attr.nameIndex attr.info).behind _

/-! ## Code arrays -/

section CodeArrays

variable {offset target : Nat}

theorem signed_distance {m : Type → Type} [Monad m] [Faulting m] (hoffset : offset < 2 ^ 32)
    (htarget : target < 2 ^ 32) :
  (signed 64 ((target : Int) - offset) : m Int) = pure ((target : Int) - offset)
  := signed_eq (by omega) (by omega)

theorem shortDistance_eq (opcode : Opcode) (hoffset : offset < 2 ^ 32) (htarget : target < 2 ^ 32) :
  shortDistance opcode offset target = faultless (Operation.shortDistance opcode offset target)
  := by
  rw [shortDistance, signed_distance hoffset htarget, pure_bind, Operation.shortDistance]
  split <;> rfl

theorem longDistance_eq (hoffset : offset < 2 ^ 32) (htarget : target < 2 ^ 32) :
  longDistance offset target = faultless (Operation.longDistance offset target)
  := by
  rw [longDistance, signed_distance hoffset htarget, pure_bind, Operation.longDistance]
  split <;> rfl

theorem bmod_eq {z : Int} (hlow : -2 ^ 31 ≤ z) (hhigh : z < 2 ^ 31) :
  z.bmod (2 ^ 32) = z
  := Int.bmod_eq_of_le (by omega) (by omega)

/-- The greatest key of a table with a target for each key. -/
theorem toInt_add_ofInt {low : Int32} {count : Nat} (hcount : count < 2 ^ 31)
    (hkeys : low.toInt + count ≤ 2 ^ 31) (hpos : 0 < count) :
  (low + Int32.ofInt (count - 1)).toInt = low.toInt + count - 1
  := by
  have hlow := Int32.le_toInt low
  have hlast : (Int32.ofInt (count - 1)).toInt = count - 1 :=
    Int32.toInt_ofInt.trans (bmod_eq (by omega) (by omega))
  rw [Int32.toInt_add, hlast, bmod_eq (by omega) (by omega)]
  omega

theorem toInt_ofNat_eq {count : Nat} (hcount : count < 2 ^ 31) :
  (Int32.ofNat count).toInt = count
  := by
  rw [← Int32.ofInt_eq_ofNat]
  exact Int32.toInt_ofInt.trans (bmod_eq (by omega) (by omega))

/-- Whether the distances of the operation and the number of its targets fit. -/
structure IsNarrowAt (offset : Nat) (op : Operation) : Prop where
  offset_lt : offset + 1 < 2 ^ 32
  targets_lt : ∀ target ∈ op.targets, target < 2 ^ 32
  count_lt : op.targets.length < 2 ^ 31

theorem casesBytes_eq {opcode : Opcode} {default : Nat} {cases : SwitchCases}
    (hwf : (Operation.switch opcode default cases).WellFormed)
    (hnarrow : IsNarrowAt offset (.switch opcode default cases)) :
  casesBytes offset cases = faultless (Operation.casesBytes offset cases)
  := by
  have hoffset := hnarrow.offset_lt
  have htargets := hnarrow.targets_lt
  have hcount := hnarrow.count_lt
  cases cases with
  | table low targets =>
    obtain ⟨-, hpos, hkeys⟩ := hwf
    have hcount : targets.length < 2 ^ 31 := (Nat.le_succ _).trans_lt hcount
    have hdistances : targets.mapM (longDistance offset)
        = faultless (targets.mapM (Operation.longDistance offset)) :=
      mapM_faultless fun target htarget =>
        longDistance_eq (by omega) (htargets target (List.mem_cons_of_mem _ htarget))
    rw [casesBytes, toInt_ofNat_eq hcount, signed_eq (by omega) (by omega), pure_bind, hdistances,
      Operation.casesBytes, faultless_bind]
    simp only [toInt_add_ofInt hcount hkeys hpos]
    rfl
  | lookup pairs =>
    have hentries : pairs.mapM (fun p => (Bytes.signed 4 p.1.toInt ++ ·) <$> longDistance offset p.2)
        = faultless (pairs.mapM fun p =>
            (Bytes.signed 4 p.1.toInt ++ ·) <$> Operation.longDistance offset p.2) := by
      apply mapM_faultless
      intro p hp
      have htarget := htargets p.2 (List.mem_cons_of_mem _ (List.mem_map_of_mem hp))
      rw [longDistance_eq (by omega) htarget, faultless_map]
    rw [casesBytes, hentries, Operation.casesBytes, faultless_bind]
    rfl

theorem operationBytes_eq {op : Operation} (hwf : op.WellFormed) (hnarrow : IsNarrowAt offset op) :
  operationBytes offset op = faultless (op.toBytes offset)
  := by
  have hoffset := hnarrow.offset_lt
  cases op with
  | branch opcode target =>
    have htarget := hnarrow.targets_lt target (List.mem_singleton.mpr rfl)
    rw [operationBytes, longDistance_eq (by omega) htarget, shortDistance_eq _ (by omega) htarget,
      Operation.toBytes, faultless_map]
    congr 1
    exact (apply_ite faultless _ _ _).symm
  | switch opcode default cases =>
    have hdefault := hnarrow.targets_lt default List.mem_cons_self
    rw [operationBytes, switchPadding_eq hoffset, pure_bind, longDistance_eq (by omega) hdefault,
      casesBytes_eq hwf hnarrow, Operation.toBytes, faultless_bind]
    simp only [faultless_bind, faultless_pure]
  | _ => rfl

theorem length_targets_le (op : Operation) (offset : Nat) :
  op.targets.length ≤ op.size offset
  := by
  cases op with
  | branch opcode target =>
    simp only [Operation.targets, Operation.size, List.length_singleton]
    split <;> decide
  | switch opcode default cases =>
    cases cases <;>
      simp only [Operation.targets, Operation.size, SwitchCases.targets, SwitchCases.size,
        List.length_cons, List.length_map] <;>
      omega
  | _ => exact Nat.zero_le _

/-- Instructions that fill code and jump inside it are narrow where they stand. -/
theorem isNarrowAt_of_tiles {insns : List Instruction} {codeLength : Nat}
    (htiles : CodeArray.Tiles 0 insns codeLength) (hle : codeLength ≤ 65535) {insn : Instruction}
    (hinsn : insn ∈ insns) (htargets : ∀ target ∈ insn.op.targets, target < codeLength) :
  IsNarrowAt insn.offset insn.op
  := by
  have hlimit := (htiles.bounds hinsn).2
  have hlt := CodeArray.offset_lt_limit insn
  have hcount := length_targets_le insn.op insn.offset
  rw [Instruction.limit] at hlimit hlt
  refine ⟨by omega, ?_, by omega⟩
  intro target htarget
  have := htargets target htarget
  omega

theorem isNarrowAt_of_wellFormed {insns : List Instruction} {codeLength : Nat}
    (h : CodeArray.WellFormed insns codeLength) {insn : Instruction} (hinsn : insn ∈ insns) :
  IsNarrowAt insn.offset insn.op
  := isNarrowAt_of_tiles h.tiles h.le hinsn fun target htarget =>
    (h.reach insn hinsn target htarget).1

theorem foldlM_putInstruction {base codeLength start limit : Nat} {insns : List Instruction}
    (htiles : CodeArray.Tiles start insns limit)
    (hops : ∀ insn ∈ insns, insn.op.WellFormed ∧ insn.op.InReach insn.offset codeLength
      ∧ IsNarrowAt insn.offset insn.op) (out : List UInt8) (hout : out.length = base + start) :
  insns.foldlM (putInstruction base) out = pure (out ++ CodeArray.form insns)
  := by
  induction insns generalizing start out with
  | nil => simp [CodeArray.form]
  | cons insn insns ih =>
    obtain ⟨⟨hwf, hreach, hnarrow⟩, hops⟩ := List.forall_mem_cons.mp hops
    obtain ⟨rfl, htiles⟩ := htiles
    have hoffset := hnarrow.offset_lt
    have hwritten : out.length - base = insn.offset := by omega
    have hput : putInstruction base out insn
        = pure (out ++ insn.op.form (Operation.zeros insn.offset) insn.offset) := by
      rw [putInstruction, sub_eq (by omega), pure_bind, hwritten, cast_eq (by omega),
        if_neg (not_not_intro rfl), operationBytes_eq hwf hnarrow,
        Operation.toBytes_eq hwf hreach]
      rfl
    rw [List.foldlM_cons, hput, pure_bind, ih htiles hops _, CodeArray.form, CodeArray.form,
      List.flatMap_cons, List.append_assoc]
    rw [List.length_append, Operation.length_form insn.op (Operation.length_zeros insn.offset), hout,
      Nat.add_assoc]
    rfl

theorem putInstructions_eq {codeLength : Nat} {insns : List Instruction}
    (h : CodeArray.WellFormed insns codeLength) (out : List UInt8) :
  putInstructions insns out = pure (out ++ CodeArray.form insns)
  := by
  have hlength := CodeArray.length_form h.tiles
  have hpos := h.pos
  have hle := h.le
  have hput := foldlM_putInstruction h.tiles
    (fun insn hinsn => ⟨h.ops insn hinsn, h.reach insn hinsn, isNarrowAt_of_wellFormed h hinsn⟩)
    out (Nat.add_zero out.length).symm
  have hwritten : (out ++ CodeArray.form insns).length - out.length = codeLength := by
    rw [List.length_append]
    omega
  rw [putInstructions, hput, pure_bind, sub_eq (by rw [List.length_append]; omega), pure_bind,
    hwritten, if_neg (by omega)]

end CodeArrays

/-! ## Stack map frames -/

theorem frameDistance_eq (previous : Option Nat) (offset : Nat) :
  frameDistance previous offset = faultless (Frame.distance previous offset)
  := by
  cases previous with
  | none => rfl
  | some before =>
    by_cases hlt : before < offset
    · rw [frameDistance, if_pos hlt, sub_eq hlt.le, pure_bind, sub_eq (by omega), Frame.distance,
        if_pos hlt]
      rfl
    · rw [frameDistance, if_neg hlt, Frame.distance, if_neg hlt]
      rfl

theorem shapeBytes_eq (distance : Nat) {shape : FrameShape} (hvalid : shape.Valid) :
  shapeBytes distance shape = pure (shape.toBytes distance)
  := by
  cases shape with
  | oneOperand type =>
    by_cases hshort : distance ≤ 63
    · have htag : (64 : UInt8) + UInt8.ofNat distance = UInt8.ofNat (64 + distance) := by
        rw [UInt8.ofNat_add]
        rfl
      have hsum : (64 : UInt8).toNat + (UInt8.ofNat distance).toNat < 2 ^ 8 := by
        have hdistance : (UInt8.ofNat distance).toNat = distance :=
          UInt8.toNat_ofNat_of_lt (hshort.trans_lt (by decide))
        have hbase : (64 : UInt8).toNat = 64 := rfl
        omega
      rw [shapeBytes, if_pos hshort, add8_eq hsum, pure_bind, htag, FrameShape.toBytes,
        if_pos hshort]
      rfl
    · rw [shapeBytes, if_neg hshort, FrameShape.toBytes, if_neg hshort]
      rfl
  | chop count =>
    have hle : count ≤ 251 := UInt8.le_trans hvalid.2 (by decide)
    rw [shapeBytes, sub8_eq hle]
    rfl
  | append locals =>
    have hsum : (251 : UInt8).toNat + (UInt8.ofNat locals.length).toNat < 2 ^ 8 := by
      have hle := hvalid.2
      have hlength : (UInt8.ofNat locals.length).toNat = locals.length :=
        UInt8.toNat_ofNat_of_lt (hle.trans_lt (by decide))
      have hbase : (251 : UInt8).toNat = 251 := rfl
      omega
    rw [shapeBytes, add8_eq hsum]
    rfl
  | _ => rfl

theorem foldlM_putFrame {previous : Option Nat} {frames : List Frame}
    (hordered : Frame.Ordered previous frames)
    (hgaps : ∀ frame ∈ Frame.gaps previous frames, frame.1 ≤ 65535 ∧ frame.2.Valid)
    (out : List UInt8) :
  ∃ last, frames.foldlM putFrame (previous, out)
    = pure (last, out ++ Frame.gapsForm (Frame.gaps previous frames))
  := by
  induction frames generalizing previous out with
  | nil => exact ⟨previous, by simp [Frame.gaps, Frame.gapsForm]⟩
  | cons frame frames ih =>
    obtain ⟨hbefore, hordered⟩ := hordered
    obtain ⟨⟨hgap, hvalid⟩, hgaps⟩ := List.forall_mem_cons.mp hgaps
    have hput : putFrame (previous, out) frame
        = pure (some frame.offset,
            out ++ frame.shape.toBytes (Frame.gap previous frame.offset)) := by
      rw [putFrame, frameDistance_eq, Frame.distance_eq hbefore, faultless_ok, pure_bind,
        if_neg (Nat.not_lt.mpr hgap), shapeBytes_eq _ hvalid, pure_bind]
    obtain ⟨last, hlast⟩ := ih hordered hgaps
      (out ++ frame.shape.toBytes (Frame.gap previous frame.offset))
    use last
    rw [List.foldlM_cons, hput, pure_bind, hlast]
    simp [Frame.gaps, Frame.gapsForm]

theorem frameTable_eq {frames : List Frame} (h : Frame.WellFormed frames) :
  frameTable frames = pure (Frame.tableForm frames)
  := by
  obtain ⟨last, hlast⟩ := foldlM_putFrame h.ordered h.gaps_valid (Bytes.count16 frames.length)
  rw [frameTable, hlast, pure_bind]
  rfl

/-! ## Method bodies -/

section Bodies

variable {pool : ConstantPool}

theorem attributeContent_eq {b : Code.Boundaries} {attr : CodeAttribute}
    (h : attr.WellFormed pool b) :
  attributeContent attr = pure (attr.nameIndex, attr.content)
  := by
  obtain ⟨name, -, hfits⟩ := h
  cases attr with
  | lineNumbers nameIndex entries =>
    rw [attributeContent, Code.countedBytes_eq fun entry h => Code.lineBytes_eq (hfits.2.2 entry h)]
    rfl
  | localVariables nameIndex types entries =>
    rw [attributeContent, Code.countedBytes_eq fun v h => Code.variableBytes_eq (hfits.2.2 v h)]
    rfl
  | stackMap nameIndex frames =>
    rw [attributeContent, frameTable_eq hfits.2.1]
    rfl
  | other raw => rfl

theorem appends_putCodeAttribute {b : Code.Boundaries} {attr : CodeAttribute}
    (h : attr.WellFormed pool b) :
  Appends (fun out => putCodeAttribute out attr) attr.form
  := by
  intro out hlength
  change putCodeAttribute out attr = _
  rw [putCodeAttribute, attributeContent_eq h, pure_bind]
  exact appends_putAttribute _ _ out hlength

theorem appends_putTables {code : Code} (h : code.WellFormed pool) :
  Appends (putTables code) code.tablesForm
  := by
  have hhandlers : Code.countedBytes Code.handlerBytes code.handlers = .ok _ :=
    Code.countedBytes_eq fun handler hmem => Code.handlerBytes_eq (h.handlers handler hmem)
  have hattributes := ((appends_foldlM fun attr hattr =>
    appends_putCodeAttribute (h.attributes attr hattr)).behind
      (Bytes.count16 code.attributes.length)).behind
      (Bytes.count16 code.handlers.length ++ code.handlers.flatMap Code.handlerForm)
  intro out hlength
  rw [putTables, hhandlers, faultless_ok, pure_bind]
  exact hattributes out hlength

theorem encodeCode_eq {code : Code} (h : code.WellFormed pool)
    (hlength : code.form.length < 2 ^ 64) :
  encodeCode code = pure code.form
  := by
  have hfields : (Bytes.field16 code.maxStack ++ Bytes.field16 code.maxLocals).length = 4 := by
    rw [List.length_append, Bytes.length_field16, Bytes.length_field16]
  rw [encodeCode, putInstructions_eq h.instructions, pure_bind, patchLength_eq (by omega), pure_bind,
    appends_putTables h]
  · rfl
  · rw [← List.length_append]
    exact hlength

end Bodies

/-! ## Classes -/

section Classes

variable {c : ClassFile}

theorem appends_putMethodAttribute {pool : ConstantPool} (location : String)
    {attr : MethodAttribute} (h : attr.WellFormed pool) :
  Appends (fun out => putMethodAttribute location out attr) attr.form
  := by
  intro out hlength
  cases attr with
  | code nameIndex body =>
    have hbody : body.form.length < 2 ^ 64 := by
      simp only [MethodAttribute.form, Code.attributeBytes, List.length_append] at hlength
      omega
    change putMethodAttribute location out (.code nameIndex body) = _
    rw [putMethodAttribute, encodeCode_eq h.2 hbody]
    exact appends_putAttribute _ _ out hlength
  | other raw => exact appends_putAttribute _ _ out hlength

theorem appends_putMethod {m : Method} (h : m.WellFormed c.pool) :
  Appends (fun out => putMethod c out m) m.form
  := (appends_foldlM fun attr hattr =>
    appends_putMethodAttribute (c.location m) (h.attributes attr hattr)).behind
      (Bytes.field16 m.accessFlags ++ Bytes.field16 m.nameIndex ++ Bytes.field16 m.descriptorIndex
        ++ Bytes.count16 m.attributes.length)

theorem appends_putField (f : Field) :
  Appends (fun out => putField out f) (ClassFile.fieldBytes f)
  := (appends_putRawAttributes f.attributes).behind
    (Bytes.field16 f.accessFlags ++ Bytes.field16 f.nameIndex ++ Bytes.field16 f.descriptorIndex)

/-- Writing a class does not fault. -/
theorem encode_eq (hmethods : ∀ m ∈ c.methods, m.WellFormed c.pool)
    (hlength : c.form.length < 2 ^ 64) :
  encode c = faultless c.toBytes
  := by
  have hfields := appends_foldlM fun f (_ : f ∈ c.fields) => appends_putField f
  have hbodies := (appends_foldlM fun m hm => appends_putMethod (hmethods m hm)).behind
    (Bytes.count16 c.methods.length)
  have hwrite := hfields.bind (hbodies.bind (appends_putRawAttributes c.attributes))
  have hform : c.headerBytes ++ Bytes.count16 c.fields.length
      ++ (c.fields.flatMap ClassFile.fieldBytes ++ (Bytes.count16 c.methods.length
        ++ c.methods.flatMap Method.form ++ ClassFile.rawAttributesBytes c.attributes)) = c.form := by
    simp only [ClassFile.form, List.append_assoc]
  rw [ClassFile.toBytes_of_methods hmethods, faultless_ok, ← hform]
  apply hwrite
  rw [← List.length_append, hform]
  exact hlength

/-- Checking what was written does not fault. -/
theorem selfCheck_eq {bytes : List UInt8} (hlength : bytes.length < 2 ^ 64) :
  selfCheck bytes = faultless (ClassFile.check bytes)
  := by
  rw [selfCheck, read_eq hlength, mapError_faultless, ClassFile.check]
  cases ClassFile.read bytes <;> rfl

end Classes

end JvmCoverage.Machine
