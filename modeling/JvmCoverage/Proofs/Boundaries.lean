import JvmCoverage.Proofs.SideTables

/-!
# Bodies keep to the boundaries between their instructions

The content of a body says how long its code array is (`Code.declaredLength`).  The instructions
of a body that was read stand one behind the other from the first byte of this array to the last,
each at its opcode, and every other offset in the body is that of an instruction, or for the end of
a range the length of the array (`Code.KeepsBoundaries`, `Code.keepsBoundaries_of_read`).
-/

namespace JvmCoverage

namespace CodeArray

/-! ## The ends of a tiling -/

variable {start limit : Nat} {insns : List Instruction}

/-- A tiling starts with its first instruction. -/
theorem Tiles.head?_eq (h : Tiles start insns limit) (hne : insns ≠ []) :
  insns.head?.map Instruction.offset = some start
  := by
  cases insns with
  | nil => exact absurd rfl hne
  | cons insn insns => exact congrArg some h.1

/-- A tiling ends with its last instruction. -/
theorem Tiles.getLast?_eq (h : Tiles start insns limit) (hne : insns ≠ []) :
  insns.getLast?.map Instruction.limit = some limit
  := by
  have hlimit := h.limit_eq hne
  rw [List.getLast?_eq_some_getLast hne] at hlimit ⊢
  exact congrArg some hlimit

/-- Every instruction of a tiling starts where the one before ends. -/
theorem Tiles.isChain (h : Tiles start insns limit) :
  insns.IsChain fun a b => b.offset = a.limit
  := by
  induction insns generalizing start with
  | nil => exact .nil
  | cons insn insns ih =>
    obtain ⟨-, htail⟩ := h
    apply List.IsChain.cons (ih htail)
    intro next hnext
    cases insns with
    | nil => cases hnext
    | cons insn' insns =>
      obtain rfl := Option.some.inj hnext
      exact htail.1

/-! ## Opcodes -/

/-- A form of an operation starts with its opcode. -/
theorem head?_of_isForm {offset codeLength : Nat} {taken : List UInt8} {op : Operation}
    (h : Operation.IsForm offset codeLength taken op) :
  taken.head? = some op.opcode
  := by
  obtain ⟨-, -, padding, -, rfl⟩ := h
  cases op with
  | subroutineReturn index wide => cases wide <;> rfl
  | _ => rfl

/-- In forms of instructions the opcode of each stands at its offset. -/
theorem Forms.getElem?_offset {codeLength offset : Nat} {bytes : List UInt8}
    {insns : List Instruction} (h : Forms codeLength offset bytes insns) :
  ∀ insn ∈ insns, bytes[insn.offset - offset]? = some insn.op.opcode
  := by
  induction h with
  | nil offset => simp
  | @cons offset taken rest op insns head tail ih =>
    have hlength := List.length_pos_of_ne_nil (ne_nil_of_isForm head)
    rw [List.forall_mem_cons]
    constructor
    · rw [Nat.sub_self, List.getElem?_append_left hlength, ← List.head?_eq_getElem?]
      apply head?_of_isForm head
    · intro insn hinsn
      have hle := (tail.tiles.bounds hinsn).1
      rw [List.getElem?_append_right (by omega), Nat.sub_sub]
      apply ih insn hinsn

end CodeArray

namespace Code

/-! ## The content of a body -/

/-- The length of the code array that the content of a body declares. -/
def declaredLength (info : List UInt8) : Nat :=
  Bytes.ofBigEndian ((info.drop 4).take 4)

/-- The code array in the content of a body. -/
def codeArray (info : List UInt8) : List UInt8 :=
  (info.drop 8).take (declaredLength info)

variable {front array rest : List UInt8}

theorem declaredLength_eq (hfront : front.length = 4) (harray : array.length < 256 ^ 4) :
  declaredLength (front ++ (Bytes.count32 array.length ++ (array ++ rest))) = array.length
  := by
  rw [declaredLength, List.drop_left' hfront, List.take_left' (Bytes.length_count32 _)]
  apply Bytes.ofBigEndian_bigEndian_of_lt harray

theorem codeArray_eq (hfront : front.length = 4) (harray : array.length < 256 ^ 4) :
  codeArray (front ++ (Bytes.count32 array.length ++ (array ++ rest))) = array
  := by
  have hlength : (front ++ Bytes.count32 array.length).length = 8 := by simp [hfront]
  rw [codeArray, declaredLength_eq hfront harray, ← List.append_assoc, List.drop_left' hlength,
    List.take_left]

/-- The instructions of a body that was read are those of the code array in its content, which is
as long as declared. -/
theorem read_codeArray {pool : ConstantPool} {info : List UInt8} {code : Code}
    (h : read pool info = .ok code) :
  (codeArray info).length = declaredLength info
    ∧ CodeArray.read (codeArray info) = .ok code.instructions
  := by
  obtain ⟨array, hread, _, -, _, -, rfl⟩ := reads_readBody.mp (Reader.runAll_eq_ok.mp h)
  have harray : array.length < 256 ^ 4 := (CodeArray.read_eq_ok.mp hread).1.2.trans_lt (by decide)
  have hfront : (Bytes.field16 code.maxStack ++ Bytes.field16 code.maxLocals).length = 4 := by simp
  rw [List.append_assoc _ array, List.append_assoc _ (Bytes.count32 _),
    declaredLength_eq hfront harray, codeArray_eq hfront harray]
  exact ⟨rfl, hread⟩

/-! ## Boundaries -/

/-- Whether an instruction of the body starts at `offset`. -/
def StartsAt (code : Code) (offset : Nat) : Prop :=
  ∃ insn ∈ code.instructions, insn.offset = offset

/-- Whether a range of code of the given length may end at `offset`. -/
def EndsAt (code : Code) (length offset : Nat) : Prop :=
  offset = length ∨ code.StartsAt offset

/-- Whether the instructions of the body make up the code array in `info` and everything else in
the body keeps to the boundaries between them. -/
structure KeepsBoundaries (code : Code) (info : List UInt8) : Prop where
  length_eq : (codeArray info).length = declaredLength info
  pos : 1 ≤ declaredLength info
  le : declaredLength info ≤ 65535
  first : code.instructions.head?.map Instruction.offset = some 0
  /-- Every instruction starts where the one before ends. -/
  next : code.instructions.IsChain fun a b => b.offset = a.limit
  last : code.instructions.getLast?.map Instruction.limit = some (declaredLength info)
  opcode : ∀ insn ∈ code.instructions, (codeArray info)[insn.offset]? = some insn.op.opcode
  /-- Jumps and the cases of switches lead to instructions. -/
  targets : ∀ insn ∈ code.instructions, ∀ target ∈ insn.op.targets, code.StartsAt target
  lines : ∀ entry ∈ code.lineEntries, code.StartsAt entry.start
  frames : ∀ frame ∈ code.attributes.flatMap CodeAttribute.frames, code.StartsAt frame.offset
  locals : ∀ v ∈ code.attributes.flatMap CodeAttribute.variableEntries,
    code.StartsAt v.start ∧ code.EndsAt (declaredLength info) (v.start + v.length)
  handlers : ∀ h ∈ code.handlers,
    h.start < h.limit ∧ code.StartsAt h.start ∧ code.EndsAt (declaredLength info) h.limit
      ∧ code.StartsAt h.handler

theorem startsAt_iff {code : Code} {offset : Nat} :
  code.StartsAt offset ↔ offset ∈ code.instructions.map Instruction.offset
  := List.mem_map.symm

/-- The tables of a well-formed body keep to its boundaries. -/
theorem WellFormed.startsAt_of_mem {pool : ConstantPool} {code : Code} (h : code.WellFormed pool)
    {attr : CodeAttribute} (hattr : attr ∈ code.attributes) :
  (∀ entry ∈ attr.lineEntries, code.StartsAt entry.start)
    ∧ (∀ frame ∈ attr.frames, code.StartsAt frame.offset)
    ∧ ∀ v ∈ attr.variableEntries,
      code.StartsAt v.start ∧ code.EndsAt code.length (v.start + v.length)
  := by
  obtain ⟨name, -, hfits⟩ := h.attributes attr hattr
  simp only [EndsAt, startsAt_iff]
  cases attr with
  | lineNumbers nameIndex entries =>
    refine ⟨?_, by simp [CodeAttribute.frames], by simp [CodeAttribute.variableEntries]⟩
    intro entry hentry
    exact (lineFits_boundaries.mp (hfits.2.2 entry hentry)).2
  | localVariables nameIndex types entries =>
    refine ⟨by simp [CodeAttribute.lineEntries], by simp [CodeAttribute.frames], ?_⟩
    intro v hv
    exact (variableFits_boundaries.mp (hfits.2.2 v hv)).2
  | stackMap nameIndex frames =>
    refine ⟨by simp [CodeAttribute.lineEntries], ?_, by simp [CodeAttribute.variableEntries]⟩
    intro frame hframe
    exact isStart_boundaries.mp (hfits.2.2 frame hframe)
  | other raw =>
    simp [CodeAttribute.lineEntries, CodeAttribute.frames, CodeAttribute.variableEntries]

/-- A body that could be read keeps to the boundaries between its instructions. -/
theorem keepsBoundaries_of_read {pool : ConstantPool} {info : List UInt8} {code : Code}
    (h : read pool info = .ok code) :
  code.KeepsBoundaries info
  := by
  have hwf := wellFormed_of_read h
  obtain ⟨hlength, hread⟩ := read_codeArray h
  have hdeclared : code.length = declaredLength info := (length_eq hread).trans hlength
  obtain ⟨-, hforms, hlands⟩ := CodeArray.read_eq_ok.mp hread
  have htiles := hwf.instructions.tiles
  refine
    { length_eq := hlength, pos := hdeclared ▸ hwf.instructions.pos,
      le := hdeclared ▸ hwf.instructions.le, first := htiles.head?_eq hwf.ne_nil,
      next := htiles.isChain, last := hdeclared ▸ htiles.getLast?_eq hwf.ne_nil,
      opcode := hforms.getElem?_offset,
      targets := fun insn hinsn target htarget =>
        startsAt_iff.mpr (hlands insn hinsn target htarget),
      lines := ?_, frames := ?_, locals := ?_, handlers := ?_ }
  · intro entry hentry
    obtain ⟨attr, hattr, hentry⟩ := List.mem_flatMap.mp hentry
    exact (hwf.startsAt_of_mem hattr).1 entry hentry
  · intro frame hframe
    obtain ⟨attr, hattr, hframe⟩ := List.mem_flatMap.mp hframe
    exact (hwf.startsAt_of_mem hattr).2.1 frame hframe
  · intro v hv
    obtain ⟨attr, hattr, hv⟩ := List.mem_flatMap.mp hv
    rw [← hdeclared]
    exact (hwf.startsAt_of_mem hattr).2.2 v hv
  · intro handler hhandler
    obtain ⟨-, hfits⟩ := handlerFits_boundaries.mp (hwf.handlers handler hhandler)
    simp only [EndsAt, startsAt_iff]
    rw [← hdeclared]
    exact hfits

theorem keepsBoundaries_of_read_tableBody :
  read ClassFile.tableClass.pool ClassFile.tableBody.form = .ok ClassFile.tableBody
    ∧ ClassFile.tableBody.KeepsBoundaries ClassFile.tableBody.form
  := by
  have hread : read ClassFile.tableClass.pool ClassFile.tableBody.form = .ok ClassFile.tableBody :=
    read_form ClassFile.wellFormed_tableBody (lengthsFit_of_lt (by decide +kernel))
  exact ⟨hread, keepsBoundaries_of_read hread⟩

end Code

end JvmCoverage
