import JvmCoverage.Proofs.Probed
import JvmCoverage.Proofs.SafeWriting
import JvmCoverage.Proofs.Widening

/-!
# Instructions can be moved

An operation that was read may be given other targets, and a `goto` or `jsr` its wide form
(`Operation.IsMoved`).  Instructions with such operations that stand one behind the other and jump
to one another (`CodeArray.IsPlaced`) are written and read back if no jump is too far for two bytes;
if some are, writing fails at the first of them (`CodeArray.read_write`).
-/

namespace JvmCoverage

/-! ## Moved operations -/

namespace Operation

/-- Whether moving an operation that was read may lead to the operation. -/
inductive IsMoved : Operation → Prop where
  | read {offset codeLength : Nat} {c c' : Cursor} {op : Operation}
      (h : read offset codeLength c = .ok (op, c')) : IsMoved op
  /-- Its jumps lead elsewhere. -/
  | retarget {op : Operation} (f : Nat → Nat) (h : IsMoved op) : IsMoved (op.mapTargets f)
  /-- A `goto` or `jsr` takes its wide form. -/
  | widen {op : Operation} (hjump : op.isShortJump) (h : IsMoved op) : IsMoved op.widen

theorem wellFormed_widen {op : Operation} (hjump : op.isShortJump) :
  op.widen.WellFormed
  := by
  cases op with
  | branch opcode target =>
    simp only [isShortJump, Bool.or_eq_true, beq_iff_eq] at hjump
    rcases hjump with rfl | rfl <;> exact .inr rfl
  | _ => cases hjump

/-- Moving keeps operands that agree with the opcode. -/
theorem IsMoved.wellFormed {op : Operation} (h : op.IsMoved) :
  op.WellFormed
  := by
  induction h with
  | read h =>
    obtain ⟨taken, -, -, hreads⟩ := Reader.exists_reads h
    exact (isForm_of_reads hreads).1
  | retarget f _ ih => exact wellFormed_mapTargets ih
  | widen hjump _ _ => exact wellFormed_widen hjump

/-- An operation can be read from its form when the opcode agrees with the operands and the targets
are in reach. -/
theorem isMoved_of_inReach (offset codeLength : Nat) {op : Operation} (hwf : op.WellFormed)
    (hreach : op.InReach offset codeLength) :
  op.IsMoved
  := .read (reads_of_isForm ⟨hwf, hreach, zeros offset, length_zeros offset, rfl⟩ 0 [])

end Operation

namespace Instruction

/-- Whether the instruction is a jump to `target` with two bytes for a distance that needs more. -/
def IsFar (insn : Instruction) (opcode : Opcode) (target : Nat) : Prop :=
  insn.op = .branch opcode target ∧ opcode.isWideBranch = false
    ∧ ¬ Layout.IsShort ((target : Int) - insn.offset)

/-- Whether the distance of the instruction fits if it has two bytes. -/
def IsNear (insn : Instruction) : Prop :=
  ∀ opcode target, ¬ insn.IsFar opcode target

/-- Of instructions of which not all are near one is the first that is far. -/
theorem exists_first_isFar {insns : List Instruction} (h : ∃ insn ∈ insns, ¬ insn.IsNear) :
  ∃ front insn back opcode target, insns = front ++ insn :: back
    ∧ (∀ a ∈ front, a.IsNear) ∧ insn.IsFar opcode target
  := by
  induction insns with
  | nil =>
    obtain ⟨insn, hinsn, -⟩ := h
    cases hinsn
  | cons insn insns ih =>
    by_cases hnear : insn.IsNear
    · obtain ⟨front, far, back, opcode, target, rfl, hfront, hfar⟩ := ih (by simpa [hnear] using h)
      exact ⟨insn :: front, far, back, opcode, target, rfl,
        List.forall_mem_cons.mpr ⟨hnear, hfront⟩, hfar⟩
    · obtain ⟨opcode, target, hfar⟩ : ∃ opcode target, insn.IsFar opcode target := by
        simpa [IsNear] using hnear
      exact ⟨[], insn, insns, opcode, target, rfl, nofun, hfar⟩

end Instruction

namespace CodeArray

/-! ## Instructions in their places -/

/-- Whether the instructions fill code of the given length and jump to one another. -/
structure IsPlaced (insns : List Instruction) (length : Nat) : Prop where
  ops : ∀ insn ∈ insns, insn.op.IsMoved
  /-- The instructions stand one behind the other, each with as many bytes as its size says. -/
  tiles : Tiles 0 insns length
  lands : Lands insns
  pos : 0 < length
  le : length ≤ 65535

variable {insns : List Instruction} {length : Nat}

/-- Jumps stay inside the code. -/
theorem IsPlaced.target_lt (h : IsPlaced insns length) {insn : Instruction} (hinsn : insn ∈ insns)
    {target : Nat} (htarget : target ∈ insn.op.targets) :
  target < length
  := by
  obtain ⟨place, hplace, rfl⟩ := List.mem_map.mp (h.lands insn hinsn target htarget)
  exact (offset_lt_limit place).trans_le (h.tiles.bounds hplace).2

theorem IsPlaced.isNarrowAt (h : IsPlaced insns length) {insn : Instruction}
    (hinsn : insn ∈ insns) :
  Machine.IsNarrowAt insn.offset insn.op
  := Machine.isNarrowAt_of_tiles h.tiles h.le hinsn fun _ => h.target_lt hinsn

/-- Jumps are in reach where two bytes are enough for their distance. -/
theorem IsPlaced.inReach (h : IsPlaced insns length) {insn : Instruction} (hinsn : insn ∈ insns)
    (hnear : insn.IsNear) :
  insn.op.InReach insn.offset length
  := by
  intro target htarget
  have htargetLt := h.target_lt hinsn htarget
  have hoffsetLt := (offset_lt_limit insn).trans_le (h.tiles.bounds hinsn).2
  have hle := h.le
  have hlong : Bytes.Fits 4 ((target : Int) - insn.offset) :=
    Operation.fits_of_lt (by omega) (by omega)
  use htargetLt
  -- Only a branch that is not wide has two bytes, and only for it is `hnear` needed.
  unfold Operation.distanceWidth
  split
  · rename_i opcode target' hop
    rw [hop, Operation.targets, List.mem_singleton] at htarget
    split
    · exact hlong
    · rename_i hwide
      have hshort : Layout.IsShort ((target' : Int) - insn.offset) := by
        by_contra hfar
        exact hnear opcode target' ⟨hop, by simpa using hwide, hfar⟩
      rw [htarget]
      exact Layout.fits_of_reaches (Layout.reaches_iff.mpr hshort)
  · exact hlong

theorem IsPlaced.wellFormed (h : IsPlaced insns length) (hnear : ∀ insn ∈ insns, insn.IsNear) :
  WellFormed insns length
  where
    tiles := h.tiles
    pos := h.pos
    le := h.le
    ops insn hinsn := (h.ops insn hinsn).wellFormed
    reach insn hinsn := h.inReach hinsn (hnear insn hinsn)
    lands := h.lands

/-! ## Writing and reading back -/

/-- What is written for an operation in reach has as many bytes as its size says. -/
theorem parts_of_wellFormed (h : WellFormed insns length) :
  List.Forall₂ (fun insn part => insn.op.toBytes insn.offset = .ok part
      ∧ part.length = insn.op.size insn.offset)
    insns (insns.map fun insn => insn.op.form (Operation.zeros insn.offset) insn.offset)
  := by
  rw [List.forall₂_map_right_iff, List.forall₂_same]
  intro insn hinsn
  use Operation.toBytes_eq (h.ops insn hinsn) (h.reach insn hinsn)
  exact Operation.length_form insn.op (Operation.length_zeros insn.offset)

/-- A jump that is too far for two bytes is not written. -/
theorem toBytes_of_isFar {insn : Instruction} {opcode : Opcode} {target : Nat}
    (h : insn.IsFar opcode target) :
  insn.op.toBytes insn.offset = .error (.shortBranch opcode insn.offset target)
  := by
  obtain ⟨hop, hwide, hfar⟩ := h
  have hdistance : Operation.shortDistance opcode insn.offset target
      = .error (.shortBranch opcode insn.offset target) := by
    rw [Operation.shortDistance]
    apply if_neg
    rw [Layout.IsShort] at hfar
    omega
  rw [hop, Operation.toBytes, hwide, if_neg Bool.false_ne_true, hdistance]
  rfl

section Front

variable {front back : List Instruction} {insn : Instruction} {fault : EncodeFault}
  (h : IsPlaced insns length) (hinsns : insns = front ++ insn :: back)
  (hfront : ∀ a ∈ front, a.IsNear) (hfault : insn.op.toBytes insn.offset = .error fault)

include hinsns

theorem mem_of_mem_front {a : Instruction} (ha : a ∈ front) :
  a ∈ insns
  := hinsns ▸ List.mem_append_left _ ha

include h

/-- The instructions in front of another one fill the code up to it. -/
theorem IsPlaced.tiles_front :
  Tiles 0 front insn.offset
  := by
  obtain ⟨middle, htiles, rfl, -⟩ := tiles_append.mp (hinsns ▸ h.tiles)
  exact htiles

include hfront

theorem IsPlaced.ops_front :
  ∀ a ∈ front, a.op.WellFormed ∧ a.op.InReach a.offset length
  := by
  intro a ha
  have hmem := mem_of_mem_front hinsns ha
  exact ⟨(h.ops a hmem).wellFormed, h.inReach hmem (hfront a ha)⟩

include hfault

/-- Writing fails at an instruction that cannot be written behind those in front of it. -/
theorem IsPlaced.write_eq_error :
  write insns = .error (.encode fault)
  := by
  have hlength := length_form (h.tiles_front hinsns)
  have hnext : writeNext ((#[] : Array UInt8) ++ form front) insn = .error (.encode fault) := by
    rw [writeNext, if_neg, hfault]
    · rfl
    · simpa [size_append] using hlength
  rw [write, hinsns, List.foldlM_append,
    foldlM_writeNext (h.tiles_front hinsns) (h.ops_front hinsns hfront) #[] rfl]
  change (List.foldlM writeNext ((#[] : Array UInt8) ++ form front) (insn :: back) >>= _) = _
  rw [List.foldlM_cons, hnext]
  rfl

theorem IsPlaced.putInstructions_eq_error (out : List UInt8) :
  Machine.putInstructions insns out = .error (.error (.encode fault))
  := by
  have hinsn : insn ∈ insns := by simp [hinsns]
  have hlength := length_form (h.tiles_front hinsns)
  have hoffset := (h.isNarrowAt hinsn).offset_lt
  have hwritten : (out ++ form front).length - out.length = insn.offset := by
    rw [List.length_append]
    omega
  have hput : Machine.putInstruction out.length (out ++ form front) insn
      = .error (.error (.encode fault)) := by
    rw [Machine.putInstruction, Machine.sub_eq (by simp), pure_bind, hwritten,
      Machine.cast_eq (by omega), if_neg (not_not_intro rfl),
      Machine.operationBytes_eq (h.ops insn hinsn).wellFormed (h.isNarrowAt hinsn), hfault]
    rfl
  have hops : ∀ a ∈ front, a.op.WellFormed ∧ a.op.InReach a.offset length
      ∧ Machine.IsNarrowAt a.offset a.op := by
    intro a ha
    obtain ⟨hwf, hreach⟩ := h.ops_front hinsns hfront a ha
    exact ⟨hwf, hreach, h.isNarrowAt (mem_of_mem_front hinsns ha)⟩
  rw [Machine.putInstructions, hinsns, List.foldlM_append,
    Machine.foldlM_putInstruction (h.tiles_front hinsns) hops out rfl, pure_bind,
    List.foldlM_cons, hput]
  rfl

end Front

/-- Instructions in their places are written, each with as many bytes as its size says, and read
back, when no jump is too far for two bytes.  When some are, writing fails at the first of them.
The machine does the same behind what is written already. -/
theorem read_write (h : IsPlaced insns length) :
  ((∀ insn ∈ insns, insn.IsNear) →
      ∃ parts, List.Forall₂ (fun insn part => insn.op.toBytes insn.offset = .ok part
          ∧ part.length = insn.op.size insn.offset) insns parts
        ∧ write insns = .ok parts.flatten ∧ read parts.flatten = .ok insns)
    ∧ ((∃ insn ∈ insns, ¬ insn.IsNear) →
      ∃ front insn back opcode target, insns = front ++ insn :: back
        ∧ (∀ a ∈ front, a.IsNear) ∧ insn.IsFar opcode target
        ∧ write insns = .error (.encode (.shortBranch opcode insn.offset target)))
    ∧ ∀ out, Machine.putInstructions insns out = Machine.faultless ((out ++ ·) <$> write insns)
  := by
  refine ⟨?_, ?_, ?_⟩
  · intro hnear
    have hwf := h.wellFormed hnear
    refine ⟨_, parts_of_wellFormed hwf, ?_⟩
    rw [← List.flatMap_def]
    exact ⟨write_eq hwf, read_written hwf⟩
  · intro hsome
    obtain ⟨front, insn, back, opcode, target, hinsns, hfront, hfar⟩ :=
      Instruction.exists_first_isFar hsome
    use front, insn, back, opcode, target, hinsns, hfront, hfar
    exact h.write_eq_error hinsns hfront (toBytes_of_isFar hfar)
  · intro out
    -- Writing is a fold that stops at the first instruction it cannot write, on both sides.
    by_cases hnear : ∀ insn ∈ insns, insn.IsNear
    · have hwf := h.wellFormed hnear
      rw [Machine.putInstructions_eq hwf, write_eq hwf]
      rfl
    · obtain ⟨front, insn, back, opcode, target, hinsns, hfront, hfar⟩ :=
        Instruction.exists_first_isFar (by simpa using hnear)
      have hfault := toBytes_of_isFar hfar
      rw [h.write_eq_error hinsns hfront hfault, h.putInstructions_eq_error hinsns hfront hfault]
      rfl

/-! ## Code with jumps of all kinds -/

/-- Code that jumps back and forth, with switches at two alignments and with wide operations. -/
def nearInsns : List Instruction :=
  [⟨0, .plain 0x03 []⟩, ⟨1, .switch Opcode.tableswitch 24 (.table (-1) [0, 29])⟩,
    ⟨24, .branch Opcode.gotoWide 0⟩, ⟨29, .branch 0x99 24⟩,
    ⟨32, .invoke Opcode.invokeinterface 5 1⟩, ⟨37, .plain Opcode.wide [0x84, 1, 0, 0, 5]⟩,
    ⟨43, .subroutineReturn 300 true⟩, ⟨47, .switch Opcode.lookupswitch 0 (.lookup [(7, 43)])⟩,
    ⟨64, .methodReturn 0xb1⟩]

theorem isPlaced_nearInsns :
  IsPlaced nearInsns 65
  where
    ops insn hinsn := by
      have hread : ∀ insn ∈ nearInsns, insn.op.WellFormed ∧ insn.op.InReach 0 65 := by
        decide +kernel
      exact Operation.isMoved_of_inReach 0 65 (hread insn hinsn).1 (hread insn hinsn).2
    tiles := by decide
    lands := by decide
    pos := by decide
    le := by decide

theorem isNear_nearInsns :
  ∀ insn ∈ nearInsns, insn.IsNear
  := by
  simp [nearInsns, Instruction.IsNear, Instruction.IsFar, Layout.IsShort]

/-- A switch that is too long for a jump with two bytes to pass it. -/
def longSwitch : Operation := .switch Opcode.tableswitch 0 (.table 0 (.replicate 8192 0))

theorem targets_longSwitch :
  ∀ target ∈ longSwitch.targets, target = 0
  := by
  intro target htarget
  rcases List.mem_cons.mp htarget with rfl | htarget
  · rfl
  · exact List.eq_of_mem_replicate htarget

theorem isMoved_longSwitch :
  longSwitch.IsMoved
  := by
  apply Operation.isMoved_of_inReach 0 1
  · refine ⟨rfl, ?_, ?_⟩
    · rw [List.length_replicate]
      decide
    · rw [List.length_replicate]
      decide
  · intro target htarget
    rw [targets_longSwitch target htarget]
    decide

/-- Code with a jump over `longSwitch`. -/
def farInsns : List Instruction :=
  [⟨0, .branch Opcode.goto 32784⟩, ⟨3, longSwitch⟩, ⟨32784, .methodReturn 0xb1⟩]

theorem isPlaced_farInsns :
  IsPlaced farInsns 32785
  where
    ops := by
      have hjump : (Operation.branch Opcode.goto 0).IsMoved :=
        Operation.isMoved_of_inReach 0 1 (by decide) (by decide)
      have hreturn : (Operation.methodReturn 0xb1).IsMoved :=
        Operation.isMoved_of_inReach 0 1 (by decide) (by decide)
      rw [farInsns, List.forall_mem_cons, List.forall_mem_cons, List.forall_mem_singleton]
      exact ⟨hjump.retarget fun _ => 32784, isMoved_longSwitch, hreturn⟩
    tiles := by
      have hsize : longSwitch.size 3 = 32781 := by
        rw [longSwitch, Operation.size, SwitchCases.size, List.length_replicate]
        decide
      refine ⟨rfl, rfl, ?_⟩
      rw [Instruction.limit, hsize]
      decide
    lands := by
      rw [Lands, farInsns, List.forall_mem_cons, List.forall_mem_cons, List.forall_mem_singleton]
      refine ⟨by decide, ?_, by decide⟩
      intro target htarget
      rw [targets_longSwitch target htarget]
      decide
    pos := by decide
    le := by decide

theorem isFar_farInsns :
  ∃ insn ∈ farInsns, ¬ insn.IsNear
  := by
  refine ⟨_, List.mem_cons_self, ?_⟩
  intro hnear
  apply hnear Opcode.goto 32784
  exact ⟨rfl, rfl, by simp [Layout.IsShort]⟩

theorem read_write_nearInsns :
  (IsPlaced nearInsns 65 ∧ (∀ insn ∈ nearInsns, insn.IsNear)
      ∧ ∃ code, write nearInsns = .ok code ∧ read code = .ok nearInsns)
    ∧ IsPlaced farInsns 32785 ∧ (∃ insn ∈ farInsns, ¬ insn.IsNear)
    ∧ ∃ fault, write farInsns = .error (.encode fault)
  := by
  obtain ⟨hnear, -⟩ := read_write isPlaced_nearInsns
  obtain ⟨-, hfar, -⟩ := read_write isPlaced_farInsns
  obtain ⟨parts, -, hwrite, hread⟩ := hnear isNear_nearInsns
  obtain ⟨_, _, _, _, _, -, -, -, hfault⟩ := hfar isFar_farInsns
  exact ⟨⟨isPlaced_nearInsns, isNear_nearInsns, _, hwrite, hread⟩, isPlaced_farInsns,
    isFar_farInsns, _, hfault⟩

end CodeArray

end JvmCoverage
