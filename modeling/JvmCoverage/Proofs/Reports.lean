import JvmCoverage.Proofs.SideTables
import JvmCoverage.Proofs.Simulation
import JvmCoverage.Proofs.Unambiguous

/-!
# Probes name the counters of the plan

What a probe pushes and calls is found by looking up its operands in the pool of the class, as a
machine does that runs it.  Every planned block is entered through a probe with the number of the
block, and the sequences of instructions that were put into the class are those of the numbers of
the plan, each once (`ClassPlan.countsIn_of_read`).
-/

namespace JvmCoverage

open Text.Utf8 (encode)

/-! ## What operations push and call -/

namespace ConstantPool

/-- The bytes of the text in slot `index`. -/
def textAt? (pool : ConstantPool) (index : UInt16) : Option (List UInt8) :=
  match pool.get? index with
  | some (.utf8 bytes) => some bytes
  | _ => none

/-- The texts of the owner, the name and the descriptor of the method in slot `index`. -/
def methodAt? (pool : ConstantPool) (index : UInt16) :
    Option (List UInt8 × List UInt8 × List UInt8) :=
  match pool.get? index with
  | some (.methodRef ownerIndex memberIndex) =>
    match pool.get? ownerIndex, pool.get? memberIndex with
    | some (.classRef ownerName), some (.nameAndType memberName memberDescriptor) =>
      (pool.textAt? ownerName).bind fun owner => (pool.textAt? memberName).bind fun name =>
        (pool.textAt? memberDescriptor).map fun descriptor => (owner, name, descriptor)
    | _, _ => none
  | _ => none

variable {pool : ConstantPool} {index : UInt16}

theorem textAt?_of_holdsText {text : List UInt8} (h : pool.holdsText index text) :
  pool.textAt? index = some text
  := by
  unfold holdsText at h
  split at h
  · rename_i bytes hget
    rw [textAt?, hget, eq_of_beq h]
  · cases h

theorem methodAt?_of_isMethodRef {owner name descriptor : List UInt8} {c : Constant}
    (hget : pool.get? index = some c) (h : pool.isMethodRef owner name descriptor c) :
  pool.methodAt? index = some (owner, name, descriptor)
  := by
  unfold isMethodRef at h
  split at h
  · split at h
    · rename_i howner hmember
      rw [Bool.and_eq_true, Bool.and_eq_true] at h
      obtain ⟨⟨hownerText, hnameText⟩, hdescriptorText⟩ := h
      simp only [methodAt?, hget, howner, hmember, textAt?_of_holdsText hownerText,
        textAt?_of_holdsText hnameText, textAt?_of_holdsText hdescriptorText, Option.bind_some,
        Option.map_some]
    · cases h
  · cases h

end ConstantPool

namespace Operation

/-- The integer that the operation pushes: the operand of `sipush`, or the integer in the slot of
`ldc_w`. -/
def pushed? (pool : ConstantPool) : Operation → Option Int
  | plain opcode operands =>
    if opcode = Opcode.sipush then some (Bytes.ofSigned operands)
    else if opcode = Opcode.ldcWide then
      match pool.get? (UInt16.ofNat (Bytes.ofBigEndian operands)) with
      | some (.integer value) => some value.toInt
      | _ => none
    else none
  | _ => none

/-- The texts of the method that the operation calls. -/
def called? (pool : ConstantPool) : Operation → Option (List UInt8 × List UInt8 × List UInt8)
  | invoke _ index _ => pool.methodAt? index
  | _ => none

end Operation

namespace Probe

/-- Whether `insns` are three instructions from `offset` on, of which the first takes the number of
the segment from the pool, the second pushes the number of the counter, and the third calls the
bridge. -/
def Reports (pool : ConstantPool) (bridge : Bridge) (segment : UInt32) (number offset : Nat)
    (insns : List Instruction) : Prop :=
  ∃ first second third, insns = [⟨offset, first⟩, ⟨offset + 3, second⟩, ⟨offset + 6, third⟩]
    ∧ first.opcode = Opcode.ldcWide ∧ first.pushed? pool = some segment.toInt32.toInt
    ∧ (second.opcode = Opcode.sipush ∨ second.opcode = Opcode.ldcWide)
    ∧ second.pushed? pool = some (number : Int)
    ∧ third.opcode = Opcode.invokestatic
    ∧ third.called? pool = some (encode bridge.owner, encode bridge.name, encode bridge.descriptor)

variable {pool : ConstantPool}

theorem pushed?_pushInteger {index : UInt16} {value : Int32}
    (h : pool.get? index = some (.integer value)) :
  (pushInteger index).pushed? pool = some value.toInt
  := by
  have hindex : UInt16.ofNat (Bytes.ofBigEndian (Bytes.field16 index)) = index := by
    rw [Bytes.field16, Bytes.ofBigEndian_bigEndian_of_lt index.toNat_lt, UInt16.ofNat_toNat]
  rw [pushInteger, Operation.pushed?, if_neg (by decide), if_pos rfl, hindex, h]

/-- The operand of `sipush` is the number of a counter that takes no pool entry. -/
theorem ofSigned_count16 {n : Nat} (h : n < firstPooled) :
  Bytes.ofSigned (Bytes.count16 n) = n
  := by
  rw [firstPooled] at h
  have hcount : Bytes.count16 n = Bytes.signed 2 n := by
    rw [Bytes.count16, Bytes.signed]
    congr 1
    norm_num
    omega
  rw [hcount]
  apply Bytes.ofSigned_signed
  constructor
  · norm_num
    omega
  · norm_num
    omega

/-- What pushes an integer is one of two operations, and pushes it. -/
theorem Pushes.pushed? {value : Int32} {op : Operation} (h : Pushes pool value op) :
  (op.opcode = Opcode.sipush ∨ op.opcode = Opcode.ldcWide)
    ∧ op.pushed? pool = some value.toInt
  := by
  rcases h with ⟨index, rfl, hget⟩ | ⟨n, hlt, rfl, rfl⟩
  · exact ⟨.inr rfl, pushed?_pushInteger hget⟩
  · have hn : n < 2 ^ 31 := hlt.trans (by decide)
    use .inl rfl
    rw [Operation.pushed?, if_pos rfl, ofSigned_count16 hlt, Int32.toInt_ofNat_of_lt hn]

theorem IsSequence.reports {bridge : Bridge} {segment : UInt32} {number offset : Nat}
    {insns : List Instruction} (h : IsSequence pool bridge segment number offset insns)
    (hlt : number < 2 ^ 31) :
  Reports pool bridge segment number offset insns
  := by
  obtain ⟨⟨first, second, third, rfl, hfirst, hsecond, hthird⟩, index, hhead⟩ := h
  obtain ⟨-, rfl⟩ := Instruction.mk.inj (Option.some.inj hhead)
  obtain ⟨hopcode, hpushed⟩ := hsecond.pushed?
  rw [Int32.toInt_ofNat_of_lt hlt] at hpushed
  obtain ⟨method, c, rfl, hget, hmethod⟩ := hthird
  exact ⟨_, second, _, rfl, rfl, hfirst.pushed?.2, hopcode, hpushed, rfl,
    ConstantPool.methodAt?_of_isMethodRef hget hmethod⟩

end Probe

/-! ## What is put into code -/

namespace Layout

/-- Whether an instruction of the code has moved to `offset`. -/
def holdsMoved (layout : Layout) (code : Code) (offset : Nat) : Bool :=
  code.instructions.any fun insn => layout.position? insn.offset == some offset

/-- The instructions of moved code that have not moved there. -/
def inserted (layout : Layout) (code moved : Code) : List Instruction :=
  moved.instructions.filter fun insn => !layout.holdsMoved code insn.offset

variable {layout : Layout} {code moved : Code} {probeAt : Nat → Option Nat} {pool : ConstantPool}
  {bridge : Bridge} {segment : UInt32} {site : Site} {label : Nat}
  (hlayout : layout.IsFor code probeAt)
  (htiles : CodeArray.Tiles 0 code.instructions code.length)

include hlayout htiles

/-- In the place of an instruction only the position is one that the instruction has moved to. -/
theorem holdsMoved_iff (hplace : (site, label) ∈ layout.places) {offset : Nat}
    (hle : label ≤ offset) (hlt : offset < site.limit label) :
  layout.holdsMoved code offset ↔ offset = site.position label
  := by
  simp only [holdsMoved, List.any_eq_true, beq_iff_eq,
    position?_eq_some (hlayout.ascending htiles)]
  constructor
  · rintro ⟨insn, -, site', label', hplace', -, rfl⟩
    have hle' := site'.label_le_position label'
    have hlt' := site'.position_lt_limit label'
    obtain ⟨rfl, rfl⟩ :=
      hlayout.place_unique_of_lt htiles hplace hplace' (by omega) (by omega)
    rfl
  · rintro rfl
    exact ⟨site.insn, hlayout.insn_mem hplace, site, label, hplace, rfl, rfl⟩

/-- What is put in front of some instructions are the sequences of their probes. -/
theorem exists_sequences {places : List (Site × Nat)} {pieces : List (List Instruction)}
    (hpieces : List.Forall₂ (layout.IsPiece pool bridge segment) places pieces)
    (hplaces : ∀ place ∈ places, place ∈ layout.places) :
  ∃ sequences, pieces.flatten.filter (fun insn => !layout.holdsMoved code insn.offset)
      = sequences.flatten
    ∧ List.Forall₂ (fun number insns => ∃ offset,
        Probe.IsSequence pool bridge segment number offset insns)
      (places.filterMap fun place => place.1.probe) sequences
  := by
  induction hpieces with
  | nil => exact ⟨[], rfl, .nil⟩
  | @cons place piece places pieces hpiece _ ih =>
    obtain ⟨site, label⟩ := place
    obtain ⟨hplace, hplaces⟩ := List.forall_mem_cons.mp hplaces
    obtain ⟨sequences, hfilter, hsequences⟩ := ih hplaces
    obtain ⟨front, rfl, hfront⟩ := hpiece
    have hposition := site.position_lt_limit label
    have hlast : layout.holdsMoved code (layout.movedInstruction site label).offset :=
      (holdsMoved_iff hlayout htiles hplace (site.label_le_position label) hposition).mpr rfl
    rw [List.flatten_cons, List.filter_append, List.filter_append, hfilter]
    -- a piece ends with the instruction that has moved there, and the filter keeps what is in front
    cases hprobe : site.probe with
    | none =>
      obtain rfl : front = [] := by simpa only [hprobe] using hfront
      use sequences
      simpa [hlast, hprobe] using hsequences
    | some number =>
      have hsequence : Probe.IsSequence pool bridge segment number label front := by
        simpa only [hprobe] using hfront
      have hkept : front.filter (fun insn => !layout.holdsMoved code insn.offset) = front := by
        rw [List.filter_eq_self]
        intro insn hinsn
        obtain ⟨hle, hlt⟩ := hsequence.1.spec.1.bounds hinsn
        have hlimit := CodeArray.offset_lt_limit insn
        rw [← Site.position_of_probe hprobe] at hlt
        rw [Bool.not_eq_true', ← Bool.not_eq_true,
          holdsMoved_iff hlayout htiles hplace hle (by omega)]
        omega
      refine ⟨front :: sequences, ?_, ?_⟩
      · simp [hkept, hlast]
      · simp only [List.filterMap_cons, hprobe]
        exact .cons ⟨label, hsequence⟩ hsequences

/-- What is put into code are the sequences of the probes, in order. -/
theorem IsMoved.exists_sequences (h : layout.IsMoved pool bridge segment code moved) :
  ∃ sequences, layout.inserted code moved = sequences.flatten
    ∧ List.Forall₂ (fun number insns => ∃ offset,
        Probe.IsSequence pool bridge segment number offset insns)
      (layout.sites.toList.filterMap Site.probe) sequences
  := by
  obtain ⟨pieces, hinsns, hpieces⟩ := h.pieces
  rw [inserted, hinsns, ← hlayout.map_fst_places, List.filterMap_map]
  apply Layout.exists_sequences hlayout htiles hpieces fun _ hplace => hplace

end Layout

/-! ## Classes -/

/-- The instructions that were put into the planned method of a class. -/
def MethodPlan.inserted (plan : MethodPlan) (c out : ClassFile) : List Instruction :=
  match c.methods[plan.method]?.bind Method.code?, out.methods[plan.method]?.bind Method.code? with
  | some code, some moved => plan.layout.inserted code moved
  | _, _ => []

namespace ClassPlan

/-- The instructions that were put into the planned methods, method by method. -/
def inserted (plan : ClassPlan) (c out : ClassFile) : List (List Instruction) :=
  plan.planned.map fun methodPlan => methodPlan.inserted c out

/-- Whether `out` is the class with probes that count in the segment as planned. -/
structure CountsIn (plan : ClassPlan) (bridge : Bridge) (segment : UInt32) (c out : ClassFile) :
    Prop where
  /-- Only the pool and methods differ. -/
  eq : out = { c with pool := out.pool, methods := out.methods }
  length_methods : out.methods.length = c.methods.length
  /-- Methods without probes stay. -/
  others : ∀ i : Nat, (∀ methodPlan ∈ plan.planned, methodPlan.method ≠ i) →
    out.methods[i]? = c.methods[i]?
  /-- A planned block is entered through its probe. -/
  blocks : ∀ methodPlan ∈ plan.planned, ∃ m moved, c.methods[methodPlan.method]? = some m
    ∧ out.methods[methodPlan.method]? = some (m.mapCode fun _ => moved)
    ∧ (m.mapCode fun _ => moved).code? = some moved
    ∧ ∀ (id number : Nat) (b : BasicBlock), methodPlan.graph.blocks[id]? = some b →
      methodPlan.blockProbes[id]? = some (some number) →
      ∃ label insns, methodPlan.layout.label? b.start = some label
        ∧ Probe.Reports out.pool bridge segment number label insns
        ∧ ∀ insn ∈ insns, moved.instructionAt? insn.offset = some insn
  /-- What was put into the planned methods are the probes, each once and in order. -/
  sequences : ∃ sequences : List (List (List Instruction)),
    plan.inserted c out = sequences.map List.flatten
      ∧ List.Forall₂ (fun number insns => ∃ offset,
          Probe.Reports out.pool bridge segment number offset insns)
        (List.range plan.probeCount) sequences.flatten

variable {classPlan : ClassPlan} {c c' : ClassFile} {bridge : Bridge} {segment : UInt32}

/-- The numbers of probes are integers of the pool. -/
theorem IsOf.lt_of_mem_numbers (h : classPlan.IsOf bridge c) {methodPlan : MethodPlan}
    (hmem : methodPlan ∈ classPlan.planned) {number : Nat} (hnumber : number ∈ methodPlan.numbers) :
  number < 2 ^ 31
  := by
  have hrange : number ∈ List.range classPlan.probeCount := by
    rw [← h.numbers]
    apply List.mem_flatMap.mpr ⟨methodPlan, hmem, hnumber⟩
  have hne : classPlan.isEmpty = false := by
    rw [Bool.eq_false_iff]
    intro hempty
    rw [h.isEmpty_iff.mp hempty] at hmem
    cases hmem
  have hroom := h.room hne
  have hlt := List.mem_range.mp hrange
  rw [neededSlots, PoolBuilder.worstCase, Probe.firstPooled, ConstantPool.maxSlots] at hroom
  omega

/-- A planned block of a class with probes is entered through its probe. -/
theorem IsApplied.exists_probe (h : classPlan.IsApplied bridge segment c c')
    (hplan : classPlan.IsOf bridge c) (hc : c.WellFormed) {methodPlan : MethodPlan}
    (hmem : methodPlan ∈ classPlan.planned) :
  ∃ m moved, c.methods[methodPlan.method]? = some m
    ∧ c'.methods[methodPlan.method]? = some (m.mapCode fun _ => moved)
    ∧ (m.mapCode fun _ => moved).code? = some moved
    ∧ ∀ (id number : Nat) (b : BasicBlock), methodPlan.graph.blocks[id]? = some b →
      methodPlan.blockProbes[id]? = some (some number) →
      ∃ label insns, methodPlan.layout.label? b.start = some label
        ∧ Probe.Reports c'.pool bridge segment number label insns
        ∧ ∀ insn ∈ insns, moved.instructionAt? insn.offset = some insn
  := by
  obtain ⟨m, code, moved, first, hm, -, hm', hcode', hof, hwf, hmoved⟩ :=
    h.exists_moved hplan hc hmem
  refine ⟨m, moved, hm, hm', hcode', ?_⟩
  intro id number b hb hnumber
  have hlt : number < 2 ^ 31 := by
    apply hplan.lt_of_mem_numbers hmem
    rw [← Array.getElem?_toList] at hnumber
    apply List.reduceOption_mem_iff.mpr (List.mem_of_getElem? hnumber)
  rw [hof.graph_eq] at hb
  obtain ⟨site, label, hplace, hstart, hprobe⟩ :=
    MethodPlan.exists_place_of_block hof hwf hb hnumber
  obtain ⟨insns, hsequence, hinsns⟩ := (hmoved.pieces.exists_sequence hplace).2 number hprobe
  refine ⟨label, insns, ?_, hsequence.reports hlt, ?_⟩
  · apply (Layout.label?_eq_some (hof.layout.ascending hwf.instructions.tiles)).mpr
      ⟨site, hplace, hstart⟩
  · intro insn hinsn
    apply (Code.instructionAt?_eq_some (Layout.tiles_pieces hmoved.pieces hof.layout)).mpr
      ⟨hinsns insn hinsn, rfl⟩

/-- What was put into a planned method are the sequences of the probes of the method, in order. -/
theorem IsApplied.exists_sequences (h : classPlan.IsApplied bridge segment c c')
    (hplan : classPlan.IsOf bridge c) (hc : c.WellFormed) {methodPlan : MethodPlan}
    (hmem : methodPlan ∈ classPlan.planned) :
  ∃ sequences : List (List Instruction), methodPlan.inserted c c' = sequences.flatten
    ∧ List.Forall₂ (fun number insns => ∃ offset,
        Probe.Reports c'.pool bridge segment number offset insns)
      methodPlan.numbers sequences
  := by
  obtain ⟨m, code, moved, first, hm, hcode, hm', hcode', hof, hwf, hmoved⟩ :=
    h.exists_moved hplan hc hmem
  obtain ⟨sequences, hinserted, hsequences⟩ :=
    hmoved.exists_sequences hof.layout hwf.instructions.tiles
  use sequences
  constructor
  · rw [MethodPlan.inserted, hm, hm', Option.bind_some, Option.bind_some, hcode, hcode']
    apply hinserted
  · rw [hof.numbers_sites] at hsequences
    have hboth := (List.forall₂_and_left _ _).mpr
      ⟨fun _ hnumber => hplan.lt_of_mem_numbers hmem hnumber, hsequences⟩
    apply hboth.imp
    rintro number insns ⟨hlt, offset, hsequence⟩
    exact ⟨offset, hsequence.reports hlt⟩

/-- A class with probes counts as planned. -/
theorem IsApplied.countsIn (h : classPlan.IsApplied bridge segment c c')
    (hplan : classPlan.IsOf bridge c) (hc : c.WellFormed) :
  classPlan.CountsIn bridge segment c c'
  where
    eq := h.eq
    length_methods := by simpa using h.moved.size
    others := by simpa using h.moved.others
    blocks := fun _ hmem => h.exists_probe hplan hc hmem
    sequences := by
      obtain ⟨sequences, hsequences⟩ :=
        exists_forall₂ fun _ hmem => h.exists_sequences hplan hc hmem
      refine ⟨sequences, ?_, ?_⟩
      · rw [inserted, ← List.forall₂_eq_eq_eq, List.forall₂_map_left_iff,
          List.forall₂_map_right_iff]
        exact hsequences.imp fun _ _ hmethod => hmethod.1
      · rw [← hplan.numbers, List.flatMap]
        apply List.rel_flatten
        rw [List.forall₂_map_left_iff]
        exact hsequences.imp fun _ _ hmethod => hmethod.2

/-- In a class with probes that is written and read back every planned block is entered through a
probe with the number of the block, and the sequences of instructions that were put into the class
are those of the numbers of the plan, each once. -/
theorem countsIn_of_read {bytes written : List UInt8} {policy : Policy} {out : ClassFile}
    (hread : ClassFile.read bytes = .ok c) (hplan : ofClass policy c = .ok classPlan)
    (hbridge : BridgeFits policy.bridge) (happly : classPlan.apply segment c = .ok c')
    (hwritten : c'.toBytes = .ok written) (hout : ClassFile.read written = .ok out) :
  classPlan.CountsIn policy.bridge segment c out
  := by
  obtain ⟨hc, hof⟩ := isOf_of_read hread hplan
  have happlied := (apply_spec hof hc).1 c' happly
  obtain rfl := Except.ok.inj
    ((ClassFile.toBytes_eq (happlied.wellFormed hof hc hbridge)).symm.trans hwritten)
  obtain ⟨-, rfl⟩ := (happlied.read_form_eq_ok hread hof hbridge).mp hout
  apply happlied.countsIn hof hc

/-- The class with a jump is read back with the probes of its plan. -/
theorem countsIn_of_read_jumpClass :
  ∃ plan c' written, ofClass {} ClassFile.jumpClass = .ok plan ∧ plan.planned ≠ []
    ∧ plan.apply 0 ClassFile.jumpClass = .ok c' ∧ c'.toBytes = .ok written
    ∧ ClassFile.read written = .ok c' ∧ plan.CountsIn {} 0 ClassFile.jumpClass c'
  := by
  have hread := ClassFile.read_form_jumpClass
  obtain ⟨plan, c', hplan, hne, happly⟩ := exists_probed_jumpClass
  have hof := isOf_of_ofClass hplan ClassFile.wellFormed_jumpClass
  have happlied := (apply_spec hof ClassFile.wellFormed_jumpClass).1 c' happly
  have hbridge : BridgeFits ({} : Policy).bridge := by decide +kernel
  have hwf := happlied.wellFormed hof ClassFile.wellFormed_jumpClass hbridge
  have hwritten := ClassFile.toBytes_eq hwf
  have hlengths :=
    happlied.lengthsFit hof ClassFile.wellFormed_jumpClass (by decide +kernel)
  have hout := (ClassFile.read_form_iff hwf).mpr hlengths
  exact ⟨plan, c', c'.form, hplan, hne, happly, hwritten, hout,
    countsIn_of_read hread hplan hbridge happly hwritten hout⟩

end ClassPlan

end JvmCoverage
