import JvmCoverage.Proofs.Blocks
import JvmCoverage.Proofs.Class

/-!
# Blocks are the straight runs of the code

A block starts where control may enter the code or go to, and behind every instruction that ends a
block (`Code.StartsBlock`); in between, control runs straight on.  The blocks of a body are its
instructions cut at these offsets and nowhere else, and every offset of the code lies in exactly one
of them (`FlowGraph.isCutInto_of_read`).
-/

namespace JvmCoverage

/-- The offsets at which blocks start. -/
inductive Code.StartsBlock (code : Code) : Nat → Prop where
  /-- Control enters the code at its first instruction. -/
  | entry : StartsBlock code 0
  /-- Control goes to the targets of jumps. -/
  | target {insn : Instruction} {offset : Nat} (hinsn : insn ∈ code.instructions)
      (htarget : offset ∈ insn.op.targets) : StartsBlock code offset
  /-- Control goes to the entries of exception handlers. -/
  | handler {h : ExceptionHandler} (hmem : h ∈ code.handlers) : StartsBlock code h.handler
  /-- A block ends in front. -/
  | behind {i : Nat} {insn next : Instruction} (hinsn : code.instructions[i]? = some insn)
      (hnext : code.instructions[i + 1]? = some next) (hends : insn.op.endsBlock) :
      StartsBlock code next.offset

namespace BasicBlock

/-- The instructions of the block. -/
def instructionsIn (code : Code) (b : BasicBlock) : List Instruction :=
  (code.instructions.drop b.first).take b.count

theorem mem_of_mem_instructionsIn {code : Code} {b : BasicBlock} {insn : Instruction}
    (h : insn ∈ b.instructionsIn code) :
  insn ∈ code.instructions
  := List.mem_of_mem_drop (List.mem_of_mem_take h)

end BasicBlock

namespace FlowGraph

/-! ## The instructions of a block -/

variable {code : Code} {before behind : List (List Instruction)} {run : List Instruction}
  {b : BasicBlock}

theorem instructions_eq (hruns : codeRuns code = before ++ run :: behind) :
  code.instructions = before.flatten ++ (run ++ behind.flatten)
  := by
  rw [← flatten_codeRuns, hruns, List.flatten_append, List.flatten_cons]

/-- The instructions of a block are those of its run. -/
theorem IsMade.instructionsIn_eq {index : LineIndex} (h : IsMade index before run b)
    (hruns : codeRuns code = before ++ run :: behind) :
  b.instructionsIn code = run
  := by
  rw [BasicBlock.instructionsIn, instructions_eq hruns, h.first_eq, h.count_eq, List.drop_left,
    List.take_left]

/-- A block is made of its instructions. -/
theorem exists_isMade (hb : b ∈ (ofCode code).blocks) :
  ∃ before behind, codeRuns code = before ++ b.instructionsIn code :: behind
    ∧ IsMade (.ofCode code) before (b.instructionsIn code) b
  := by
  obtain ⟨i, hi⟩ := Array.mem_iff_getElem?.mp hb
  obtain ⟨before, run, behind, hruns, -, hmade⟩ := isMade_of_getElem? hi
  rw [hmade.instructionsIn_eq hruns]
  exact ⟨before, behind, hruns, hmade⟩

/-- The instructions of a block are a run. -/
theorem instructionsIn_mem_codeRuns (hb : b ∈ (ofCode code).blocks) :
  b.instructionsIn code ∈ codeRuns code
  := by
  obtain ⟨before, behind, hruns, -⟩ := exists_isMade hb
  rw [hruns]
  exact List.mem_append_right _ List.mem_cons_self

/-- A block runs from an instruction at its start to its last one. -/
theorem exists_head_instructionsIn (hb : b ∈ (ofCode code).blocks) :
  ∃ head tail, b.instructionsIn code = head :: tail ∧ head.offset = b.start
    ∧ (b.instructionsIn code).getLast? = some b.last
  := by
  obtain ⟨before, behind, -, hmade⟩ := exists_isMade hb
  obtain ⟨head, hhead, hstart⟩ := Option.map_eq_some_iff.mp hmade.start_eq
  obtain ⟨tail, hrun⟩ := List.head?_eq_some_iff.mp hhead
  exact ⟨head, tail, hrun, hstart, hmade.last_eq⟩

/-- A block starts at one of its instructions. -/
theorem exists_mem_start (hb : b ∈ (ofCode code).blocks) :
  ∃ insn ∈ b.instructionsIn code, insn.offset = b.start
  := by
  obtain ⟨head, tail, hrun, hhead, -⟩ := exists_head_instructionsIn hb
  refine ⟨head, ?_, hhead⟩
  rw [hrun]
  exact List.mem_cons_self

theorem last_mem_instructionsIn (hb : b ∈ (ofCode code).blocks) :
  b.last ∈ b.instructionsIn code
  := by
  obtain ⟨-, -, -, -, hlast⟩ := exists_head_instructionsIn hb
  exact List.mem_of_getLast? hlast

/-- The blocks are made of the runs, one by one. -/
theorem map_instructionsIn (code : Code) :
  (ofCode code).blocks.toList.map (BasicBlock.instructionsIn code) = codeRuns code
  := by
  have hlength : ((ofCode code).blocks.toList.map (BasicBlock.instructionsIn code)).length
      = (codeRuns code).length := by
    rw [List.length_map, Array.length_toList, size_blocks]
  apply List.ext_getElem hlength
  intro i hi hi'
  rw [List.length_map, Array.length_toList] at hi
  rw [List.getElem_map, Array.getElem_toList]
  obtain ⟨before, run, behind, hruns, rfl, hmade⟩ :=
    isMade_of_getElem? (Array.getElem?_eq_getElem hi)
  rw [hmade.instructionsIn_eq hruns]
  simp [hruns]

/-- Every instruction is in a block. -/
theorem exists_mem_instructionsIn {insn : Instruction} (hinsn : insn ∈ code.instructions) :
  ∃ b ∈ (ofCode code).blocks, insn ∈ b.instructionsIn code
  := by
  rw [← flatten_codeRuns, ← map_instructionsIn, List.mem_flatten] at hinsn
  obtain ⟨run, hrun, hinsn⟩ := hinsn
  obtain ⟨b, hb, rfl⟩ := List.mem_map.mp hrun
  exact ⟨b, Array.mem_toList_iff.mp hb, hinsn⟩

/-! ## Where runs are cut -/

/-- The instructions behind the first of a run do not start blocks. -/
theorem not_mem_leaders_of_mem_tail {head : Instruction} {tail : List Instruction}
    (h : head :: tail ∈ codeRuns code) {insn : Instruction} (hinsn : insn ∈ tail) :
  insn.offset ∉ leaders code
  := by
  rw [codeRuns, runs_ofList] at h
  have hchain := List.isChain_of_mem_splitBy h
  have : IsTrans Instruction fun _ next => (!(leaders code).contains next.offset) = true :=
    ⟨fun _ _ _ _ hnext => hnext⟩
  have hnot := (List.pairwise_cons.mp (List.isChain_iff_pairwise.mp hchain)).1 insn hinsn
  simpa using hnot

/-- Every run but the first starts a block. -/
theorem head_mem_leaders (hruns : codeRuns code = before ++ run :: behind) (hbefore : before ≠ [])
    {head : Instruction} (hhead : run.head? = some head) :
  head.offset ∈ leaders code
  := by
  obtain ⟨init, previous, rfl⟩ := (List.eq_nil_or_concat' before).resolve_left hbefore
  have hchain := List.isChain_getLast_head_splitBy
    (fun _ next => !(leaders code).contains next.offset) code.instructions
  rw [← runs_ofList, ← codeRuns, hruns, List.append_assoc, List.singleton_append,
    List.isChain_append_cons_cons] at hchain
  obtain ⟨-, ⟨_, hne, hcontains⟩, -⟩ := hchain
  rw [List.head?_eq_some_head hne] at hhead
  rw [Option.some.inj hhead] at hcontains
  simpa using hcontains

/-- The instruction behind one that ends a block is in the next run. -/
theorem not_endsBlock_of_mem_dropLast (h : run ∈ codeRuns code) {insn : Instruction}
    (hinsn : insn ∈ run.dropLast) :
  insn.op.endsBlock = false
  := by
  by_contra hends
  rw [Bool.not_eq_false] at hends
  obtain ⟨before, behind, hruns⟩ := List.append_of_mem h
  obtain ⟨i, hi, rfl⟩ := List.mem_iff_getElem.mp hinsn
  rw [List.length_dropLast] at hi
  have hnext : run[i + 1]? = some run[i + 1] := List.getElem?_eq_getElem (by omega)
  obtain ⟨head, tail, rfl⟩ := List.exists_cons_of_ne_nil (ne_nil_of_mem_codeRuns h)
  have hbehind : (head :: tail)[i + 1].offset ∈ leaders code := by
    simp only [leaders, List.mem_append]
    refine .inl (.inr (mem_resumptions.mpr ⟨before.flatten.length + i, _, _, ?_, ?_, hends, rfl⟩))
    · rw [instructions_eq hruns, List.getElem?_append_right (by omega), Nat.add_sub_cancel_left,
        List.getElem?_append_left (by omega), List.getElem_dropLast]
      apply List.getElem?_eq_getElem
    · rw [instructions_eq hruns, Nat.add_assoc, List.getElem?_append_right (by omega),
        Nat.add_sub_cancel_left, List.getElem?_append_left (by omega)]
      apply hnext
  apply not_mem_leaders_of_mem_tail h _ hbehind
  rw [List.getElem_cons_succ]
  apply List.getElem_mem

/-! ## Where blocks start and end -/

variable {limit : Nat}

/-- The instructions of a block lie one behind the other from its start up to its end. -/
theorem tiles_instructionsIn (htiles : CodeArray.Tiles 0 code.instructions limit)
    (hb : b ∈ (ofCode code).blocks) :
  CodeArray.Tiles b.start (b.instructionsIn code) b.limit ∧ b.limit ≤ limit
  := by
  obtain ⟨before, behind, hruns, -⟩ := exists_isMade hb
  obtain ⟨head, tail, hrun, hhead, hlast⟩ := exists_head_instructionsIn hb
  rw [instructions_eq hruns] at htiles
  obtain ⟨start, -, htiles⟩ := CodeArray.tiles_append.mp htiles
  obtain ⟨middle, htiles, hbehind⟩ := CodeArray.tiles_append.mp htiles
  have hlimit := htiles.limit_eq (by simp [hrun])
  rw [hlast] at hlimit
  obtain rfl : b.limit = middle := hlimit
  rw [hrun] at htiles ⊢
  exact ⟨⟨hhead, htiles.2⟩, hbehind.le⟩

/-- Behind a block stand only later ones. -/
theorem limit_le_start (htiles : CodeArray.Tiles 0 code.instructions limit) {i j : Nat}
    {b b' : BasicBlock} (hb : (ofCode code).blocks[i]? = some b)
    (hb' : (ofCode code).blocks[j]? = some b') (hij : i < j) :
  b.limit ≤ b'.start
  := by
  have hpairwise := htiles.pairwise
  rw [← flatten_codeRuns, ← map_instructionsIn, List.pairwise_flatten, List.pairwise_map]
    at hpairwise
  have hlast := last_mem_instructionsIn (Array.mem_of_getElem? hb)
  obtain ⟨head, hhead, hstart⟩ := exists_mem_start (Array.mem_of_getElem? hb')
  rw [← Array.getElem?_toList] at hb hb'
  obtain ⟨hi, rfl⟩ := List.getElem?_eq_some_iff.mp hb
  obtain ⟨hj, rfl⟩ := List.getElem?_eq_some_iff.mp hb'
  rw [← hstart]
  exact List.pairwise_iff_getElem.mp hpairwise.2 i j hi hj hij _ hlast _ hhead

/-- An instruction is in the block that its offset lies in. -/
theorem mem_instructionsIn_iff (htiles : CodeArray.Tiles 0 code.instructions limit)
    (hb : b ∈ (ofCode code).blocks) {insn : Instruction} (hinsn : insn ∈ code.instructions) :
  insn ∈ b.instructionsIn code ↔ b.start ≤ insn.offset ∧ insn.offset < b.limit
  := by
  constructor
  · intro hmem
    obtain ⟨hle, hlimit⟩ := (tiles_instructionsIn htiles hb).1.bounds hmem
    exact ⟨hle, (CodeArray.offset_lt_limit insn).trans_le hlimit⟩
  · rintro ⟨hstart, hlimit⟩
    obtain ⟨insn', hinsn', hle, hlt⟩ := (tiles_instructionsIn htiles hb).1.exists_mem hstart hlimit
    have hmem := BasicBlock.mem_of_mem_instructionsIn hinsn'
    have hin := CodeArray.offset_lt_limit insn
    rwa [htiles.eq_of_mem hinsn hmem ⟨le_rfl, hin⟩ ⟨hle, hlt⟩]

/-- Blocks start at leaders. -/
theorem start_mem_leaders (hb : b ∈ (ofCode code).blocks) :
  b.start ∈ leaders code
  := by
  obtain ⟨before, behind, hruns, -⟩ := exists_isMade hb
  obtain ⟨head, tail, hrun, hstart, -⟩ := exists_head_instructionsIn hb
  rw [hrun] at hruns
  rw [← hstart]
  cases before with
  | nil =>
    have hinsns := instructions_eq hruns
    rw [List.flatten_nil, List.nil_append, List.cons_append] at hinsns
    simp [leaders, hinsns]
  | cons run before => exact head_mem_leaders hruns (List.cons_ne_nil _ _) rfl

/-- A block starts at every leader at which there is an instruction. -/
theorem exists_start_eq {insn : Instruction} (hinsn : insn ∈ code.instructions)
    (hleader : insn.offset ∈ leaders code) :
  ∃ b ∈ (ofCode code).blocks, b.start = insn.offset
  := by
  obtain ⟨b, hb, hinsn⟩ := exists_mem_instructionsIn hinsn
  obtain ⟨head, tail, hrun, hstart, -⟩ := exists_head_instructionsIn hb
  have hmem := instructionsIn_mem_codeRuns hb
  rw [hrun] at hinsn hmem
  rcases List.mem_cons.mp hinsn with rfl | htail
  · exact ⟨b, hb, hstart.symm⟩
  · exact absurd hleader (not_mem_leaders_of_mem_tail hmem htail)

/-- The leaders are the offsets at which blocks have to start. -/
theorem mem_leaders_iff (htiles : CodeArray.Tiles 0 code.instructions limit)
    (hne : code.instructions ≠ []) {offset : Nat} :
  offset ∈ leaders code ↔ code.StartsBlock offset
  := by
  obtain ⟨head, tail, hinsns⟩ := List.exists_cons_of_ne_nil hne
  have hhead : head.offset = 0 := by
    rw [hinsns] at htiles
    exact htiles.1
  simp only [leaders, List.mem_append, Option.mem_toList, List.mem_flatMap, mem_resumptions,
    List.mem_map, hinsns, List.head?_cons, Option.map_some, Option.some.injEq, hhead]
  rw [← hinsns]
  constructor
  · rintro (((rfl | ⟨insn, hinsn, htarget⟩) | ⟨i, insn, next, hinsn, hnext, hends, rfl⟩)
      | ⟨h, hmem, rfl⟩)
    · exact .entry
    · exact .target hinsn htarget
    · exact .behind hinsn hnext hends
    · exact .handler hmem
  · rintro (_ | ⟨hinsn, htarget⟩ | hmem | ⟨hinsn, hnext, hends⟩)
    · exact .inl (.inl (.inl rfl))
    · exact .inl (.inl (.inr ⟨_, hinsn, htarget⟩))
    · exact .inr ⟨_, hmem, rfl⟩
    · exact .inl (.inr ⟨_, _, _, hinsn, hnext, hends, rfl⟩)

/-- In a body that could be read blocks have to start at instructions only. -/
theorem startsBlock_mem_offsets {pool : ConstantPool} (h : code.WellFormed pool) {offset : Nat}
    (hstarts : code.StartsBlock offset) :
  offset ∈ code.instructions.map Instruction.offset
  := by
  cases hstarts with
  | entry =>
    obtain ⟨head, tail, hinsns⟩ := List.exists_cons_of_ne_nil h.ne_nil
    have htiles := h.instructions.tiles
    rw [hinsns] at htiles ⊢
    rw [List.map_cons, htiles.1]
    exact List.mem_cons_self
  | target hinsn htarget => exact h.instructions.lands _ hinsn _ htarget
  | handler hmem => exact (Code.handlerFits_boundaries.mp (h.handlers _ hmem)).2.2.2.2
  | behind _ hnext _ => exact List.mem_map_of_mem (List.mem_of_getElem? hnext)

/-- Blocks start exactly where they have to. -/
theorem exists_start_iff {pool : ConstantPool} (h : code.WellFormed pool) {offset : Nat} :
  (∃ b ∈ (ofCode code).blocks, b.start = offset) ↔ code.StartsBlock offset
  := by
  have hleaders {offset : Nat} : offset ∈ leaders code ↔ code.StartsBlock offset :=
    mem_leaders_iff h.instructions.tiles h.ne_nil
  constructor
  · rintro ⟨b, hb, rfl⟩
    exact hleaders.mp (start_mem_leaders hb)
  · intro hstarts
    obtain ⟨insn, hinsn, rfl⟩ := List.mem_map.mp (startsBlock_mem_offsets h hstarts)
    exact exists_start_eq hinsn (hleaders.mpr hstarts)

/-! ## The block around an offset -/

/-- The block around an offset is the one whose range the offset lies in. -/
theorem blockContaining?_eq_some (htiles : CodeArray.Tiles 0 code.instructions limit)
    {offset id : Nat} :
  (ofCode code).blockContaining? offset = some id
    ↔ ∃ b, (ofCode code).blocks[id]? = some b ∧ b.start ≤ offset ∧ offset < b.limit
  := by
  rw [blockContaining?, Option.filter_eq_some_iff,
    Search.lastUpTo?_eq_some (ascending_start htiles).ordered, Search.isUpTo_iff]
  constructor
  · rintro ⟨⟨⟨b, hb, hstart⟩, -⟩, hlimit⟩
    refine ⟨b, hb, hstart, ?_⟩
    simpa [hb] using hlimit
  · rintro ⟨b, hb, hstart, hlimit⟩
    refine ⟨⟨⟨b, hb, hstart⟩, ?_⟩, by simpa [hb] using hlimit⟩
    intro j hj
    obtain ⟨b', hb', hstart'⟩ := Search.isUpTo_iff.mp hj
    by_contra hlt
    have hle := limit_le_start htiles hb hb' (Nat.lt_of_not_le hlt)
    omega

/-- Every offset of the code lies in the range of a block. -/
theorem exists_mem_range (htiles : CodeArray.Tiles 0 code.instructions limit) {offset : Nat}
    (hoffset : offset < limit) :
  ∃ b ∈ (ofCode code).blocks, b.start ≤ offset ∧ offset < b.limit
  := by
  obtain ⟨insn, hinsn, hle, hlt⟩ := htiles.exists_mem (Nat.zero_le offset) hoffset
  obtain ⟨b, hb, hinsn⟩ := exists_mem_instructionsIn hinsn
  obtain ⟨hstart, hlimit⟩ := (tiles_instructionsIn htiles hb).1.bounds hinsn
  exact ⟨b, hb, hstart.trans hle, hlt.trans_le hlimit⟩

/-! ## Cutting -/

/-- Whether the blocks of the graph are the instructions of `code`, cut at the offsets at which
blocks have to start. -/
structure IsCutInto (g : FlowGraph) (code : Code) : Prop where
  numbered : Numbered g.blocks
  /-- The blocks are the instructions, one behind the other. -/
  instructions_eq : g.blocks.toList.flatMap (BasicBlock.instructionsIn code) = code.instructions
  /-- A block runs from an instruction at its start to its last one. -/
  ends : ∀ b ∈ g.blocks, ∃ head tail, b.instructionsIn code = head :: tail
    ∧ head.offset = b.start ∧ (b.instructionsIn code).getLast? = some b.last
  starts : ∀ offset, (∃ b ∈ g.blocks, b.start = offset) ↔ code.StartsBlock offset
  /-- Nothing behind the first instruction of a block starts one. -/
  tail : ∀ b ∈ g.blocks, ∀ insn ∈ (b.instructionsIn code).tail, ¬ code.StartsBlock insn.offset
  /-- Nothing in front of the last instruction of a block ends one. -/
  dropLast : ∀ b ∈ g.blocks, ∀ insn ∈ (b.instructionsIn code).dropLast, insn.op.endsBlock = false
  /-- The block at each offset at which one has to start is found. -/
  blockAt : ∀ offset, code.StartsBlock offset →
    ∃ id b, g.blockAt? offset = some id ∧ g.blocks[id]? = some b ∧ b.start = offset
  /-- The block found around an offset of the code is the only one that has it in its range. -/
  around : ∀ offset < code.length,
    ∃ id b, g.blockContaining? offset = some id ∧ g.blocks[id]? = some b
      ∧ b.start ≤ offset ∧ offset < b.limit
      ∧ ∀ id' b', g.blocks[id']? = some b' → b'.start ≤ offset → offset < b'.limit → id' = id
  /-- Behind the code no block is found. -/
  beyond : ∀ offset, code.length ≤ offset → g.blockContaining? offset = none

/-- The blocks of a body that could be read are its instructions, cut at the offsets at which
blocks have to start. -/
theorem isCutInto_of_read {pool : ConstantPool} {info : List UInt8} {code : Code}
    (h : Code.read pool info = .ok code) :
  (ofCode code).IsCutInto code
  := by
  have hwf := Code.wellFormed_of_read h
  have htiles := hwf.instructions.tiles
  refine
    { numbered := numbered_ofCode code, instructions_eq := ?_,
      ends := fun b hb => exists_head_instructionsIn hb,
      starts := fun offset => exists_start_iff hwf, tail := ?_, dropLast := ?_, blockAt := ?_,
      around := ?_, beyond := ?_ }
  · rw [List.flatMap, map_instructionsIn, flatten_codeRuns]
  · intro b hb insn hinsn
    obtain ⟨head, tail, hrun, -⟩ := exists_head_instructionsIn hb
    have hmem := instructionsIn_mem_codeRuns hb
    rw [hrun] at hinsn hmem
    rw [← mem_leaders_iff htiles hwf.ne_nil]
    exact not_mem_leaders_of_mem_tail hmem hinsn
  · intro b hb insn hinsn
    exact not_endsBlock_of_mem_dropLast (instructionsIn_mem_codeRuns hb) hinsn
  · intro offset hstarts
    obtain ⟨b, hb, hstart⟩ := (exists_start_iff hwf).mpr hstarts
    obtain ⟨id, hid⟩ := Array.mem_iff_getElem?.mp hb
    exact ⟨id, b, (blockAt?_eq_some htiles).mpr ⟨b, hid, hstart⟩, hid, hstart⟩
  · intro offset hoffset
    obtain ⟨b, hb, hstart, hlimit⟩ := exists_mem_range htiles hoffset
    obtain ⟨id, hid⟩ := Array.mem_iff_getElem?.mp hb
    have hfound := (blockContaining?_eq_some htiles).mpr ⟨b, hid, hstart, hlimit⟩
    refine ⟨id, b, hfound, hid, hstart, hlimit, ?_⟩
    intro id' b' hid' hstart' hlimit'
    have hfound' := (blockContaining?_eq_some htiles).mpr ⟨b', hid', hstart', hlimit'⟩
    exact Option.some.inj (hfound'.symm.trans hfound)
  · intro offset hoffset
    rw [Option.eq_none_iff_forall_ne_some]
    intro id hfound
    obtain ⟨b, hb, -, hlimit⟩ := (blockContaining?_eq_some htiles).mp hfound
    have hle := (tiles_instructionsIn htiles (Array.mem_of_getElem? hb)).2
    omega

theorem isCutInto_of_read_jumpBody :
  Code.read ClassFile.jumpClass.pool ClassFile.jumpBody.form = .ok ClassFile.jumpBody
    ∧ (ofCode ClassFile.jumpBody).IsCutInto ClassFile.jumpBody
  := ⟨ClassFile.read_form_jumpBody, isCutInto_of_read ClassFile.read_form_jumpBody⟩

end FlowGraph

end JvmCoverage
