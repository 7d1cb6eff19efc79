import JvmCoverage.Proofs.LineStatus
import JvmCoverage.Proofs.Transfers
import JvmCoverage.Proofs.Widening
import Mathlib.Data.List.Dedup

/-!
# Branches are the choices of the code

A conditional branch or a switch is a choice if control may go on to several instructions behind it
(`Code.chooses`).  The branches that a plan tells of are found on the edges between blocks, where a
way that an exception takes as well is told once.  They are the choices of the planned methods, one
by one and in order, each with the probes in front of the instructions that it chooses from
(`ClassPlan.mirrorsBranches_of_read`).
-/

namespace JvmCoverage

/-! ## Choices -/

namespace Operation

/-- Whether the operation is a conditional branch. -/
def isConditional : Operation → Bool
  | branch opcode _ => opcode.isConditional
  | _ => false

/-- Whether the operation is a switch. -/
def isSwitch : Operation → Bool
  | switch _ _ _ => true
  | _ => false

/-- Whether the operation is a conditional branch or a switch. -/
def isChoice (op : Operation) : Bool :=
  op.isConditional || op.isSwitch

variable {op : Operation}

/-- A block is left by a choice when it ends with a conditional branch or a switch. -/
theorem isBranch_ofOperation (h : op.WellFormed) :
  (Terminator.ofOperation op).isBranch = op.isChoice
  := by
  cases op with
  | branch opcode target =>
    have hconditional := opcode.isConditional_eq_of_layout? h
    cases hgoto : opcode.isGoto <;> cases hjsr : opcode.isJsr
      <;> simp [Terminator.ofOperation, Terminator.isBranch, isChoice, isConditional, isSwitch,
        hconditional, hgoto, hjsr]
  | _ => rfl

/-- Of the choices only conditional branches fall through. -/
theorem fallsThrough_eq (h : op.WellFormed) (hchoice : op.isChoice) :
  op.fallsThrough = op.isConditional
  := by
  cases op with
  | branch opcode target =>
    have hconditional := opcode.isConditional_eq_of_layout? h
    cases hgoto : opcode.isGoto <;> simp_all [fallsThrough, isChoice, isConditional, isSwitch]
  | switch opcode default cases => rfl
  | _ => cases hchoice

end Operation

namespace Code

/-- The offsets of the instructions to which control may go on from `insn`, which are its jump
targets and, behind a conditional branch, the next instruction. -/
def nextOffsets (code : Code) (insn : Instruction) : List Nat :=
  let behind := (code.instructions.map Instruction.offset).filter (· == insn.limit)
  (insn.op.targets ++ if insn.op.isConditional then behind else []).dedup

/-- Whether control chooses between several instructions behind `insn`. -/
def chooses (code : Code) (insn : Instruction) : Bool :=
  insn.op.isChoice && 2 ≤ (code.nextOffsets insn).length

variable {code : Code} {insn : Instruction}

theorem mem_nextOffsets {offset : Nat} :
  offset ∈ code.nextOffsets insn
    ↔ offset ∈ insn.op.targets ∨ insn.op.isConditional ∧ offset = insn.limit
      ∧ offset ∈ code.instructions.map Instruction.offset
  := by
  simp only [nextOffsets, List.mem_dedup, List.mem_append]
  split
  · rename_i hconditional
    simp only [List.mem_filter, beq_iff_eq, hconditional, true_and, and_comm]
  · rename_i hconditional
    simp [hconditional]

theorem nodup_nextOffsets (code : Code) (insn : Instruction) :
  (code.nextOffsets insn).Nodup
  := List.nodup_dedup _

/-- A choice ends a block. -/
theorem chooses_eq_false (h : insn.op.endsBlock = false) :
  code.chooses insn = false
  := by
  cases hop : insn.op <;> simp_all [chooses, Operation.endsBlock, Operation.isChoice,
    Operation.isConditional, Operation.isSwitch]

end Code

theorem BasicBlock.last_mem {code : Code} {b : BasicBlock}
    (hb : b ∈ (FlowGraph.ofCode code).blocks) :
  b.last ∈ code.instructions
  := mem_of_mem_instructionsIn (FlowGraph.last_mem_instructionsIn hb)

namespace FlowGraph

variable {code : Code} {b : BasicBlock} {id id' offset : Nat}

/-! ## Blocks behind a choice -/

theorem StartsAt.eq_block (htiles : CodeArray.Tiles 0 code.instructions code.length)
    (h : (ofCode code).StartsAt id offset) (h' : (ofCode code).StartsAt id' offset) :
  id = id'
  := by
  have hid := (blockAt?_eq_some htiles).mpr h
  exact Option.some.inj (hid.symm.trans ((blockAt?_eq_some htiles).mpr h'))

theorem StartsAt.eq_offset {offset' : Nat} (h : (ofCode code).StartsAt id offset)
    (h' : (ofCode code).StartsAt id offset') :
  offset = offset'
  := by
  obtain ⟨b, hb, rfl⟩ := h
  obtain ⟨b', hb', rfl⟩ := h'
  rw [Option.some.inj (hb.symm.trans hb')]

theorem start_lt_limit (htiles : CodeArray.Tiles 0 code.instructions code.length)
    (hb : b ∈ (ofCode code).blocks) :
  b.start < b.limit
  := by
  obtain ⟨head, hhead, hstart⟩ := exists_mem_start hb
  have hbounds := (tiles_instructionsIn htiles hb).1.bounds hhead
  have hlt := CodeArray.offset_lt_limit head
  omega

/-- The next block starts where a block ends. -/
theorem startsAt_limit (htiles : CodeArray.Tiles 0 code.instructions code.length)
    (hb : (ofCode code).blocks[id]? = some b) (hlimit : b.limit < code.length) :
  (ofCode code).StartsAt (id + 1) b.limit
  := by
  obtain ⟨b', hb', hstart, hlt⟩ := exists_mem_range htiles hlimit
  obtain ⟨j, hj⟩ := Array.mem_iff_getElem?.mp hb'
  rcases Nat.lt_trichotomy j (id + 1) with hbefore | rfl | hbehind
  · -- the block at the end of `b` is neither `b` nor in front of it
    rcases Nat.lt_or_eq_of_le (Nat.le_of_lt_succ hbefore) with hlt' | rfl
    · have hle := limit_le_start htiles hj hb hlt'
      have hpos := start_lt_limit htiles (Array.mem_of_getElem? hb)
      omega
    · obtain rfl := Option.some.inj (hj.symm.trans hb)
      omega
  · exact ⟨b', hj, hstart.antisymm (limit_le_start htiles hb hj (Nat.lt_succ_self id))⟩
  · -- no other block lies in between
    have hsize := (Array.getElem?_eq_some_iff.mp hj).1
    have hnext := Array.getElem?_eq_getElem (hbehind.trans hsize)
    have hle := limit_le_start htiles hb hnext (Nat.lt_succ_self id)
    have hle' := limit_le_start htiles hnext hj hbehind
    have hpos := start_lt_limit htiles (Array.mem_of_getElem? hnext)
    omega

/-- Control falls through to the block that starts where the block ends. -/
theorem fallsTo_iff (htiles : CodeArray.Tiles 0 code.instructions code.length)
    (hb : (ofCode code).blocks[id]? = some b) :
  (ofCode code).FallsTo id b.last id'
    ↔ b.last.op.fallsThrough ∧ b.limit ∈ code.instructions.map Instruction.offset
      ∧ (ofCode code).StartsAt id' b.limit
  := by
  constructor
  · rintro ⟨hfalls, rfl, hlt⟩
    have hnext := Array.getElem?_eq_getElem hlt
    obtain ⟨head, hhead, hstart⟩ := exists_mem_start (Array.mem_of_getElem? hnext)
    have hmem := BasicBlock.mem_of_mem_instructionsIn hhead
    have hbounds := htiles.bounds hmem
    have hpos := CodeArray.offset_lt_limit head
    have hle := limit_le_start htiles hb hnext (Nat.lt_succ_self id)
    have hstarts := startsAt_limit htiles hb (by omega)
    have hoffset : head.offset = b.limit :=
      hstart.trans (StartsAt.eq_offset ⟨_, hnext, rfl⟩ hstarts)
    exact ⟨hfalls, hoffset ▸ List.mem_map_of_mem hmem, hstarts⟩
  · rintro ⟨hfalls, hmem, hstarts⟩
    obtain ⟨insn, hinsn, hoffset⟩ := List.mem_map.mp hmem
    have hbounds := htiles.bounds hinsn
    have hpos := CodeArray.offset_lt_limit insn
    have hnext := startsAt_limit htiles hb (by omega)
    obtain rfl := hstarts.eq_block htiles hnext
    obtain ⟨b', hb', -⟩ := hstarts
    exact ⟨hfalls, rfl, (Array.getElem?_eq_some_iff.mp hb').1⟩

/-- The blocks that control may go on to from the end of a block, without an exception. -/
def outlets (b : BasicBlock) : List Nat :=
  (b.successors.filter (·.kind != .exception)).map Edge.target

theorem nodup_outlets (hb : (ofCode code).blocks[id]? = some b) :
  (outlets b).Nodup
  := by
  rw [outlets]
  apply List.Nodup.sublist (List.filter_sublist.map _)
  rw [successors_eq hb]
  apply nodup_firstEdges

variable {pool : ConstantPool}

/-- A block to which control may go on is among them also when an exception leads there. -/
theorem mem_outlets (h : code.WellFormed pool) (hb : (ofCode code).blocks[id]? = some b) :
  id' ∈ outlets b ↔ (ofCode code).JumpsTo b.last id' ∨ (ofCode code).FallsTo id b.last id'
  := by
  simp only [outlets, List.mem_map, List.mem_filter, bne_iff_ne]
  constructor
  · rintro ⟨e, ⟨he, hkind⟩, rfl⟩
    rcases (mem_successors h hb).mp he with ⟨hjump, -⟩ | ⟨-, hfall, -⟩ | ⟨-, -, -, hexception⟩
    · exact .inl hjump
    · exact .inr hfall
    · exact absurd hexception hkind
  · intro hgoes
    by_cases hjump : (ofCode code).JumpsTo b.last id'
    · exact ⟨⟨id', .branchTaken⟩, ⟨(mem_successors h hb).mpr (.inl ⟨hjump, rfl⟩), by simp⟩, rfl⟩
    · have hfall := hgoes.resolve_left hjump
      exact ⟨⟨id', .fallthrough⟩,
        ⟨(mem_successors h hb).mpr (.inr (.inl ⟨hjump, hfall, rfl⟩)), by simp⟩, rfl⟩

/-- Behind a choice, control goes on to the blocks at the instructions that are chosen from. -/
theorem mem_outlets_iff (h : code.WellFormed pool) (hb : (ofCode code).blocks[id]? = some b)
    (hchoice : b.last.op.isChoice) :
  id' ∈ outlets b ↔ ∃ offset ∈ code.nextOffsets b.last, (ofCode code).StartsAt id' offset
  := by
  have hlast := BasicBlock.last_mem (Array.mem_of_getElem? hb)
  rw [mem_outlets h hb, fallsTo_iff h.instructions.tiles hb,
    Operation.fallsThrough_eq (h.instructions.ops _ hlast) hchoice]
  simp only [Code.mem_nextOffsets, JumpsTo]
  constructor
  · rintro (⟨target, htarget, hstarts⟩ | ⟨hconditional, hlimit, hstarts⟩)
    · exact ⟨target, .inl htarget, hstarts⟩
    · exact ⟨b.limit, .inr ⟨hconditional, rfl, hlimit⟩, hstarts⟩
  · rintro ⟨offset, htarget | ⟨hconditional, rfl, hlimit⟩, hstarts⟩
    · exact .inl ⟨offset, htarget, hstarts⟩
    · exact .inr ⟨hconditional, hlimit, hstarts⟩

/-- There is a block at every instruction that is chosen from. -/
theorem exists_startsAt (h : code.WellFormed pool) (hb : (ofCode code).blocks[id]? = some b)
    (hoffset : offset ∈ code.nextOffsets b.last) :
  ∃ id', (ofCode code).StartsAt id' offset
  := by
  have htiles := h.instructions.tiles
  rcases Code.mem_nextOffsets.mp hoffset with htarget | ⟨-, rfl, hlimit⟩
  · have hlast := BasicBlock.last_mem (Array.mem_of_getElem? hb)
    obtain ⟨b', hb', hstart⟩ := (exists_start_iff h).mpr (.target hlast htarget)
    obtain ⟨id', hid'⟩ := Array.mem_iff_getElem?.mp hb'
    exact ⟨id', b', hid', hstart⟩
  · obtain ⟨insn, hinsn, hoffset⟩ := List.mem_map.mp hlimit
    have hbounds := htiles.bounds hinsn
    have hpos := CodeArray.offset_lt_limit insn
    exact ⟨id + 1, startsAt_limit htiles hb (by rw [BasicBlock.limit]; omega)⟩

/-- The blocks behind a choice are those at the instructions that are chosen from, one by one. -/
theorem exists_perm_nextOffsets (h : code.WellFormed pool)
    (hb : (ofCode code).blocks[id]? = some b)
    (hchoice : b.last.op.isChoice) :
  ∃ offsets, offsets.Perm (code.nextOffsets b.last)
    ∧ List.Forall₂ (ofCode code).StartsAt (outlets b) offsets
  := by
  have htiles := h.instructions.tiles
  obtain ⟨offsets, hoffsets⟩ : ∃ offsets,
      List.Forall₂ (ofCode code).StartsAt (outlets b) offsets := by
    apply exists_forall₂
    intro id' hid'
    obtain ⟨offset, -, hstarts⟩ := (mem_outlets_iff h hb hchoice).mp hid'
    exact ⟨offset, hstarts⟩
  refine ⟨offsets, ?_, hoffsets⟩
  have hunique : Relator.BiUnique (ofCode code).StartsAt :=
    ⟨fun _ _ _ h h' => h.eq_block htiles h', fun _ _ _ h h' => h.eq_offset h'⟩
  have hnodup := (List.rel_nodup hunique hoffsets).mp (nodup_outlets hb)
  rw [List.perm_ext_iff_of_nodup hnodup (code.nodup_nextOffsets b.last)]
  intro offset
  constructor
  · intro hoffset
    obtain ⟨id', hid', hstarts⟩ := exists_of_mem_right hoffsets hoffset
    obtain ⟨offset', hoffset', hstarts'⟩ := (mem_outlets_iff h hb hchoice).mp hid'
    rwa [hstarts.eq_offset hstarts']
  · intro hoffset
    obtain ⟨id', hstarts⟩ := exists_startsAt h hb hoffset
    have hid' := (mem_outlets_iff h hb hchoice).mpr ⟨offset, hoffset, hstarts⟩
    obtain ⟨offset', hoffset', hstarts'⟩ := exists_of_mem_left hoffsets hid'
    rwa [hstarts.eq_offset hstarts']

end FlowGraph

/-! ## Methods -/

namespace MethodPlan

variable {plan : MethodPlan} {code : Code} {first number offset : Nat} {pool : ConstantPool}

/-- Whether the plan puts the probe `number` in front of the instruction at `offset`. -/
def Probes (plan : MethodPlan) (offset number : Nat) : Prop :=
  ∃ site ∈ plan.layout.sites, site.old = offset ∧ site.probe = some number

/-- Whether `site` tells of the choice `insn` and of the probes in front of the instructions that it
chooses from. -/
structure IsSiteOf (plan : MethodPlan) (code : Code) (insn : Instruction) (site : BranchSite) :
    Prop where
  method : site.method = plan.method
  offset : site.offset = insn.offset
  line : site.line = code.lineAt? insn.offset
  /-- No probe is listed twice. -/
  nodup : site.successors.Nodup
  successors : ∃ offsets, offsets.Perm (code.nextOffsets insn)
    ∧ List.Forall₂ plan.Probes offsets site.successors

/-- A probe stands in front of the instruction at which its block starts. -/
theorem IsOf.probes_iff (h : plan.IsOf code first) (hwf : code.WellFormed pool) :
  plan.Probes offset number
    ↔ ∃ id, (FlowGraph.ofCode code).StartsAt id offset
      ∧ plan.blockProbes[id]? = some (some number)
  := by
  have htiles := hwf.instructions.tiles
  have hblock : plan.probeAt? offset = some number
      ↔ ∃ id, (FlowGraph.ofCode code).StartsAt id offset
        ∧ plan.blockProbes[id]? = some (some number) := by
    simp only [probeAt?, h.graph_eq, Option.bind_eq_some_iff, FlowGraph.blockAt?_eq_some htiles,
      probeOf?, Option.join_eq_some_iff, FlowGraph.StartsAt]
  rw [← hblock]
  constructor
  · rintro ⟨site, hsite, rfl, hprobe⟩
    rw [← h.probe_eq htiles (Array.mem_toList_iff.mpr hsite), hprobe]
  · intro hprobe
    obtain ⟨id, ⟨b, hb, rfl⟩, -⟩ := hblock.mp hprobe
    obtain ⟨head, hhead, hstart⟩ := FlowGraph.exists_mem_start (Array.mem_of_getElem? hb)
    have hmem := BasicBlock.mem_of_mem_instructionsIn hhead
    rw [← h.layout.insns] at hmem
    obtain ⟨site, hsite, rfl⟩ := List.mem_map.mp hmem
    refine ⟨site, Array.mem_toList_iff.mp hsite, hstart, ?_⟩
    rw [h.probe_eq htiles hsite, ← hprobe]
    exact congrArg _ hstart

/-- No two blocks have the same probe. -/
theorem IsOf.eq_of_number (h : plan.IsOf code first) {i j : Nat}
    (hi : plan.blockProbes[i]? = some (some number))
    (hj : plan.blockProbes[j]? = some (some number)) :
  i = j
  := by
  have hnodup : plan.numbers.Nodup := by
    rw [h.numbers_eq]
    exact List.nodup_range'
  rw [numbers, List.reduceOption, List.Nodup, List.pairwise_filterMap] at hnodup
  have hne {i j : Nat} (hi : plan.blockProbes[i]? = some (some number))
      (hj : plan.blockProbes[j]? = some (some number)) : ¬ i < j := by
    rw [← Array.getElem?_toList] at hi hj
    obtain ⟨hi', hi⟩ := List.getElem?_eq_some_iff.mp hi
    obtain ⟨hj', hj⟩ := List.getElem?_eq_some_iff.mp hj
    exact fun hlt => List.pairwise_iff_getElem.mp hnodup i j hi' hj' hlt _ hi _ hj rfl
  exact Nat.le_antisymm (Nat.le_of_not_lt (hne hj hi)) (Nat.le_of_not_lt (hne hi hj))

section Sites

variable {b : BasicBlock} {id : Nat} (h : plan.IsOf code first) (hwf : code.WellFormed pool)
  (hprobed : ∀ block < plan.graph.blocks.size, ∃ n, plan.blockProbes[block]? = some (some n))
  (hb : (FlowGraph.ofCode code).blocks[id]? = some b)

include h hwf hprobed hb

/-- The blocks behind a choice have a probe each. -/
theorem IsOf.forall₂_outcomes :
  List.Forall₂ (fun id n => plan.blockProbes[id]? = some (some n)) (FlowGraph.outlets b)
    (outcomes plan.blockProbes b)
  := by
  have hmem : ∀ id' ∈ FlowGraph.outlets b, id' < plan.graph.blocks.size := by
    intro id' hid'
    rw [h.graph_eq]
    rcases (FlowGraph.mem_outlets hwf hb).mp hid' with ⟨target, -, b', hb', -⟩ | ⟨-, -, hlt⟩
    · exact (Array.getElem?_eq_some_iff.mp hb').1
    · exact hlt
  have houtcomes : outcomes plan.blockProbes b
      = (FlowGraph.outlets b).filterMap (probeOf? plan.blockProbes) := by
    rw [outcomes, FlowGraph.outlets, List.filterMap_map]
    rfl
  have hfound : ∀ id' ∈ FlowGraph.outlets b,
      ∃ n, probeOf? plan.blockProbes id' = some n := by
    intro id' hid'
    obtain ⟨n, hn⟩ := hprobed id' (hmem id' hid')
    exact ⟨n, Option.join_eq_some_iff.mpr hn⟩
  rw [houtcomes]
  exact (forall₂_filterMap hfound).imp fun _ _ hn => Option.join_eq_some_iff.mp hn

/-- The probes behind a choice are those in front of the instructions that it chooses from. -/
theorem IsOf.exists_outcomes (hchoice : b.last.op.isChoice) :
  (outcomes plan.blockProbes b).Nodup ∧ ∃ offsets, offsets.Perm (code.nextOffsets b.last)
    ∧ List.Forall₂ plan.Probes offsets (outcomes plan.blockProbes b)
  := by
  have houtcomes := h.forall₂_outcomes hwf hprobed hb
  obtain ⟨offsets, hperm, hoffsets⟩ := FlowGraph.exists_perm_nextOffsets hwf hb hchoice
  refine ⟨?_, offsets, hperm, ?_⟩
  · have hunique : Relator.BiUnique fun id n => plan.blockProbes[id]? = some (some n) :=
      ⟨fun _ _ _ hi hj => h.eq_of_number hi hj, fun _ _ _ hm hn => by simpa [hm] using hn⟩
    exact (List.rel_nodup hunique houtcomes).mp (FlowGraph.nodup_outlets hb)
  · apply forall₂_of_common _ hoffsets houtcomes
    exact fun id' offset n hstarts hn => (h.probes_iff hwf).mpr ⟨id', hstarts, hn⟩

/-- A block is told of as a branch when it ends with a choice. -/
theorem IsOf.branchSite_cases :
  (code.chooses b.last ∧ ∃ site, branchSite plan.method code plan.blockProbes b = some site
      ∧ plan.IsSiteOf code b.last site)
    ∨ (code.chooses b.last = false
      ∧ branchSite plan.method code plan.blockProbes b = none)
  := by
  have hlast := hwf.instructions.ops _ (BasicBlock.last_mem (Array.mem_of_getElem? hb))
  have hbranch : b.terminator.isBranch = b.last.op.isChoice :=
    Operation.isBranch_ofOperation hlast
  cases hchoice : b.last.op.isChoice with
  | false => exact .inr ⟨by simp [Code.chooses, hchoice], by simp [branchSite, hbranch, hchoice]⟩
  | true =>
    obtain ⟨hnodup, offsets, hperm, hoffsets⟩ := h.exists_outcomes hwf hprobed hb hchoice
    have hlength : (outcomes plan.blockProbes b).length = (code.nextOffsets b.last).length := by
      rw [← hoffsets.length_eq, hperm.length_eq]
    by_cases hle : 2 ≤ (code.nextOffsets b.last).length
    · refine .inl ⟨by simp [Code.chooses, hchoice, hle], ⟨plan.method, b.last.offset,
        code.lineAt? b.last.offset, outcomes plan.blockProbes b⟩, ?_,
        ⟨rfl, rfl, rfl, hnodup, offsets, hperm, hoffsets⟩⟩
      simp [branchSite, hbranch, hchoice, hlength, hle]
    · refine .inr ⟨by simp [Code.chooses, hle], ?_⟩
      simp [branchSite, hlength, hle]

end Sites

/-- The choices in a block are those at its end. -/
theorem filter_chooses {b : BasicBlock} (hb : b ∈ (FlowGraph.ofCode code).blocks) :
  (b.instructionsIn code).filter code.chooses = [b.last].filter code.chooses
  := by
  obtain ⟨-, -, -, -, hlast⟩ := FlowGraph.exists_head_instructionsIn hb
  rw [← List.dropLast_append_getLast? _ hlast, List.filter_append,
    List.filter_eq_nil_iff.mpr, List.nil_append]
  intro insn hinsn
  rw [Code.chooses_eq_false (FlowGraph.not_endsBlock_of_mem_dropLast
    (FlowGraph.instructionsIn_mem_codeRuns hb) hinsn)]
  exact Bool.false_ne_true

/-- The branches of a method are its choices, one by one. -/
theorem IsOf.forall₂_branchSites (h : plan.IsOf code first) (hwf : code.WellFormed pool)
    (hprobed : ∀ block < plan.graph.blocks.size,
      ∃ n, plan.blockProbes[block]? = some (some n)) :
  List.Forall₂ (plan.IsSiteOf code) (code.instructions.filter code.chooses)
    (branchSites .basicBlock plan.method code plan.graph plan.blockProbes)
  := by
  have hcases : ∀ b ∈ (FlowGraph.ofCode code).blocks.toList,
      List.Forall₂ (plan.IsSiteOf code) ((b.instructionsIn code).filter code.chooses)
        (branchSite plan.method code plan.blockProbes b).toList := by
    intro b hb
    obtain ⟨id, hid⟩ := Array.mem_iff_getElem?.mp (Array.mem_toList_iff.mp hb)
    rw [filter_chooses (Array.mem_toList_iff.mp hb)]
    rcases h.branchSite_cases hwf hprobed hid with ⟨hchooses, site, hsite, hof⟩ | ⟨hnot, hnone⟩
    · rw [List.filter_cons_of_pos hchooses, hsite]
      exact .cons hof .nil
    · rw [List.filter_cons_of_neg (by simp [hnot]), hnone]
      exact .nil
  have hinsns : code.instructions
      = (FlowGraph.ofCode code).blocks.toList.flatMap (BasicBlock.instructionsIn code) := by
    rw [List.flatMap, FlowGraph.map_instructionsIn, FlowGraph.flatten_codeRuns]
  rw [branchSites, h.graph_eq, List.filterMap_eq_flatMap_toList, hinsns, List.filter_flatMap]
  exact forall₂_flatMap hcases

end MethodPlan

namespace PlannedMethod

variable {policy : Policy} {pool : ConstantPool} {location : String} {method first : Nat}
  {code : Code} {planned : PlannedMethod}

/-- The branches of a planned method are its choices, one by one. -/
theorem forall₂_branches (h : ofCode policy pool location method first code = .ok planned)
    (hwf : code.WellFormed pool) (hgranularity : policy.granularity = .basicBlock)
    (hprobed : ∀ block < planned.plan.graph.blocks.size,
      ∃ n, planned.plan.blockProbes[block]? = some (some n)) :
  List.Forall₂ (planned.plan.IsSiteOf code) (code.instructions.filter code.chooses)
    planned.branches
  := by
  obtain ⟨-, hof, -⟩ := isOf_of_ofCode h hwf.ne_nil
  have hsites := hof.forall₂_branchSites hwf hprobed
  simp only [ofCode, bind_eq_ok, pure_eq_ok] at h
  obtain ⟨⟨⟩, -, layout, -, rfl⟩ := h
  rw [hgranularity]
  rw [hgranularity] at hsites
  exact hsites

end PlannedMethod

/-! ## Classes -/

/-- The branches under the position of a planned method are its own. -/
theorem MethodOutcome.filter_branches {outcomes : List MethodOutcome} {i : Nat}
    {planned : PlannedMethod} (hgives : Gives outcomes i planned)
    (howned : ∀ j planned', Gives outcomes j planned' →
      ∀ site ∈ planned'.branches, site.method = j) :
  (outcomes.flatMap branches).filter (·.method == i) = planned.branches
  := hgives.filter_eq PlannedMethod.branches BranchSite.method howned

namespace ClassPlan

/-- Whether the branches of the plan are the choices of the planned methods. -/
structure MirrorsBranches (plan : ClassPlan) (policy : Policy) (c : ClassFile) : Prop where
  /-- When every block has a probe, the branches of a method are its choices, in order. -/
  choices : policy.granularity = .basicBlock → ∀ methodPlan ∈ plan.planned,
    ∃ m code, c.methods[methodPlan.method]? = some m ∧ m.code? = some code
      ∧ List.Forall₂ (methodPlan.IsSiteOf code) (code.instructions.filter code.chooses)
        (plan.branches.filter (·.method == methodPlan.method))
  /-- Other methods have no branches. -/
  planned : ∀ site ∈ plan.branches, ∃ methodPlan ∈ plan.planned, methodPlan.method = site.method
  none : policy.granularity ≠ .basicBlock → plan.branches = []

variable {plan : ClassPlan} {policy : Policy} {c : ClassFile}

/-- The branches that a plan tells of are the choices of the planned methods. -/
theorem mirrorsBranches_of_read {bytes : List UInt8} (hread : ClassFile.read bytes = .ok c)
    (hplan : ofClass policy c = .ok plan) :
  plan.MirrorsBranches policy c
  := by
  have hc := (ClassFile.wellFormed_of_read hread).1
  refine ⟨?_, ?_, ?_⟩
  · intro hgranularity methodPlan hmem
    obtain ⟨planned, hgives, rfl⟩ := (mem_planned_iff hplan hc).mp ⟨hmem, rfl⟩
    have hbranches : plan.branches.filter (·.method == planned.plan.method) = planned.branches := by
      rw [(eq_of_ofClass hplan).2.2.2]
      apply MethodOutcome.filter_branches hgives
      intro j planned' hgives'
      obtain ⟨_, -, hbooks⟩ := exists_method_of_gives hc hgives'
      exact hbooks.branches
    obtain ⟨outcome, houtcome, hplanned⟩ := hgives
    rw [MethodOutcome.ofClass_eq] at houtcome
    obtain ⟨m, first, hm, rfl⟩ := MethodOutcome.exists_of_getElem?_outcomesFrom houtcome
    obtain ⟨code, hcode, hofCode⟩ := MethodOutcome.exists_ofCode_of_planned hplanned
    have hwf := Method.wellFormed_code (hc.methods m (List.mem_of_getElem? hm)) hcode
    have hbooks := PlannedMethod.keepsBooks_of_ofCode hofCode hcode hwf.ne_nil
    refine ⟨m, code, hm, hcode, ?_⟩
    rw [hbranches]
    exact PlannedMethod.forall₂_branches hofCode hwf hgranularity (hbooks.everyBlock hgranularity)
  · intro site hsite
    obtain ⟨planned, hgives⟩ := exists_gives_of_mem_branches hplan hc hsite
    obtain ⟨hmem, hmethod⟩ := (mem_planned_iff hplan hc).mpr ⟨planned, hgives, rfl⟩
    exact ⟨_, hmem, hmethod⟩
  · intro hgranularity
    apply branches_eq_nil hplan
    cases hpolicy : policy.granularity with
    | line => rfl
    | basicBlock => exact absurd hpolicy hgranularity

theorem mirrorsBranches_crossClass :
  ClassFile.read ClassFile.crossClass.form = .ok ClassFile.crossClass
    ∧ ∃ plan, ofClass {} ClassFile.crossClass = .ok plan ∧ plan.branches ≠ []
      ∧ plan.MirrorsBranches {} ClassFile.crossClass
  := by
  obtain ⟨plan, hplan, hrecord⟩ := ClassFile.exists_plan_crossClass
  have hbranches : plan.branches = (ClassFile.crossRecord ⟨"A", 0⟩).branches := by
    rw [← hrecord]
    rfl
  refine ⟨ClassFile.read_form_crossClass, plan, hplan, ?_,
    mirrorsBranches_of_read ClassFile.read_form_crossClass hplan⟩
  rw [hbranches]
  exact List.cons_ne_nil _ _

end ClassPlan

end JvmCoverage
