import JvmCoverage.Flow.Graph
import JvmCoverage.Proofs.CodeArray
import JvmCoverage.Proofs.Search
import Mathlib.Data.List.SplitBy

/-!
# Basic blocks make up the code

The blocks of a body are made of runs of instructions which together are the instructions of the
body (`FlowGraph.flatten_codeRuns`, `FlowGraph.forall₂_isOf`).  The blocks start at ascending
offsets, so that the block at an offset is found (`FlowGraph.blockAt?_eq_some`).
-/

namespace JvmCoverage

namespace FlowGraph

/-! ## Runs -/

/-- A block starts behind each instruction that ends one. -/
theorem mem_resumptions {instructions : List Instruction} {offset : Nat} :
  offset ∈ resumptions instructions
    ↔ ∃ i insn next, instructions[i]? = some insn ∧ instructions[i + 1]? = some next
      ∧ insn.op.endsBlock ∧ next.offset = offset
  := by
  have hpair {insn next : Instruction} : (insn, next) ∈ instructions.zip instructions.tail
      ↔ ∃ i : Nat, instructions[i]? = some insn ∧ instructions[i + 1]? = some next := by
    simp [List.mem_iff_getElem?, List.getElem?_zip_eq_some]
  simp only [resumptions, List.mem_map, List.mem_filter, Prod.exists, hpair]
  constructor
  · rintro ⟨insn, next, ⟨⟨i, hinsn, hnext⟩, hends⟩, hoffset⟩
    exact ⟨i, insn, next, hinsn, hnext, hends, hoffset⟩
  · rintro ⟨i, insn, next, hinsn, hnext, hends, hoffset⟩
    exact ⟨insn, next, ⟨⟨i, hinsn, hnext⟩, hends⟩, hoffset⟩

/-- The runs of instructions of which the blocks of `code` are made. -/
def codeRuns (code : Code) : List (List Instruction) :=
  runs (.ofList (leaders code)) code.instructions

theorem runs_ofList (starts : List Nat) (instructions : List Instruction) :
  runs (.ofList starts) instructions
    = instructions.splitBy fun _ next => !starts.contains next.offset
  := by
  simp [runs]

/-- The runs are the instructions. -/
theorem flatten_codeRuns (code : Code) :
  (codeRuns code).flatten = code.instructions
  := List.flatten_splitBy _ _

theorem ne_nil_of_mem_codeRuns {code : Code} {run : List Instruction} (h : run ∈ codeRuns code) :
  run ≠ []
  := List.ne_nil_of_mem_splitBy h

/-- Whether the block is made of the run. -/
def IsOf (run : List Instruction) (b : BasicBlock) : Prop :=
  ∃ head tail, run = head :: tail ∧ b.start = head.offset ∧ b.count = tail.length + 1

/-- Whether the block is made of `run`, which stands behind the runs `before`. -/
structure IsMade (index : LineIndex) (before : List (List Instruction)) (run : List Instruction)
    (b : BasicBlock) : Prop where
  id_eq : b.id = before.length
  first_eq : b.first = before.flatten.length
  count_eq : b.count = run.length
  start_eq : run.head?.map Instruction.offset = some b.start
  last_eq : run.getLast? = some b.last
  lines_eq : b.lines = index.linesOf run

theorem IsMade.isOf {index : LineIndex} {before : List (List Instruction)}
    {run : List Instruction} {b : BasicBlock} (h : IsMade index before run b) :
  IsOf run b
  := by
  obtain ⟨head, hhead, hstart⟩ := Option.map_eq_some_iff.mp h.start_eq
  obtain ⟨tail, rfl⟩ := List.head?_eq_some_iff.mp hhead
  exact ⟨head, tail, rfl, hstart.symm, h.count_eq⟩

theorem nextPosition_push (blocks : Array BasicBlock) (b : BasicBlock) :
  nextPosition (blocks.push b) = b.first + b.count
  := by
  simp [nextPosition]

/-- A walk over runs makes a block of each of them, at the place of the run. -/
theorem isMade_foldl_pushRun (index : LineIndex) {runs : List (List Instruction)}
    (h : ∀ run ∈ runs, run ≠ []) :
  (runs.foldl (pushRun index) #[]).size = runs.length
    ∧ nextPosition (runs.foldl (pushRun index) #[]) = runs.flatten.length
    ∧ ∀ (i : Nat) (b : BasicBlock), (runs.foldl (pushRun index) #[])[i]? = some b →
      ∃ before run behind, runs = before ++ run :: behind ∧ before.length = i
        ∧ IsMade index before run b
  := by
  induction runs using List.reverseRecOn with
  | nil => simp [nextPosition]
  | append_singleton runs run ih =>
    obtain ⟨hsize, hnext, hblocks⟩ := ih fun run' hrun' => h run' (List.mem_append_left _ hrun')
    obtain ⟨head, tail, rfl⟩ :=
      List.exists_cons_of_ne_nil (h run (List.mem_append_right _ List.mem_cons_self))
    have hlast := List.getLast?_eq_some_getLast (List.cons_ne_nil head tail)
    rw [List.foldl_append, List.foldl_cons, List.foldl_nil, pushRun, List.head?_cons, hlast]
    refine ⟨by simp [hsize], by simp [nextPosition_push, hnext], ?_⟩
    intro i b hb
    rw [Array.getElem?_push] at hb
    split at hb
    · rename_i heq
      obtain rfl := Option.some.inj hb
      exact ⟨runs, head :: tail, [], rfl, by rw [heq, hsize], hsize, hnext, rfl, rfl, hlast, rfl⟩
    · obtain ⟨before, run, behind, rfl, hi, hmade⟩ := hblocks i b hb
      exact ⟨before, run, behind ++ [head :: tail], by simp, hi, hmade⟩

/-- A block is made of the run at its place. -/
theorem isMade_of_getElem?_outline {code : Code} {i : Nat} {b : BasicBlock}
    (h : (outline code)[i]? = some b) :
  ∃ before run behind, codeRuns code = before ++ run :: behind ∧ before.length = i
    ∧ IsMade (.ofCode code) before run b
  := by
  obtain ⟨-, -, hblocks⟩ := isMade_foldl_pushRun (.ofCode code) fun run
    (hrun : run ∈ codeRuns code) => ne_nil_of_mem_codeRuns hrun
  exact hblocks i b h

/-- A block keeps its run when it gets its successors. -/
theorem isMade_of_getElem? {code : Code} {i : Nat} {b : BasicBlock}
    (h : (ofCode code).blocks[i]? = some b) :
  ∃ before run behind, codeRuns code = before ++ run :: behind ∧ before.length = i
    ∧ IsMade (.ofCode code) before run b
  := by
  simp only [ofCode, Array.getElem?_map, Option.map_eq_some_iff] at h
  obtain ⟨b, hb, rfl⟩ := h
  obtain ⟨before, run, behind, hruns, hi, hmade⟩ := isMade_of_getElem?_outline hb
  exact ⟨before, run, behind, hruns, hi, ⟨hmade.id_eq, hmade.first_eq, hmade.count_eq,
    hmade.start_eq, hmade.last_eq, hmade.lines_eq⟩⟩

theorem size_blocks (code : Code) :
  (ofCode code).blocks.size = (codeRuns code).length
  := by
  rw [ofCode, Array.size_map]
  exact (isMade_foldl_pushRun (.ofCode code) fun run (hrun : run ∈ codeRuns code) =>
    ne_nil_of_mem_codeRuns hrun).1

/-- The blocks of a body are made of its runs. -/
theorem forall₂_isOf (code : Code) :
  List.Forall₂ IsOf (codeRuns code) (ofCode code).blocks.toList
  := by
  rw [List.forall₂_iff_get]
  refine ⟨by rw [← size_blocks, Array.length_toList], ?_⟩
  intro i hi hi'
  obtain ⟨before, run, behind, hruns, rfl, hmade⟩ :=
    isMade_of_getElem? (Array.getElem?_eq_getElem (by simpa using hi'))
  simpa [hruns] using hmade.isOf

/-- A body with instructions has blocks. -/
theorem blocks_pos {code : Code} (h : code.instructions ≠ []) :
  0 < (ofCode code).blocks.size
  := by
  rw [size_blocks, List.length_pos_iff]
  apply List.splitBy_ne_nil.mpr h

/-! ## Edges -/

theorem firstEdges_cons (e : Edge) (edges : List Edge) :
  firstEdges (e :: edges) = e :: firstEdges (edges.filter fun e' => e'.target != e.target)
  := by
  rw [firstEdges, List.eraseDupsBy_cons, firstEdges]
  simp only [bne, Bool.decide_eq_false]

/-- Of the edges to a block the first is kept. -/
theorem mem_firstEdges {edges : List Edge} {e : Edge} :
  e ∈ firstEdges edges ↔ edges.find? (·.target == e.target) = some e
  := by
  induction hlength : edges.length using Nat.strongRecOn generalizing edges with
  | ind length ih =>
    cases edges with
    | nil => simp [firstEdges]
    | cons first edges =>
      have hfilter := ih (edges.filter fun e' => e'.target != first.target).length
        (hlength ▸ Nat.lt_succ_of_le (List.length_filter_le ..)) rfl
      rw [firstEdges_cons, List.mem_cons, hfilter, List.find?_filter]
      by_cases htarget : first.target = e.target
      · have hnone : edges.find? (fun e' => e'.target != first.target && e'.target == e.target)
            = none := by
          simp [htarget]
        rw [List.find?_cons_of_pos (by simpa using htarget)]
        simp only [Bool.decide_and, Bool.decide_eq_true, hnone, Option.some.injEq, reduceCtorEq,
          or_false]
        exact eq_comm
      · have hne : e ≠ first := fun heq => htarget (heq ▸ rfl)
        have hsame : (fun e' : Edge => (e'.target != first.target) && e'.target == e.target)
            = fun e' => e'.target == e.target := by
          funext e'
          by_cases h : e'.target = e.target <;> simp [h, Ne.symm htarget]
        rw [List.find?_cons_of_neg (by simpa using htarget)]
        simp only [Bool.decide_and, Bool.decide_eq_true, hsame, hne, false_or]

/-! ## Numbers -/

/-- Whether every block is numbered with its position. -/
def Numbered (blocks : Array BasicBlock) : Prop :=
  ∀ (i : Nat) (b : BasicBlock), blocks[i]? = some b → b.id = i

/-- The blocks of a body are numbered in code order. -/
theorem numbered_ofCode (code : Code) :
  Numbered (ofCode code).blocks
  := by
  intro i b hb
  obtain ⟨before, run, behind, -, rfl, hmade⟩ := isMade_of_getElem? hb
  exact hmade.id_eq

/-! ## Starts -/

/-- A block starts with an instruction of its run. -/
theorem exists_start {runs : List (List Instruction)} {blocks : List BasicBlock}
    (h : List.Forall₂ IsOf runs blocks) {b : BasicBlock} (hb : b ∈ blocks) :
  ∃ insn ∈ runs.flatten, insn.offset = b.start
  := by
  induction h with
  | nil => cases hb
  | @cons run b' runs blocks hrun _ ih =>
    rcases List.mem_cons.mp hb with rfl | hb
    · obtain ⟨head, tail, rfl, hstart, -⟩ := hrun
      exact ⟨head, by simp, hstart.symm⟩
    · obtain ⟨insn, hinsn, hstart⟩ := ih hb
      exact ⟨insn, by simp [hinsn], hstart⟩

/-- Blocks start in the order of the code. -/
theorem pairwise_start {runs : List (List Instruction)} {blocks : List BasicBlock}
    (h : List.Forall₂ IsOf runs blocks)
    (hoffsets : runs.flatten.Pairwise fun a b => a.offset < b.offset) :
  blocks.Pairwise fun a b => a.start < b.start
  := by
  induction h with
  | nil => exact .nil
  | @cons run b runs blocks hrun hruns ih =>
    rw [List.flatten_cons, List.pairwise_append] at hoffsets
    obtain ⟨-, hback, hlt⟩ := hoffsets
    refine .cons ?_ (ih hback)
    intro b' hb'
    obtain ⟨head, tail, rfl, hstart, -⟩ := hrun
    obtain ⟨insn, hinsn, hstart'⟩ := exists_start hruns hb'
    rw [hstart, ← hstart']
    apply hlt head List.mem_cons_self insn hinsn

/-- The instructions of a code array stand in order. -/
theorem pairwise_offset {start limit : Nat} {insns : List Instruction}
    (h : CodeArray.Tiles start insns limit) :
  insns.Pairwise fun a b => a.offset < b.offset
  := h.pairwise.imp fun hle => (CodeArray.offset_lt_limit _).trans_le hle

theorem ascending_start {code : Code} {limit : Nat}
    (h : CodeArray.Tiles 0 code.instructions limit) :
  Search.Ascending BasicBlock.start (ofCode code).blocks
  := by
  apply pairwise_start (forall₂_isOf code)
  rw [flatten_codeRuns]
  apply pairwise_offset h

/-- The block at an offset is the one that starts there. -/
theorem blockAt?_eq_some {code : Code} {limit : Nat}
    (h : CodeArray.Tiles 0 code.instructions limit) {offset id : Nat} :
  (ofCode code).blockAt? offset = some id
    ↔ ∃ b, (ofCode code).blocks[id]? = some b ∧ b.start = offset
  := Search.find?_eq_some (ascending_start h)

end FlowGraph

end JvmCoverage
