import JvmCoverage.Proofs.Plan
import JvmCoverage.Proofs.Runs

/-!
# Edges are the possible transfers of control

From the last instruction of a block control goes to its jump targets and, if it falls through, to
the next block; from every instruction of the block it goes to the handlers whose range the
instruction lies in (`FlowGraph.IsLinked`).  The edges of a block lead to these blocks and to no
others, each of them once, and the kind of an edge is the first of those ways in which control gets
there (`FlowGraph.isLinked_of_read`).
-/

namespace JvmCoverage

namespace FlowGraph

/-! ## The first edges -/

/-- No two of the first edges lead to the same block. -/
theorem nodup_firstEdges (edges : List Edge) :
  ((firstEdges edges).map Edge.target).Nodup
  := by
  induction hlength : edges.length using Nat.strongRecOn generalizing edges with
  | ind length ih =>
    cases edges with
    | nil => exact .nil
    | cons first edges =>
      rw [firstEdges_cons, List.map_cons, List.nodup_cons]
      constructor
      · rw [List.mem_map]
        rintro ⟨e, he, htarget⟩
        have hmem := List.mem_of_find?_eq_some (mem_firstEdges.mp he)
        simp [htarget] at hmem
      · exact ih _ (hlength ▸ Nat.lt_succ_of_le (List.length_filter_le ..)) _ rfl

theorem find?_map_edge (kind : EdgeKind) (targets : List Nat) (target : Nat) :
  (targets.map fun target => (⟨target, kind⟩ : Edge)).find? (·.target == target)
    = if target ∈ targets then some ⟨target, kind⟩ else none
  := by
  induction targets with
  | nil => rfl
  | cons head targets ih =>
    rw [List.map_cons, List.find?_cons]
    by_cases htarget : head = target
    · simp [htarget]
    · simp [beq_false_of_ne htarget, Ne.symm htarget, ih]

/-- The first edges lead to all blocks that edges lead to, and an edge to a block has the first
kind of those to it. -/
theorem mem_firstEdges_kinds {jumps falls raises : List Nat} {e : Edge} :
  e ∈ firstEdges (jumps.map (⟨·, .branchTaken⟩) ++ falls.map (⟨·, .fallthrough⟩)
      ++ raises.map (⟨·, .exception⟩))
    ↔ e.target ∈ jumps ∧ e.kind = .branchTaken
      ∨ e.target ∉ jumps ∧ e.target ∈ falls ∧ e.kind = .fallthrough
      ∨ e.target ∉ jumps ∧ e.target ∉ falls ∧ e.target ∈ raises ∧ e.kind = .exception
  := by
  obtain ⟨target, kind⟩ := e
  rw [mem_firstEdges, List.find?_append, List.find?_append, find?_map_edge, find?_map_edge,
    find?_map_edge]
  by_cases hjump : target ∈ jumps <;> by_cases hfall : target ∈ falls
    <;> by_cases hraise : target ∈ raises <;> simp [hjump, hfall, hraise, eq_comm]

/-! ## Transfers -/

/-- Whether block `id` starts at `offset`. -/
def StartsAt (g : FlowGraph) (id offset : Nat) : Prop :=
  ∃ b, g.blocks[id]? = some b ∧ b.start = offset

/-- Whether control can jump from `last` to block `id`. -/
def JumpsTo (g : FlowGraph) (last : Instruction) (id : Nat) : Prop :=
  ∃ target ∈ last.op.targets, g.StartsAt id target

/-- Whether control can fall through `last`, at the end of block `previous`, to block `id`. -/
def FallsTo (g : FlowGraph) (previous : Nat) (last : Instruction) (id : Nat) : Prop :=
  last.op.fallsThrough ∧ id = previous + 1 ∧ id < g.blocks.size

/-- Whether an exception in one of the instructions takes control to block `id`. -/
def RaisesTo (g : FlowGraph) (code : Code) (instructions : List Instruction) (id : Nat) : Prop :=
  ∃ h ∈ code.handlers, (∃ insn ∈ instructions, h.covers insn.offset) ∧ g.StartsAt id h.handler

/-- Whether the edges of block `id` are the possible transfers of control from it. -/
structure IsLinked (g : FlowGraph) (code : Code) (id : Nat) (b : BasicBlock) : Prop where
  last_eq : (b.instructionsIn code).getLast? = some b.last
  /-- No two edges lead to the same block. -/
  nodup : (b.successors.map Edge.target).Nodup
  targets : ∀ target, (∃ e ∈ b.successors, e.target = target)
    ↔ g.JumpsTo b.last target ∨ g.FallsTo id b.last target
      ∨ g.RaisesTo code (b.instructionsIn code) target
  branchTaken : ∀ e ∈ b.successors, e.kind = .branchTaken ↔ g.JumpsTo b.last e.target
  fallthrough : ∀ e ∈ b.successors,
    e.kind = .fallthrough ↔ ¬ g.JumpsTo b.last e.target ∧ g.FallsTo id b.last e.target
  exception : ∀ e ∈ b.successors,
    e.kind = .exception ↔ ¬ g.JumpsTo b.last e.target ∧ ¬ g.FallsTo id b.last e.target
  /-- There is a block at every jump target and at every entry of a handler. -/
  lands : ∀ target ∈ b.last.op.targets, ∃ id', g.StartsAt id' target
  handles : ∀ h ∈ code.handlers, ∃ id', g.StartsAt id' h.handler

variable {code : Code} {b : BasicBlock} {id : Nat}

theorem successors_eq (hb : (ofCode code).blocks[id]? = some b) :
  b.successors = firstEdges (jumpEdges (ofCode code).blockAt? b
    ++ fallthroughEdge (ofCode code).blocks.size b
    ++ exceptionEdges (handlerBlocks (ofCode code).blockAt? code) b)
  := by
  have hfind : (ofCode code).blockAt? = Search.find? BasicBlock.start (outline code) := by
    funext offset
    apply Search.find?_eq_of_map_eq
    rw [ofCode, Array.map_map]
    rfl
  rw [hfind]
  simp only [ofCode, Array.getElem?_map, Option.map_eq_some_iff] at hb
  obtain ⟨b, -, rfl⟩ := hb
  rw [ofCode, Array.size_map]
  rfl

/-- The range of a handler meets a block when one of its instructions lies in the range. -/
theorem meets_iff {pool : ConstantPool} (h : code.WellFormed pool) (hb : b ∈ (ofCode code).blocks)
    {handler : ExceptionHandler} (hmem : handler ∈ code.handlers) :
  b.meets handler.start handler.limit
    ↔ ∃ insn ∈ b.instructionsIn code, handler.covers insn.offset
  := by
  have htiles := h.instructions.tiles
  have hblock := (tiles_instructionsIn htiles hb).1
  obtain ⟨-, hlt, hstart, -⟩ := Code.handlerFits_boundaries.mp (h.handlers handler hmem)
  simp only [BasicBlock.meets, ExceptionHandler.covers, Bool.and_eq_true, decide_eq_true_eq]
  constructor
  · rintro ⟨hbefore, hbehind⟩
    rcases Nat.le_total handler.start b.start with hle | hle
    · obtain ⟨insn, hinsn, hoffset⟩ := exists_mem_start hb
      refine ⟨insn, hinsn, ?_⟩
      omega
    · obtain ⟨insn, hinsn, hoffset⟩ := List.mem_map.mp hstart
      refine ⟨insn, (mem_instructionsIn_iff htiles hb hinsn).mpr ?_, ?_⟩ <;> omega
  · rintro ⟨insn, hinsn, hle, hlt'⟩
    obtain ⟨hlow, hhigh⟩ := hblock.bounds hinsn
    have hpos := CodeArray.offset_lt_limit insn
    omega

/-- The blocks that edges of jumps lead to. -/
theorem jumpEdges_eq (htiles : CodeArray.Tiles 0 code.instructions code.length) :
  ∃ jumps : List Nat,
    jumpEdges (ofCode code).blockAt? b = jumps.map (⟨·, .branchTaken⟩)
      ∧ ∀ target, target ∈ jumps ↔ (ofCode code).JumpsTo b.last target
  := by
  refine ⟨_, rfl, ?_⟩
  intro target
  simp only [List.mem_filterMap, blockAt?_eq_some htiles, JumpsTo, StartsAt]

/-- The block that the edge of a fallthrough leads to. -/
theorem fallthroughEdge_eq (hb : (ofCode code).blocks[id]? = some b) :
  ∃ falls : List Nat,
    fallthroughEdge (ofCode code).blocks.size b = falls.map (⟨·, .fallthrough⟩)
      ∧ ∀ target, target ∈ falls ↔ (ofCode code).FallsTo id b.last target
  := by
  rw [fallthroughEdge, numbered_ofCode code id b hb]
  split
  · rename_i hfalls
    rw [Bool.and_eq_true, decide_eq_true_eq] at hfalls
    refine ⟨[id + 1], rfl, ?_⟩
    intro target
    rw [List.mem_singleton, FallsTo]
    constructor
    · rintro rfl
      exact ⟨hfalls.1, rfl, hfalls.2⟩
    · exact fun htarget => htarget.2.1
  · rename_i hfalls
    refine ⟨[], rfl, ?_⟩
    intro target
    rw [FallsTo]
    constructor
    · exact fun htarget => absurd htarget List.not_mem_nil
    · rintro ⟨hfall, rfl, hlt⟩
      exact absurd (by simp [hfall, hlt]) hfalls

/-- The blocks that edges to handlers lead to. -/
theorem exceptionEdges_eq {pool : ConstantPool} (h : code.WellFormed pool)
    (hb : b ∈ (ofCode code).blocks) :
  ∃ raises : List Nat,
    exceptionEdges (handlerBlocks (ofCode code).blockAt? code) b = raises.map (⟨·, .exception⟩)
      ∧ ∀ target, target ∈ raises
        ↔ (ofCode code).RaisesTo code (b.instructionsIn code) target
  := by
  refine ⟨((handlerBlocks (ofCode code).blockAt? code).filter fun p =>
    b.meets p.1.start p.1.limit).map Prod.snd, by rw [exceptionEdges, List.map_map]; rfl, ?_⟩
  intro target
  simp only [handlerBlocks, List.mem_map, List.mem_filter, List.mem_filterMap,
    Option.map_eq_some_iff, blockAt?_eq_some h.instructions.tiles, RaisesTo, StartsAt]
  constructor
  · rintro ⟨_, ⟨⟨handler, hmem, _, hstart, rfl⟩, hmeets⟩, rfl⟩
    exact ⟨handler, hmem, (meets_iff h hb hmem).mp hmeets, hstart⟩
  · rintro ⟨handler, hmem, hcovers, hstart⟩
    exact ⟨(handler, target), ⟨⟨handler, hmem, target, hstart, rfl⟩,
      (meets_iff h hb hmem).mpr hcovers⟩, rfl⟩

/-- The edges of a block are jumps, the fallthrough and exceptions, in this order. -/
theorem mem_successors {pool : ConstantPool} (h : code.WellFormed pool)
    (hb : (ofCode code).blocks[id]? = some b) {e : Edge} :
  e ∈ b.successors
    ↔ (ofCode code).JumpsTo b.last e.target ∧ e.kind = .branchTaken
      ∨ ¬ (ofCode code).JumpsTo b.last e.target ∧ (ofCode code).FallsTo id b.last e.target
        ∧ e.kind = .fallthrough
      ∨ ¬ (ofCode code).JumpsTo b.last e.target ∧ ¬ (ofCode code).FallsTo id b.last e.target
        ∧ (ofCode code).RaisesTo code (b.instructionsIn code) e.target ∧ e.kind = .exception
  := by
  obtain ⟨jumps, hjumps, hjumpsTo⟩ := jumpEdges_eq (b := b) h.instructions.tiles
  obtain ⟨falls, hfalls, hfallsTo⟩ := fallthroughEdge_eq hb
  obtain ⟨raises, hraises, hraisesTo⟩ := exceptionEdges_eq h (Array.mem_of_getElem? hb)
  rw [successors_eq hb, hjumps, hfalls, hraises, mem_firstEdges_kinds, hjumpsTo, hfallsTo,
    hraisesTo]

/-- The kind of an edge is the first way in which control gets to its target. -/
theorem kind_iff {pool : ConstantPool} (h : code.WellFormed pool)
    (hb : (ofCode code).blocks[id]? = some b) {e : Edge} (he : e ∈ b.successors) :
  (e.kind = .branchTaken ↔ (ofCode code).JumpsTo b.last e.target)
    ∧ (e.kind = .fallthrough
      ↔ ¬ (ofCode code).JumpsTo b.last e.target ∧ (ofCode code).FallsTo id b.last e.target)
    ∧ (e.kind = .exception
      ↔ ¬ (ofCode code).JumpsTo b.last e.target ∧ ¬ (ofCode code).FallsTo id b.last e.target)
  := by
  rcases (mem_successors h hb).mp he
    with ⟨hjump, hkind⟩ | ⟨hjump, hfall, hkind⟩ | ⟨hjump, hfall, -, hkind⟩
  · simp [hjump, hkind]
  · simp [hjump, hfall, hkind]
  · simp [hjump, hfall, hkind]

/-- The edges of the blocks of a body that could be read are the possible transfers of control. -/
theorem isLinked_of_read {pool : ConstantPool} {info : List UInt8} {code : Code}
    (h : Code.read pool info = .ok code) {id : Nat} {b : BasicBlock}
    (hb : (ofCode code).blocks[id]? = some b) :
  (ofCode code).IsLinked code id b
  := by
  have hwf := Code.wellFormed_of_read h
  obtain ⟨-, -, -, -, hlast⟩ := exists_head_instructionsIn (Array.mem_of_getElem? hb)
  have hstarts {offset : Nat} (hoffset : code.StartsBlock offset) :
      ∃ id, (ofCode code).StartsAt id offset := by
    obtain ⟨b, hb, hstart⟩ := (exists_start_iff hwf).mpr hoffset
    obtain ⟨id, hid⟩ := Array.mem_iff_getElem?.mp hb
    exact ⟨id, b, hid, hstart⟩
  refine
    { last_eq := hlast, nodup := ?_, targets := ?_,
      branchTaken := fun e he => (kind_iff hwf hb he).1,
      fallthrough := fun e he => (kind_iff hwf hb he).2.1,
      exception := fun e he => (kind_iff hwf hb he).2.2, lands := ?_,
      handles := fun handler hmem => hstarts (.handler hmem) }
  · rw [successors_eq hb]
    apply nodup_firstEdges
  · intro target
    constructor
    · rintro ⟨e, he, rfl⟩
      rcases (mem_successors hwf hb).mp he with ⟨hjump, -⟩ | ⟨-, hfall, -⟩ | ⟨-, -, hraise, -⟩
      · exact .inl hjump
      · exact .inr (.inl hfall)
      · exact .inr (.inr hraise)
    · intro htarget
      have hmem {kind : EdgeKind} := mem_successors hwf hb (e := ⟨target, kind⟩)
      by_cases hjump : (ofCode code).JumpsTo b.last target
      · exact ⟨⟨target, .branchTaken⟩, hmem.mpr (.inl ⟨hjump, rfl⟩), rfl⟩
      by_cases hfall : (ofCode code).FallsTo id b.last target
      · exact ⟨⟨target, .fallthrough⟩, hmem.mpr (.inr (.inl ⟨hjump, hfall, rfl⟩)), rfl⟩
      have hraise := (htarget.resolve_left hjump).resolve_left hfall
      exact ⟨⟨target, .exception⟩, hmem.mpr (.inr (.inr ⟨hjump, hfall, hraise, rfl⟩)), rfl⟩
  · intro target htarget
    have hmem := BasicBlock.mem_of_mem_instructionsIn (List.mem_of_getLast? hlast)
    exact hstarts (.target hmem htarget)

theorem isLinked_of_read_jumpBody :
  Code.read ClassFile.jumpClass.pool ClassFile.jumpBody.form = .ok ClassFile.jumpBody
    ∧ ∃ b, (ofCode ClassFile.jumpBody).blocks[0]? = some b
      ∧ (ofCode ClassFile.jumpBody).IsLinked ClassFile.jumpBody 0 b
  := by
  have hb : (ofCode ClassFile.jumpBody).blocks[0]?
      = (ClassFile.jumpBlocks [⟨1, .branchTaken⟩])[0]? := by
    rw [ClassFile.ofCode_jumpBody]
  exact ⟨ClassFile.read_form_jumpBody, _, hb, isLinked_of_read ClassFile.read_form_jumpBody hb⟩

end FlowGraph

end JvmCoverage
