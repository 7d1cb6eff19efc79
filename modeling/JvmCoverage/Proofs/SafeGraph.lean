import JvmCoverage.Machine.Graph
import JvmCoverage.Proofs.Blocks
import JvmCoverage.Proofs.SafeReading

/-!
# Finding blocks does not fault

On the instructions of a body that could be read the walk over the instructions finds the runs of
which the blocks are made, each at the place behind the one before (`PlacedFrom`).  So the blocks
and the instructions that are looked up by place are there, and the blocks found are those of the
control-flow graph (`graph_eq`).
-/

namespace JvmCoverage.Machine

variable {m : Type → Type} [Monad m] [Faulting m] [LawfulMonad m]

/-! ## Sizes -/

theorem casesSize_eq {cases : SwitchCases} (h : cases.size < 2 ^ 32) :
  (casesSize cases : m Nat) = pure cases.size
  := by
  cases cases with
  | table low targets =>
    rw [SwitchCases.size] at h
    rw [casesSize, cast_eq (by omega), mul_eq (by omega), pure_bind, add_eq h, SwitchCases.size]
  | lookup pairs =>
    rw [SwitchCases.size] at h
    rw [casesSize, cast_eq (by omega), mul_eq (by omega), pure_bind, add_eq h, SwitchCases.size]

theorem size_eq {offset : Nat} {op : Operation} (hoffset : offset + 1 < 2 ^ 32)
    (h : op.size offset < 2 ^ 32) :
  (size offset op : m Nat) = pure (op.size offset)
  := by
  cases op with
  | plain opcode operands =>
    rw [Operation.size] at h
    rw [size, cast_eq (by omega), add_eq h, Operation.size]
  | switch opcode default cases =>
    rw [Operation.size] at h
    rw [size, casesSize_eq (by omega), pure_bind, switchPadding_eq hoffset, pure_bind,
      add_eq (by omega), pure_bind, add_eq h, Operation.size]
  | invoke opcode index count => rfl
  | branch opcode target => rfl
  | methodReturn opcode => rfl
  | raise => rfl
  | subroutineReturn index wide => rfl

theorem limit_eq {insn : Instruction} (h : insn.limit < 2 ^ 32) :
  (limit insn : m Nat) = pure insn.limit
  := by
  have hlt := CodeArray.offset_lt_limit insn
  rw [Instruction.limit] at h hlt
  rw [limit, size_eq (by omega) (by omega), pure_bind, add_eq h, Instruction.limit]

/-- The instructions of a body lie one behind the other in the bytes of a code array. -/
structure IsLaid (code : Code) : Prop where
  tiles : CodeArray.Tiles 0 code.instructions code.length
  length_le : code.length ≤ CodeArray.maxLength

theorem isLaid_of_wellFormed {pool : ConstantPool} {code : Code} (h : code.WellFormed pool) :
  IsLaid code
  := ⟨h.instructions.tiles, h.instructions.le⟩

namespace IsLaid

variable {code : Code}

theorem limit_le (h : IsLaid code) {insn : Instruction} (hinsn : insn ∈ code.instructions) :
  insn.limit ≤ 65535
  := (h.tiles.bounds hinsn).2.trans h.length_le

theorem count_le (h : IsLaid code) :
  code.instructions.length ≤ 65535
  := by
  have hle := h.tiles.length_add_le
  have hle' := h.length_le
  rw [CodeArray.maxLength] at hle'
  omega

theorem place_lt (h : IsLaid code) {insn : Instruction} {i : Nat}
    (hi : (insn, i) ∈ code.instructions.zipIdx) :
  i < 65535
  := by
  have hle := h.count_le
  have hlt := (List.mem_zipIdx hi).2.1
  omega

end IsLaid

theorem codeLength_eq {code : Code} (h : IsLaid code) :
  (codeLength code : m Nat) = pure code.length
  := by
  rw [codeLength, Code.length]
  cases hlast : code.instructions.getLast? with
  | none => rfl
  | some insn =>
    have hle := h.limit_le (List.mem_of_getLast? hlast)
    exact limit_eq (by omega)

/-! ## Leaders -/

/-- The offsets at which the instruction in place `i` makes blocks start. -/
def startsAt (instructions : List Instruction) (insn : Instruction) (i : Nat) : List Nat :=
  if insn.op.endsBlock then
    insn.op.targets ++ (instructions[i + 1]?.map Instruction.offset).toList
  else insn.op.targets

theorem mem_startsAt {instructions : List Instruction} {insn : Instruction} {i offset : Nat} :
  offset ∈ startsAt instructions insn i
    ↔ offset ∈ insn.op.targets
      ∨ ∃ next, instructions[i + 1]? = some next ∧ insn.op.endsBlock ∧ next.offset = offset
  := by
  cases hends : insn.op.endsBlock <;> simp [startsAt, hends]

theorem mem_flatten_startsAt {instructions : List Instruction} {offset : Nat} :
  offset ∈ (instructions.zipIdx.map fun p => startsAt instructions p.1 p.2).flatten
    ↔ (∃ insn ∈ instructions, offset ∈ insn.op.targets)
      ∨ offset ∈ FlowGraph.resumptions instructions
  := by
  simp only [List.mem_flatten, List.mem_map, Prod.exists, List.mem_zipIdx_iff_getElem?,
    FlowGraph.mem_resumptions]
  constructor
  · rintro ⟨_, ⟨insn, i, hinsn, rfl⟩, hoffset⟩
    rcases mem_startsAt.mp hoffset with htarget | ⟨next, hnext, hends, rfl⟩
    · exact .inl ⟨insn, List.mem_of_getElem? hinsn, htarget⟩
    · exact .inr ⟨i, insn, next, hinsn, hnext, hends, rfl⟩
  · rintro (⟨insn, hinsn, htarget⟩ | ⟨i, insn, next, hinsn, hnext, hends, rfl⟩)
    · obtain ⟨i, hi⟩ := List.mem_iff_getElem?.mp hinsn
      exact ⟨_, ⟨insn, i, hi, rfl⟩, mem_startsAt.mpr (.inl htarget)⟩
    · exact ⟨_, ⟨insn, i, hinsn, rfl⟩, mem_startsAt.mpr (.inr ⟨next, hnext, hends, rfl⟩)⟩

theorem leaders_eq {code : Code} (h : IsLaid code) (hne : code.instructions ≠ []) :
  ∃ starts, (leaders code : m (List Nat)) = pure starts
    ∧ ∀ offset, offset ∈ starts ↔ offset ∈ FlowGraph.leaders code
  := by
  obtain ⟨head, tail, hinsns⟩ := List.exists_cons_of_ne_nil hne
  have hhead : (item code.instructions 0 : m Instruction) = pure head := item_eq (by simp [hinsns])
  have hstarts : (code.instructions.zipIdx.mapM fun p =>
      leadersAt code.instructions p.1 p.2 : m (List (List Nat)))
        = pure (code.instructions.zipIdx.map fun p => startsAt code.instructions p.1 p.2) := by
    apply mapM_eq
    rintro ⟨insn, i⟩ hi
    have hlt := h.place_lt hi
    rw [leadersAt, startsAt]
    split
    · rw [add_eq (by omega), pure_bind]
    · rfl
  refine ⟨_, by rw [leaders, hhead, pure_bind, hstarts, pure_bind], ?_⟩
  intro offset
  rw [List.mem_append, List.mem_cons, mem_flatten_startsAt, FlowGraph.leaders]
  simp only [List.mem_append, List.mem_flatMap, hinsns, List.head?_cons, Option.map_some,
    Option.toList_some, List.mem_singleton, or_assoc]

/-! ## Lines -/

theorem lineAt?_eq (index : LineIndex) (offset : Nat) :
  (lineAt? index offset : m (Option UInt16)) = pure (index.lineAt? offset)
  := by
  rw [lineAt?, LineIndex.lineAt?]
  cases hlast : Search.lastUpTo? LineEntry.start index.entries offset with
  | none => rfl
  | some i =>
    rw [Search.lastUpTo?] at hlast
    split at hlast
    · rename_i hupto
      cases hlast
      obtain ⟨entry, hentry, -⟩ := Search.isUpTo_iff.mp hupto
      have hitem : (item index.entries.toList _ : m LineEntry) = pure entry :=
        item_eq (by rw [Array.getElem?_toList]; exact hentry)
      simp only [hitem, pure_bind, Option.bind_some, hentry, Option.map_some]
    · cases hlast

theorem linesOf_eq (index : LineIndex) (instructions : List Instruction) :
  (linesOf index instructions : m (List UInt16)) = pure (index.linesOf instructions)
  := by
  rw [linesOf, mapM_eq fun insn _ => lineAt?_eq index insn.offset, pure_bind, LineIndex.linesOf,
    List.reduceOption, List.filterMap_map]
  rfl

/-! ## Blocks -/

/-- The block with what a machine keeps beside it. -/
def Block.of (b : BasicBlock) : Block :=
  { b with limitOffset := b.limit, limitPlace := b.first + b.count }

/-- The blocks have their instructions one behind the other from place `first` on. -/
def PlacedFrom (instructions : List Instruction) : (first : Nat) → List BasicBlock → Prop
  | first, [] => first = instructions.length
  | first, b :: blocks =>
    b.first = first ∧ 0 < b.count ∧ instructions[b.first + b.count - 1]? = some b.last
      ∧ PlacedFrom instructions (first + b.count) blocks

/-- The block that is made of `run` behind `count` others, from place `first` on. -/
def blockOf (index : LineIndex) (count first : Nat) (head : Instruction) (run : List Instruction)
    (last : Instruction) : BasicBlock :=
  { id := count, start := head.offset, first, count := run.length, last,
    lines := index.linesOf run, successors := [] }

section Walk

variable {index : LineIndex} {starts : Std.HashSet Nat} {instructions front back : List Instruction}
  {run : List Instruction} {head last : Instruction} {blocks : List Block}

theorem blockFrom_eq (hinsns : instructions = front ++ run ++ back) (hhead : run.head? = some head)
    (hlast : last.limit < 2 ^ 32) (hcount : instructions.length < 2 ^ 32)
    (hblocks : blocks.length < 2 ^ 32) {i : Nat} (hi : i + 1 = front.length + run.length) :
  (blockFrom index instructions blocks.length front.length last i : m Block)
    = pure (.of (blockOf index blocks.length front.length head run last))
  := by
  have hlength : instructions.length = front.length + run.length + back.length := by
    simp [hinsns, Nat.add_assoc]
  have hitem : (item instructions front.length : m Instruction) = pure head := by
    apply item_eq
    rw [hinsns, List.append_assoc, List.getElem?_append_right le_rfl, Nat.sub_self,
      ← List.head?_eq_getElem?, List.head?_append, hhead]
    rfl
  have hslice : (instructions.take (i + 1)).drop front.length = run := by
    rw [hinsns, hi, ← List.length_append, List.take_left, List.drop_left]
  rw [blockFrom, add_eq (by omega), pure_bind, slice_eq (by omega) (by omega), pure_bind, hslice,
    linesOf_eq, pure_bind, hitem, pure_bind, limit_eq hlast, pure_bind, cast_eq hblocks]
  simp [Block.of, blockOf, BasicBlock.limit, hi]

/-- Inside of a run nothing is found. -/
theorem outlineNext_inside {insn next : Instruction} {i : Nat} (hi : i + 1 < 2 ^ 64)
    (hnext : instructions[i + 1]? = some next) (hstart : starts.contains next.offset = false)
    (state : List Block × Nat) :
  (outlineNext index starts instructions state insn i : m (List Block × Nat)) = pure state
  := by
  rw [outlineNext, add_eq hi, pure_bind, hnext, if_neg (by simp [hstart])]

variable (index starts blocks) in
/-- A walk over a run finds the block that is made of it. -/
theorem foldlM_run (hinsns : instructions = front ++ run ++ back) (hcount : instructions.length < 2 ^ 32)
    (hhead : run.head? = some head) (hlast : run.getLast? = some last) (hlimit : last.limit < 2 ^ 32)
    (hblocks : blocks.length < 2 ^ 32)
    (hinside : run.IsChain fun _ next => !starts.contains next.offset)
    (hback : ∀ next ∈ back.head?, starts.contains next.offset) :
  ((run.zipIdx front.length).foldlM
      (fun state p => outlineNext index starts instructions state p.1 p.2)
      (blocks, front.length) : m (List Block × Nat))
    = pure (blocks ++ [.of (blockOf index blocks.length front.length head run last)],
        front.length + run.length)
  := by
  obtain ⟨init, rfl⟩ : ∃ init, run = init ++ [last] :=
    ⟨run.dropLast, (List.dropLast_append_getLast? last hlast).symm⟩
  have hlength : (init ++ [last]).length = init.length + 1 := by simp
  have hinit : ∀ state : List Block × Nat, ∀ p ∈ init.zipIdx front.length,
      (outlineNext index starts instructions state p.1 p.2 : m (List Block × Nat)) = pure state := by
    rintro state ⟨insn, i⟩ hi
    obtain ⟨hge, hlt, -⟩ := List.mem_zipIdx hi
    obtain ⟨k, rfl⟩ := Nat.exists_eq_add_of_le hge
    have hk : k + 1 < (init ++ [last]).length := by rw [hlength]; omega
    have hnext : instructions[front.length + k + 1]? = some (init ++ [last])[k + 1] := by
      rw [hinsns, List.append_assoc, Nat.add_assoc, List.getElem?_append_right (by omega),
        Nat.add_sub_cancel_left, List.getElem?_append_left hk, List.getElem?_eq_getElem hk]
    have hstart := List.isChain_iff_getElem.mp hinside k hk
    have hle := (List.getElem?_eq_some_iff.mp hnext).1
    exact outlineNext_inside (by omega) hnext (by simpa using hstart) state
  have hle : instructions.length = front.length + (init.length + 1) + back.length := by
    simp only [hinsns, List.length_append, hlength]
  have hbehind : instructions[front.length + init.length + 1]? = back.head? := by
    have hfront : (front ++ (init ++ [last])).length = front.length + init.length + 1 := by
      rw [List.length_append, hlength, Nat.add_assoc]
    rw [hinsns, List.getElem?_append_right hfront.le, hfront, Nat.sub_self, List.head?_eq_getElem?]
  rw [List.zipIdx_append, List.foldlM_append, foldlM_eq hinit, pure_bind, List.foldl_fixed]
  simp only [List.zipIdx_cons, List.zipIdx_nil, List.foldlM_cons, List.foldlM_nil]
  rw [outlineNext, add_eq (by omega), pure_bind, hbehind]
  have htrue : (back.head?.map fun insn => starts.contains insn.offset).getD true := by
    cases hb : back.head? with
    | none => rfl
    | some next => exact hback next hb
  rw [if_pos htrue, blockFrom_eq hinsns hhead hlimit hcount hblocks (by rw [hlength]; omega),
    pure_bind, pure_bind]
  simp [Nat.add_assoc]

/-- Whether the instructions fit a body: there are fewer than `2 ^ 32` of them, and they end at
offsets of 32 bits. -/
def AreShort (instructions : List Instruction) : Prop :=
  instructions.length < 2 ^ 32 ∧ ∀ insn ∈ instructions, insn.limit < 2 ^ 32

/-- The block of a run stands behind the others. -/
theorem pushRun_eq {blocks : Array BasicBlock} (hhead : run.head? = some head)
    (hlast : run.getLast? = some last) :
  FlowGraph.pushRun index blocks run
    = blocks.push (blockOf index blocks.size (FlowGraph.nextPosition blocks) head run last)
  := by
  simp [FlowGraph.pushRun, hhead, hlast, blockOf]

/-- The instruction behind a run heads the next one. -/
theorem contains_of_head?_flatten {runs : List (List Instruction)} (hne : ∀ run ∈ runs, run ≠ [])
    (hheads : (run :: runs).IsChain fun _ run => ∀ next ∈ run.head?, starts.contains next.offset) :
  ∀ next ∈ runs.flatten.head?, starts.contains next.offset
  := by
  cases runs with
  | nil => simp
  | cons run' runs =>
    obtain ⟨hstart, -⟩ := List.isChain_cons_cons.mp hheads
    obtain ⟨head', tail', hrun'⟩ := List.exists_cons_of_ne_nil (hne run' List.mem_cons_self)
    simpa [hrun'] using hstart

variable (index starts) in
/-- A walk over runs finds a block for each of them.  Only the first run may start at an
instruction that is not in `starts`. -/
theorem foldlM_runs {runs : List (List Instruction)} (hshort : AreShort instructions)
    (blocks : Array BasicBlock) (front : List Instruction)
    (hinsns : instructions = front ++ runs.flatten)
    (hfirst : FlowGraph.nextPosition blocks = front.length) (hblocks : blocks.size ≤ front.length)
    (hruns : ∀ run ∈ runs, run ≠ [] ∧ run.IsChain fun _ next => !starts.contains next.offset)
    (hheads : runs.IsChain fun _ run => ∀ next ∈ run.head?, starts.contains next.offset) :
  ∃ new, (runs.foldl (FlowGraph.pushRun index) blocks).toList = blocks.toList ++ new
    ∧ PlacedFrom instructions front.length new ∧ (∀ b ∈ new, b.successors = [])
    ∧ ((runs.flatten.zipIdx front.length).foldlM
        (fun state p => outlineNext index starts instructions state p.1 p.2)
        (blocks.toList.map Block.of, front.length) : m (List Block × Nat))
      = pure ((blocks.toList ++ new).map Block.of, instructions.length)
  := by
  induction runs generalizing blocks front with
  | nil =>
    obtain rfl : instructions = front := by simpa using hinsns
    exact ⟨[], by simp, rfl, by simp, by simp⟩
  | cons run runs ih =>
    obtain ⟨⟨hne, hinside⟩, hruns⟩ := List.forall_mem_cons.mp hruns
    obtain ⟨head, tail, hrun⟩ := List.exists_cons_of_ne_nil hne
    have hhead : run.head? = some head := by rw [hrun, List.head?_cons]
    have hlast := List.getLast?_eq_some_getLast hne
    have hmem : run.getLast hne ∈ instructions := by
      simp [hinsns]
    have hlength : instructions.length = front.length + (run.length + runs.flatten.length) := by
      simp [hinsns]
    have hpos : 0 < run.length := List.length_pos_of_ne_nil hne
    have hback := contains_of_head?_flatten (fun run hrun => (hruns run hrun).1) hheads
    have hwalk := foldlM_run (m := m) index starts (blocks.toList.map Block.of)
      (by simpa using hinsns) hshort.1 hhead hlast (hshort.2 _ hmem)
      (by have := hshort.1; simp; omega) hinside hback
    have hpush : FlowGraph.pushRun index blocks run
        = blocks.push (blockOf index blocks.size front.length head run (run.getLast hne)) :=
      hfirst ▸ pushRun_eq hhead hlast
    obtain ⟨new, hnew, hplaced, hsuccessors, hrest⟩ := ih
      (blocks.push (blockOf index blocks.size front.length head run (run.getLast hne)))
      (front ++ run) (by simpa using hinsns) (by simp [FlowGraph.nextPosition, blockOf])
      (by simp; omega) hruns hheads.of_cons
    refine ⟨blockOf index blocks.size front.length head run (run.getLast hne) :: new, ?_, ?_, ?_, ?_⟩
    · rw [List.foldl_cons, hpush, hnew]
      simp
    · refine ⟨rfl, hpos, ?_, ?_⟩
      · change instructions[front.length + run.length - 1]? = some (run.getLast hne)
        have hplace : front.length + run.length - 1 - front.length = run.length - 1 := by omega
        rw [hinsns, List.flatten_cons, List.getElem?_append_right (by omega), hplace,
          List.getElem?_append_left (by omega), ← hlast, List.getLast?_eq_getElem?]
      · simpa [blockOf] using hplaced
    · exact List.forall_mem_cons.mpr ⟨rfl, hsuccessors⟩
    · rw [List.flatten_cons, List.zipIdx_append, List.foldlM_append, hwalk, pure_bind]
      simpa using hrest

end Walk

theorem IsLaid.areShort {code : Code} (h : IsLaid code) :
  AreShort code.instructions
  := by
  have hle := h.count_le
  refine ⟨by omega, ?_⟩
  intro insn hinsn
  have hle' := h.limit_le hinsn
  omega

/-- The walk over a body finds the blocks of its outline. -/
theorem outline_eq {code : Code} (h : IsLaid code) (hne : code.instructions ≠ []) :
  (outline code : m (List Block)) = pure ((FlowGraph.outline code).toList.map Block.of)
    ∧ PlacedFrom code.instructions 0 (FlowGraph.outline code).toList
    ∧ ∀ b ∈ (FlowGraph.outline code).toList, b.successors = []
  := by
  obtain ⟨starts, hleaders, hmem⟩ := leaders_eq (m := m) h hne
  have hstarts (offset : Nat) : (Std.HashSet.ofList starts).contains offset
      = (Std.HashSet.ofList (FlowGraph.leaders code)).contains offset := by
    simp only [Std.HashSet.contains_ofList, List.contains_eq_mem, hmem]
  have hruns : FlowGraph.codeRuns code
      = code.instructions.splitBy fun _ next => !(Std.HashSet.ofList starts).contains next.offset := by
    simp only [FlowGraph.codeRuns, FlowGraph.runs, hstarts]
  obtain ⟨new, hnew, hplaced, hsuccessors, hwalk⟩ := foldlM_runs (m := m)
    (.ofCode code) (.ofList starts) h.areShort #[] []
    (by rw [FlowGraph.flatten_codeRuns, List.nil_append]) rfl (by simp)
    (by
      intro run hrun
      refine ⟨FlowGraph.ne_nil_of_mem_codeRuns hrun, ?_⟩
      rw [hruns] at hrun
      exact List.isChain_of_mem_splitBy hrun)
    (by
      rw [hruns]
      apply (List.isChain_getLast_head_splitBy _ _).imp
      rintro _ run ⟨-, hrun, hstart⟩ next hnext
      rw [List.head?_eq_some_head hrun] at hnext
      cases hnext
      simpa using hstart)
  have houtline : (FlowGraph.outline code).toList = new := by
    simpa [FlowGraph.outline, FlowGraph.codeRuns] using hnew
  rw [houtline]
  refine ⟨?_, hplaced, hsuccessors⟩
  simp only [FlowGraph.flatten_codeRuns, List.length_nil, List.map_nil, List.nil_append] at hwalk
  rw [outline, hleaders, pure_bind, hwalk, pure_bind]

/-! ## Edges -/

namespace Block

/-- What blocks are looked up by. -/
def key (b : Block) : Nat × Nat := (b.start, b.id)

@[simp]
theorem key_addEdge (b : Block) (edge : Edge) :
  (b.addEdge edge).key = b.key
  := by
  unfold addEdge
  split <;> rfl

@[simp]
theorem key_foldl_addEdge (b : Block) (edges : List Edge) :
  (edges.foldl addEdge b).key = b.key
  := by
  induction edges generalizing b with
  | nil => rfl
  | cons edge edges ih => rw [List.foldl_cons, ih, key_addEdge]

end Block

/-- The blocks of an outline with other successors. -/
def HasKeys (outline : Array BasicBlock) (blocks : List Block) : Prop :=
  blocks.map Block.key = outline.toList.map fun b => (b.start, b.id)

theorem blockAt?_eq {outline : Array BasicBlock} (hnumbered : FlowGraph.Numbered outline)
    {blocks : List Block} (hkeys : HasKeys outline blocks) (offset : Nat) :
  (blockAt? blocks offset : m (Option Nat))
    = pure (Search.find? BasicBlock.start outline offset)
  := by
  have hstarts : blocks.toArray.map (fun b => b.start) = outline.map BasicBlock.start := by
    apply Array.toList_inj.mp
    simpa [Block.key, Function.comp_def] using congrArg (List.map Prod.fst) hkeys
  rw [blockAt?, Search.find?_eq_of_map_eq hstarts]
  cases hfind : Search.find? BasicBlock.start outline offset with
  | none => rfl
  | some i =>
    obtain ⟨-, hi⟩ := Option.filter_eq_some_iff.mp hfind
    cases hb : outline[i]? with
    | none => simp [hb] at hi
    | some b =>
      have hkey := congrArg (·[i]?) hkeys
      simp only [List.getElem?_map, Array.getElem?_toList, hb, Option.map_some,
        Option.map_eq_some_iff] at hkey
      obtain ⟨b', hb', hkey⟩ := hkey
      have hid : b'.id = i := (Prod.ext_iff.mp hkey).2.trans (hnumbered i b hb)
      simp only [item_eq hb', pure_bind, hid]

theorem firstEdges_eq (edges : List Edge) (b : Block) (hb : b.successors = []) :
  edges.foldl Block.addEdge b = { b with successors := FlowGraph.firstEdges edges }
  := by
  suffices h : ∀ (done : List Edge) (b : Block), b.successors = done.reverse →
      edges.foldl Block.addEdge b
        = { b with successors := List.eraseDupsBy.loop (fun a b => a.target == b.target) edges done }
    from h [] b hb
  induction edges with
  | nil =>
    intro done b hb
    rw [List.foldl_nil, List.eraseDupsBy.loop, ← hb]
  | cons edge edges ih =>
    intro done b hb
    rw [List.foldl_cons, List.eraseDupsBy.loop]
    have hany : (b.successors.any fun e => e.target == edge.target)
        = done.any fun e => edge.target == e.target := by
      rw [hb, List.any_reverse]
      congr 1
      funext e
      exact Bool.beq_comm
    cases hdone : done.any fun e => edge.target == e.target with
    | true => rw [Block.addEdge, hany, if_pos hdone, ih done b hb]
    | false =>
      rw [Block.addEdge, hany, hdone, if_neg Bool.false_ne_true,
        ih (edge :: done) { b with successors := b.successors ++ [edge] } (by simp [hb])]

theorem HasKeys.getElem? {outline : Array BasicBlock} {blocks : List Block}
    (h : HasKeys outline blocks) (i : Nat) :
  blocks[i]?.map Block.key = outline[i]?.map fun b => (b.start, b.id)
  := by
  simpa using congrArg (·[i]?) h

theorem plainEdges_eq {outline : Array BasicBlock} (hnumbered : FlowGraph.Numbered outline)
    {blocks : List Block} (hkeys : HasKeys outline blocks) {b : BasicBlock}
    (hid : b.id + 1 < 2 ^ 64) :
  (plainEdges blocks b.last b.id : m (List Edge))
    = pure (FlowGraph.jumpEdges (Search.find? BasicBlock.start outline) b
        ++ FlowGraph.fallthroughEdge outline.size b)
  := by
  have hnext : (blocks[b.id + 1]?.map fun b => (⟨b.id, .fallthrough⟩ : Edge)).toList
      = if b.id + 1 < outline.size then [⟨b.id + 1, .fallthrough⟩] else [] := by
    have hkey := hkeys.getElem? (b.id + 1)
    split
    · rename_i hlt
      have hb := Array.getElem?_eq_getElem hlt
      rw [hb, Option.map_some, Option.map_eq_some_iff] at hkey
      obtain ⟨b', hb', hkey⟩ := hkey
      have hid' : b'.id = b.id + 1 := (Prod.ext_iff.mp hkey).2.trans (hnumbered _ _ hb)
      rw [hb', Option.map_some, hid', Option.toList_some]
    · rename_i hge
      rw [Array.getElem?_eq_none (by omega), Option.map_none, Option.map_eq_none_iff] at hkey
      rw [hkey, Option.map_none, Option.toList_none]
  have htargets : (b.last.op.targets.mapM (blockAt? blocks) : m (List (Option Nat)))
      = pure (b.last.op.targets.map (Search.find? BasicBlock.start outline)) :=
    mapM_eq fun target _ => blockAt?_eq hnumbered hkeys target
  rw [plainEdges, add_eq hid, pure_bind, htargets, pure_bind, hnext, List.reduceOption,
    List.filterMap_map, FlowGraph.jumpEdges, FlowGraph.fallthroughEdge]
  cases b.last.op.fallsThrough <;> by_cases hlt : b.id + 1 < outline.size <;> simp [hlt]

/-- The edges of a block, those to handlers aside. -/
def plainEdgesOf (outline : Array BasicBlock) (b : BasicBlock) : List Edge :=
  FlowGraph.jumpEdges (Search.find? BasicBlock.start outline) b
    ++ FlowGraph.fallthroughEdge outline.size b

/-- The block with its edges, those to handlers aside. -/
def linked (outline : Array BasicBlock) (b : Block) : Block :=
  (plainEdgesOf outline b.toBasicBlock).foldl Block.addEdge b

theorem hasKeys_map_of (outline : Array BasicBlock) :
  HasKeys outline (outline.toList.map Block.of)
  := by
  rw [HasKeys, List.map_map]
  rfl

theorem foldlM_linkNext {code : Code} {outline : Array BasicBlock}
    (hnumbered : FlowGraph.Numbered outline) (hsize : outline.size < 2 ^ 64)
    (hlast : ∀ b ∈ outline.toList, 0 < b.first + b.count
      ∧ code.instructions[b.first + b.count - 1]? = some b.last) :
  ((List.range (outline.toList.map Block.of).length).foldlM (linkNext code.instructions)
      (outline.toList.map Block.of) : m (List Block))
    = pure ((outline.toList.map Block.of).map (linked outline))
  := by
  apply foldlM_range_eq
  intro front x back hxs
  have hx : (outline.toList.map Block.of)[front.length]? = some x := by
    rw [hxs]
    simp
  simp only [List.getElem?_map, Array.getElem?_toList, Option.map_eq_some_iff] at hx
  obtain ⟨b, hb, rfl⟩ := hx
  have hid := hnumbered _ b hb
  obtain ⟨hlt, -⟩ := Array.getElem?_eq_some_iff.mp hb
  obtain ⟨hpos, hinsn⟩ := hlast b (Array.mem_toList_iff.mpr (Array.mem_of_getElem? hb))
  have hkeys : HasKeys outline (front.map (linked outline) ++ .of b :: back) := by
    have h := hasKeys_map_of outline
    rw [hxs] at h
    simpa [HasKeys, linked, Function.comp_def] using h
  have hlength : (front.map (linked outline)).length = front.length := List.length_map _
  have hplace : (sub (Block.of b).limitPlace 1 : m Nat) = pure (b.first + b.count - 1) := sub_eq hpos
  have hedges : (plainEdges (front.map (linked outline) ++ .of b :: back) b.last front.length
      : m (List Edge)) = pure (plainEdgesOf outline b) := by
    rw [← hid]
    exact plainEdges_eq hnumbered hkeys (by omega)
  rw [linkNext, item_eq (x := .of b) (by simp), pure_bind, hplace, pure_bind, hinsn]
  simp only [hedges, pure_bind]
  rw [update_eq (by simp), List.set_append_right _ _ (by simp), hlength, Nat.sub_self,
    List.set_cons_zero]
  rfl

/-! ## Handlers -/

/-- The block after it has got its edge to the handler `h`, if `h` protects it. -/
def handled (outline : Array BasicBlock) (b : Block) (h : ExceptionHandler) : Block :=
  match Search.find? BasicBlock.start outline h.handler with
  | some target =>
    if b.start < h.limit && h.start < b.limitOffset then b.addEdge ⟨target, .exception⟩ else b
  | none => b

@[simp]
theorem key_handled (outline : Array BasicBlock) (b : Block) (h : ExceptionHandler) :
  (handled outline b h).key = b.key
  := by
  unfold handled
  split
  · split
    · apply Block.key_addEdge
    · rfl
  · rfl

theorem linkHandler_eq {outline : Array BasicBlock} (hnumbered : FlowGraph.Numbered outline)
    {blocks : List Block} (hkeys : HasKeys outline blocks) (h : ExceptionHandler) :
  (linkHandler blocks h : m (List Block)) = pure (blocks.map fun b => handled outline b h)
  := by
  rw [linkHandler, blockAt?_eq hnumbered hkeys, pure_bind]
  unfold handled
  cases Search.find? BasicBlock.start outline h.handler <;> simp

theorem foldlM_linkHandler {outline : Array BasicBlock} (hnumbered : FlowGraph.Numbered outline)
    {blocks : List Block} (hkeys : HasKeys outline blocks) (handlers : List ExceptionHandler) :
  (handlers.foldlM linkHandler blocks : m (List Block))
    = pure (blocks.map fun b => handlers.foldl (handled outline) b)
  := by
  induction handlers generalizing blocks with
  | nil => simp
  | cons h handlers ih =>
    have hkeys' : HasKeys outline (blocks.map fun b => handled outline b h) := by
      rw [HasKeys, List.map_map]
      simpa [HasKeys, Function.comp_def] using hkeys
    rw [List.foldlM_cons, linkHandler_eq hnumbered hkeys, pure_bind, ih hkeys', List.map_map]
    rfl

theorem foldl_handled (code : Code) {outline : Array BasicBlock} {b : BasicBlock}
    (handlers : List ExceptionHandler) (x : Block) (hstart : x.start = b.start)
    (hlimit : x.limitOffset = b.limit) :
  handlers.foldl (handled outline) x
    = (FlowGraph.exceptionEdges (FlowGraph.handlerBlocks (Search.find? BasicBlock.start outline)
        { code with handlers }) b).foldl Block.addEdge x
  := by
  induction handlers generalizing x with
  | nil => rfl
  | cons h handlers ih =>
    have hadd (edge : Edge) :
        (x.addEdge edge).start = b.start ∧ (x.addEdge edge).limitOffset = b.limit := by
      unfold Block.addEdge
      split <;> exact ⟨hstart, hlimit⟩
    rw [List.foldl_cons]
    simp only [FlowGraph.exceptionEdges, FlowGraph.handlerBlocks, List.filterMap_cons] at ih ⊢
    cases hfind : Search.find? BasicBlock.start outline h.handler with
    | none =>
      rw [handled, hfind, ih x hstart hlimit, Option.map_none]
    | some target =>
      rw [handled, hfind]
      simp only [Option.map_some, List.filter_cons, BasicBlock.meets, hstart, hlimit]
      split
      · rw [ih _ (hadd _).1 (hadd _).2, List.map_cons, List.foldl_cons]
        rfl
      · rw [ih x hstart hlimit]
        rfl

/-! ## Graphs -/

theorem PlacedFrom.last {instructions : List Instruction} {first : Nat} {blocks : List BasicBlock}
    (h : PlacedFrom instructions first blocks) :
  ∀ b ∈ blocks, 0 < b.first + b.count ∧ instructions[b.first + b.count - 1]? = some b.last
  := by
  induction blocks generalizing first with
  | nil => simp
  | cons b blocks ih =>
    obtain ⟨-, hcount, hlast, hblocks⟩ := h
    exact List.forall_mem_cons.mpr ⟨⟨by omega, hlast⟩, ih hblocks⟩

theorem PlacedFrom.length_le {instructions : List Instruction} {first : Nat}
    {blocks : List BasicBlock} (h : PlacedFrom instructions first blocks) :
  first + blocks.length ≤ instructions.length
  := by
  induction blocks generalizing first with
  | nil => exact h.le
  | cons b blocks ih =>
    obtain ⟨-, hcount, -, hblocks⟩ := h
    have hle := ih hblocks
    rw [List.length_cons]
    omega

theorem PlacedFrom.map_link {instructions : List Instruction} {first : Nat}
    {blocks : List BasicBlock} (h : PlacedFrom instructions first blocks)
    (blockAt? : Nat → Option Nat) (total : Nat) (handlers : List (ExceptionHandler × Nat)) :
  PlacedFrom instructions first (blocks.map (FlowGraph.link blockAt? total handlers))
  := by
  induction blocks generalizing first with
  | nil => exact h
  | cons b blocks ih =>
    obtain ⟨hfirst, hcount, hlast, hblocks⟩ := h
    exact ⟨hfirst, hcount, hlast, ih hblocks⟩

theorem numbered_outline (code : Code) :
  FlowGraph.Numbered (FlowGraph.outline code)
  := by
  intro i b hb
  obtain ⟨before, run, behind, -, rfl, hmade⟩ := FlowGraph.isMade_of_getElem?_outline hb
  exact hmade.id_eq

/-- The blocks of a body are found without a fault, and have their instructions one behind the
other. -/
theorem graph_eq {code : Code} (h : IsLaid code) (hne : code.instructions ≠ []) :
  (graph code : m (List Block)) = pure ((FlowGraph.ofCode code).blocks.toList.map Block.of)
    ∧ PlacedFrom code.instructions 0 (FlowGraph.ofCode code).blocks.toList
  := by
  obtain ⟨houtline, hplaced, hsuccessors⟩ := outline_eq (m := m) h hne
  have hnumbered := numbered_outline code
  have hsize : (FlowGraph.outline code).size < 2 ^ 64 := by
    have hle := hplaced.length_le
    have hle' := h.count_le
    rw [Array.length_toList] at hle
    omega
  have hkeys : HasKeys (FlowGraph.outline code)
      (((FlowGraph.outline code).toList.map Block.of).map (linked (FlowGraph.outline code))) := by
    have hkeys := hasKeys_map_of (FlowGraph.outline code)
    rw [HasKeys] at hkeys ⊢
    rw [← hkeys, List.map_map]
    apply List.map_congr_left
    simp [linked]
  constructor
  · rw [graph, if_neg (by simpa using hne), houtline, pure_bind,
      foldlM_linkNext hnumbered hsize hplaced.last, pure_bind, foldlM_linkHandler hnumbered hkeys,
      FlowGraph.ofCode, Array.toList_map, List.map_map, List.map_map, List.map_map]
    congr 1
    apply List.map_congr_left
    intro b hb
    have hlinked : (linked (FlowGraph.outline code) (.of b)).start = b.start
        ∧ (linked (FlowGraph.outline code) (.of b)).limitOffset = b.limit := by
      rw [linked, firstEdges_eq _ _ (hsuccessors b hb)]
      exact ⟨rfl, rfl⟩
    simp only [Function.comp_apply]
    rw [foldl_handled code _ _ hlinked.1 hlinked.2, linked, ← List.foldl_append,
      firstEdges_eq _ _ (hsuccessors b hb)]
    rfl
  · rw [FlowGraph.ofCode, Array.toList_map]
    exact hplaced.map_link _ _ _

end JvmCoverage.Machine
