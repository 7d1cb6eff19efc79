import JvmCoverage.Proofs.LineLookup

/-!
# Every line belongs to one probe

Under line granularity the probe of a block accounts for the lines of the block that no block in
front has (`Probe.freshLines`), and a block gets no probe when there are no such lines although it
has some.  So the lines of the probes of a method are the lines of its instructions, each of them
once and at the first block that has it (`ClassPlan.dividesLines_of_read`).
-/

namespace JvmCoverage

/-! ## Lines of instructions and blocks -/

/-- Whether the instruction at `offset` is on `line`, which is the greatest of the lines in
force. -/
def Code.HasLine (code : Code) (offset : Nat) (line : UInt16) : Prop :=
  ∃ entry ∈ code.inForce offset, entry.line = line
    ∧ ∀ other ∈ code.inForce offset, other.line ≤ line

/-- Whether one of the instructions of the block is on `line`. -/
def BasicBlock.HasLine (code : Code) (b : BasicBlock) (line : UInt16) : Prop :=
  ∃ insn ∈ b.instructionsIn code, code.HasLine insn.offset line

namespace LineIndex

variable {code : Code} {offset : Nat} {line : UInt16}

theorem lineAt?_eq_some_iff :
  (ofCode code).lineAt? offset = some line ↔ code.HasLine offset line
  := by
  rcases lineAt?_spec code offset with ⟨hnone, hnil⟩ | ⟨greatest, hmem, hline, hgreatest⟩
  · simp [hnone, hnil, Code.HasLine]
  · rw [hline, Option.some.injEq]
    constructor
    · rintro rfl
      exact ⟨greatest, hmem, rfl, hgreatest⟩
    · rintro ⟨entry, hentry, rfl, hle⟩
      exact UInt16.le_antisymm (hle greatest hmem) (hgreatest entry hentry)

/-- The lines of a block are the lines of its instructions. -/
theorem mem_lines_iff_hasLine {b : BasicBlock} (hb : b ∈ (FlowGraph.ofCode code).blocks) :
  line ∈ b.lines ↔ b.HasLine code line
  := by
  simp only [mem_lines_iff hb, lineAt?_eq_some_iff, BasicBlock.HasLine]

theorem pairwise_eraseRepsBy_loop {first : UInt16} {lines done : List UInt16}
    (hdone : (first :: done).Pairwise (· > ·)) (hlines : (first :: lines).Pairwise (· ≤ ·)) :
  (List.eraseRepsBy.loop (· == ·) first lines done).Pairwise (· < ·)
  := by
  induction lines generalizing first done with
  | nil => rwa [List.eraseRepsBy.loop, List.pairwise_reverse]
  | cons next lines ih =>
    obtain ⟨hfirst, hrest⟩ := List.pairwise_cons.mp hlines
    rw [List.eraseRepsBy.loop]
    split
    · rename_i heq
      rw [eq_of_beq heq] at hdone ⊢
      exact ih hdone hrest
    · rename_i hne
      have hlt : first < next :=
        UInt16.lt_of_le_of_ne (hfirst next List.mem_cons_self) (by simpa using hne)
      apply ih _ hrest
      refine .cons ?_ hdone
      intro line hline
      rcases List.mem_cons.mp hline with rfl | hline
      · exact hlt
      · exact UInt16.lt_trans ((List.pairwise_cons.mp hdone).1 line hline) hlt

/-- Lines are told in ascending order and each of them once. -/
theorem pairwise_linesOf (index : LineIndex) (insns : List Instruction) :
  (index.linesOf insns).Pairwise (· < ·)
  := by
  rw [linesOf]
  generalize insns.filterMap (fun insn => index.lineAt? insn.offset) = lines
  have hsorted : (lines.mergeSort (· ≤ ·)).Pairwise fun a b => decide (a ≤ b) := by
    apply List.pairwise_mergeSort
    · simpa using fun a b c => UInt16.le_trans
    · simpa using UInt16.le_total
  simp only [decide_eq_true_eq] at hsorted
  cases hlines : lines.mergeSort (· ≤ ·) with
  | nil => exact .nil
  | cons first rest =>
    rw [hlines] at hsorted
    exact pairwise_eraseRepsBy_loop (List.pairwise_singleton _ _) hsorted

end LineIndex

/-! ## What is left for a block -/

namespace Probe

variable {line : UInt16} {i : Nat} {b : BasicBlock} {blocks : Array BasicBlock}

/-- The lines of `b` that no block of `front` has. -/
def freshLines (front : List BasicBlock) (b : BasicBlock) : List UInt16 :=
  b.lines.filter fun line => front.all fun earlier => !earlier.lines.contains line

/-- The lines that a probe in front of `b` accounts for behind the blocks `front`, if it gets
one. -/
def shareBehind (front : List BasicBlock) (b : BasicBlock) : Option (List UInt16) :=
  let fresh := freshLines front b
  if b.lines.isEmpty || !fresh.isEmpty then some fresh else none

/-- The lines seen are those of the blocks passed. -/
theorem contains_foldl_chooseNext (front : List BasicBlock) :
  (front.foldl chooseNext (∅, #[])).1.contains line
    = front.any fun earlier => earlier.lines.contains line
  := by
  induction front using List.reverseRecOn with
  | nil => simp
  | append_singleton front b ih =>
    rw [List.foldl_append, List.foldl_cons, List.foldl_nil, chooseNext,
      Std.HashSet.contains_insertMany_list, ih]
    simp

/-- The choice for a block depends on the lines of the blocks in front of it. -/
theorem getElem?_choose_line (hb : blocks[i]? = some b) :
  (choose .line blocks)[i]? = some (shareBehind (blocks.toList.take i) b)
  := by
  rw [← Array.getElem?_toList] at hb
  have hi := (List.getElem?_eq_some_iff.mp hb).1
  obtain ⟨seen, choices, hstate⟩ : ∃ seen choices,
      (blocks.toList.take i).foldl chooseNext (∅, #[]) = (seen, choices) := ⟨_, _, rfl⟩
  have hsize := size_foldl_chooseNext ∅ #[] (blocks.toList.take i)
  have hseen := fun line => @contains_foldl_chooseNext line (blocks.toList.take i)
  rw [hstate] at hsize hseen
  have hfold : blocks.toList.foldl chooseNext (∅, #[])
      = (blocks.toList.drop (i + 1)).foldl chooseNext (chooseNext (seen, choices) b) := by
    rw [← hstate, ← List.foldl_cons, ← List.foldl_append, ← eq_take_append_cons_drop hb]
  obtain rfl : choices.size = i := by
    rw [hsize, List.length_take, Nat.min_eq_left hi.le]
    simp
  -- the blocks behind leave the choice as it is
  rw [choose, ← Array.foldl_toList, hfold, chooseNext, getElem?_foldl_chooseNext _ _ _ (by simp)]
  simp [firstLines, shareBehind, freshLines, hseen, List.not_any_eq_all_not]

theorem mem_freshLines {front : List BasicBlock} :
  line ∈ freshLines front b ↔ line ∈ b.lines ∧ ¬ ∃ earlier ∈ front, line ∈ earlier.lines
  := by
  simp [freshLines]

/-- A block gets a probe when it has no lines, or one of them is fresh. -/
theorem shareBehind_eq_some_iff {front : List BasicBlock} {lines : List UInt16} :
  shareBehind front b = some lines
    ↔ lines = freshLines front b ∧ (b.lines = [] ∨ lines ≠ [])
  := by
  rw [shareBehind, Option.ite_none_right_eq_some, Bool.or_eq_true, List.isEmpty_iff,
    Bool.not_eq_true', List.isEmpty_eq_false_iff, Option.some.injEq]
  constructor
  · rintro ⟨hshare, rfl⟩
    exact ⟨rfl, hshare⟩
  · rintro ⟨rfl, hshare⟩
    exact ⟨hshare, rfl⟩

theorem shareBehind_eq_none_iff {front : List BasicBlock} :
  shareBehind front b = none
    ↔ b.lines ≠ [] ∧ ∀ line ∈ b.lines, ∃ earlier ∈ front, line ∈ earlier.lines
  := by
  simp [shareBehind, freshLines]

/-- The share of a block is empty exactly when the block has no lines. -/
theorem shareBehind_eq_nil_iff {front : List BasicBlock} :
  shareBehind front b = some [] ↔ b.lines = []
  := by
  rw [shareBehind_eq_some_iff]
  constructor
  · rintro ⟨-, hnil | hne⟩
    · exact hnil
    · exact absurd rfl hne
  · intro hnil
    exact ⟨by rw [freshLines, hnil, List.filter_nil], .inl hnil⟩

end Probe

/-! ## The first block with a line -/

/-- Whether the block numbered `block` is the first with an instruction on `line`. -/
structure Code.FirstWith (code : Code) (line : UInt16) (block : Nat) : Prop where
  has : ∃ b : BasicBlock, (FlowGraph.ofCode code).blocks[block]? = some b ∧ b.HasLine code line
  first : ∀ earlier < block, ∀ b, (FlowGraph.ofCode code).blocks[earlier]? = some b →
    ¬ b.HasLine code line

variable {code : Code} {line : UInt16} {block : Nat} {b : BasicBlock}

/-- A line has one first block at most. -/
theorem Code.FirstWith.unique {block' : Nat} (h : code.FirstWith line block)
    (h' : code.FirstWith line block') :
  block = block'
  := by
  obtain ⟨b, hb, hline⟩ := h.has
  obtain ⟨b', hb', hline'⟩ := h'.has
  rcases Nat.lt_trichotomy block block' with hlt | heq | hlt
  · exact absurd hline (h'.first block hlt b hb)
  · exact heq
  · exact absurd hline' (h.first block' hlt b' hb')

namespace FlowGraph

/-- A line has a first block exactly when one of the instructions is on it. -/
theorem exists_firstWith_iff :
  (∃ block, code.FirstWith line block) ↔ ∃ insn ∈ code.instructions, code.HasLine insn.offset line
  := by
  classical
  constructor
  · rintro ⟨block, ⟨b, -, insn, hinsn, hline⟩, -⟩
    exact ⟨insn, BasicBlock.mem_of_mem_instructionsIn hinsn, hline⟩
  · rintro ⟨insn, hinsn, hline⟩
    obtain ⟨b, hb, hmem⟩ := exists_mem_instructionsIn hinsn
    obtain ⟨i, hi⟩ := Array.mem_iff_getElem?.mp hb
    have hsome : ∃ (block : Nat) (b : BasicBlock),
        (ofCode code).blocks[block]? = some b ∧ b.HasLine code line :=
      ⟨i, b, hi, insn, hmem, hline⟩
    refine ⟨Nat.find hsome, Nat.find_spec hsome, ?_⟩
    intro earlier hlt b' hb' hline'
    exact Nat.find_min hsome hlt ⟨b', hb', hline'⟩

/-- Which lines occur in earlier blocks. -/
theorem exists_earlier_iff :
  (∃ earlier ∈ (ofCode code).blocks.toList.take block, line ∈ earlier.lines)
    ↔ ∃ earlier < block, ∃ b : BasicBlock, (ofCode code).blocks[earlier]? = some b
      ∧ b.HasLine code line
  := by
  have hmem (b : BasicBlock) : b ∈ (ofCode code).blocks.toList.take block
      ↔ ∃ earlier < block, (ofCode code).blocks[earlier]? = some b := by
    simp only [List.mem_iff_getElem?, List.getElem?_take, Array.getElem?_toList,
      Option.ite_none_right_eq_some]
  simp only [hmem]
  constructor
  · rintro ⟨b, ⟨earlier, hlt, hb⟩, hline⟩
    rw [LineIndex.mem_lines_iff_hasLine (Array.mem_of_getElem? hb)] at hline
    exact ⟨earlier, hlt, b, hb, hline⟩
  · rintro ⟨earlier, hlt, b, hb, hline⟩
    rw [← LineIndex.mem_lines_iff_hasLine (Array.mem_of_getElem? hb)] at hline
    exact ⟨b, ⟨earlier, hlt, hb⟩, hline⟩

/-- The lines left for a block are those that it is the first to have. -/
theorem mem_freshLines_iff (hb : (ofCode code).blocks[block]? = some b) :
  line ∈ Probe.freshLines ((ofCode code).blocks.toList.take block) b ↔ code.FirstWith line block
  := by
  rw [Probe.mem_freshLines, exists_earlier_iff,
    LineIndex.mem_lines_iff_hasLine (Array.mem_of_getElem? hb)]
  constructor
  · rintro ⟨hline, hfirst⟩
    refine ⟨⟨b, hb, hline⟩, ?_⟩
    intro earlier hlt b' hb' hline'
    exact hfirst ⟨earlier, hlt, b', hb', hline'⟩
  · rintro ⟨⟨b', hb', hline⟩, hfirst⟩
    obtain rfl := Option.some.inj (hb.symm.trans hb')
    refine ⟨hline, ?_⟩
    rintro ⟨earlier, hlt, b', hb', hline'⟩
    exact hfirst earlier hlt b' hb' hline'

/-- A block has no lines exactly when none of its instructions is on a line. -/
theorem lines_eq_nil_iff (hb : (ofCode code).blocks[block]? = some b) :
  b.lines = [] ↔ ∀ line, ¬ b.HasLine code line
  := by
  rw [List.eq_nil_iff_forall_not_mem]
  simp only [LineIndex.mem_lines_iff_hasLine (Array.mem_of_getElem? hb)]

theorem pairwise_lines (hb : (ofCode code).blocks[block]? = some b) :
  b.lines.Pairwise (· < ·)
  := by
  obtain ⟨before, behind, -, hmade⟩ := exists_isMade (Array.mem_of_getElem? hb)
  rw [hmade.lines_eq]
  apply LineIndex.pairwise_linesOf

end FlowGraph

/-! ## The probes of a method -/

/-- Whether the lines of `code` are divided among the probes of its plan, which have the given
records. -/
structure MethodPlan.DividesLines (plan : MethodPlan) (code : Code)
    (records : List ProbeRecord) : Prop where
  /-- The records are of the blocks with a probe, each under its number. -/
  placed : ∀ block n, plan.blockProbes[block]? = some (some n)
    ↔ ∃ p ∈ records, p.block = block ∧ p.probe = n
  ascending : ∀ p ∈ records, p.lines.Pairwise (· < ·)
  disjoint : records.Pairwise fun p q => p.lines.Disjoint q.lines
  covers : ∀ line, (∃ p ∈ records, line ∈ p.lines)
    ↔ ∃ insn ∈ code.instructions, code.HasLine insn.offset line
  first : ∀ line block, (∃ p ∈ records, p.block = block ∧ line ∈ p.lines)
    ↔ code.FirstWith line block
  /-- A block without lines has a probe without lines, and no other block has. -/
  bare : ∀ (block : Nat) (b : BasicBlock), plan.graph.blocks[block]? = some b →
    ((∃ p ∈ records, p.block = block ∧ p.lines = []) ↔ ∀ line, ¬ b.HasLine code line)
  /-- A block gets no probe exactly when it has lines and all of them occur earlier. -/
  unprobed_iff : ∀ (block : Nat) (b : BasicBlock), plan.graph.blocks[block]? = some b →
    (plan.blockProbes[block]? = some none
      ↔ (∃ line, b.HasLine code line) ∧ ∀ line, b.HasLine code line →
        ∃ earlier < block, ∃ b' : BasicBlock, plan.graph.blocks[earlier]? = some b'
          ∧ b'.HasLine code line)

namespace PlannedMethod

variable {policy : Policy} {pool : ConstantPool} {location : String} {method first : Nat}
  {code : Code} {planned : PlannedMethod}

/-- The records of a method are of the blocks that have a share of its lines. -/
theorem exists_mem_probes_iff (h : ofCode policy pool location method first code = .ok planned)
    (hline : policy.granularity = .line) {block : Nat} {lines : List UInt16} :
  (∃ p ∈ planned.probes, p.block = block ∧ p.lines = lines)
    ↔ ∃ b, (FlowGraph.ofCode code).blocks[block]? = some b
      ∧ Probe.shareBehind ((FlowGraph.ofCode code).blocks.toList.take block) b = some lines
  := by
  simp only [ofCode, bind_eq_ok, pure_eq_ok] at h
  obtain ⟨⟨⟩, -, layout, -, rfl⟩ := h
  have hids := FlowGraph.numbered_ofCode code
  simp only [MethodPlan.mem_records, hline]
  constructor
  · rintro ⟨p, ⟨i, b, lines, n, hb, hchoice, -, rfl⟩, rfl, rfl⟩
    rw [Probe.getElem?_choose_line hb] at hchoice
    rw [hids i b hb]
    exact ⟨b, hb, Option.some.inj hchoice⟩
  · rintro ⟨b, hb, hshare⟩
    have hchoice := Probe.getElem?_choose_line hb
    rw [hshare] at hchoice
    obtain ⟨n, hn⟩ := (Probe.exists_numbersFrom_iff first
      (Probe.choose .line (FlowGraph.ofCode code).blocks).toList (i := block)).mpr ⟨lines, by
        rwa [Array.getElem?_toList]⟩
    rw [← Probe.toList_number, Array.getElem?_toList] at hn
    exact ⟨_, ⟨block, b, lines, n, hb, hchoice, hn, rfl⟩, hids block b hb, rfl⟩

/-- A line belongs to the probe of the first block that has it. -/
theorem exists_mem_lines_iff (h : ofCode policy pool location method first code = .ok planned)
    (hline : policy.granularity = .line) {block : Nat} {line : UInt16} :
  (∃ p ∈ planned.probes, p.block = block ∧ line ∈ p.lines) ↔ code.FirstWith line block
  := by
  constructor
  · rintro ⟨p, hp, rfl, hmem⟩
    obtain ⟨b, hb, hshare⟩ := (exists_mem_probes_iff h hline).mp ⟨p, hp, rfl, rfl⟩
    rw [(Probe.shareBehind_eq_some_iff.mp hshare).1] at hmem
    exact (FlowGraph.mem_freshLines_iff hb).mp hmem
  · intro hfirst
    obtain ⟨b, hb, -⟩ := hfirst.has
    have hmem := (FlowGraph.mem_freshLines_iff hb).mpr hfirst
    have hshare := Probe.shareBehind_eq_some_iff.mpr ⟨rfl, .inr (List.ne_nil_of_mem hmem)⟩
    obtain ⟨p, hp, hblock, hlines⟩ := (exists_mem_probes_iff h hline).mpr ⟨b, hb, hshare⟩
    exact ⟨p, hp, hblock, hlines ▸ hmem⟩

/-- A block has no probe exactly when it has no share of the lines. -/
theorem shareBehind_eq_none_iff_unprobed {m : Method} (hbooks : planned.KeepsBooks policy m method)
    (h : ofCode policy pool location method first code = .ok planned)
    (hline : policy.granularity = .line) {block : Nat} {b : BasicBlock}
    (hb : (FlowGraph.ofCode code).blocks[block]? = some b) {probe : Option Nat}
    (hprobe : planned.plan.blockProbes[block]? = some probe) :
  probe = none ↔ Probe.shareBehind ((FlowGraph.ofCode code).blocks.toList.take block) b = none
  := by
  constructor
  · rintro rfl
    cases hshare : Probe.shareBehind ((FlowGraph.ofCode code).blocks.toList.take block) b with
    | none => rfl
    | some lines =>
      obtain ⟨p, hp, hblock, -⟩ := (exists_mem_probes_iff h hline).mpr ⟨b, hb, hshare⟩
      have hplaced := (hbooks.placed block p.probe).mpr ⟨p, hp, hblock, rfl⟩
      cases hprobe.symm.trans hplaced
  · intro hnone
    cases probe with
    | none => rfl
    | some n =>
      obtain ⟨p, hp, hblock, -⟩ := (hbooks.placed block n).mp hprobe
      obtain ⟨b', hb', hshare⟩ := (exists_mem_probes_iff h hline).mp ⟨p, hp, hblock, rfl⟩
      obtain rfl := Option.some.inj (hb.symm.trans hb')
      cases hnone.symm.trans hshare

/-- A planned method divides its lines among its probes. -/
theorem dividesLines_of_ofCode {m : Method} (hcode : m.code? = some code)
    (hne : code.instructions ≠ [])
    (h : ofCode policy pool location method first code = .ok planned)
    (hline : policy.granularity = .line) :
  planned.plan.DividesLines code planned.probes
  := by
  have hbooks := keepsBooks_of_ofCode h hcode hne
  obtain ⟨-, hof, -⟩ := isOf_of_ofCode h hne
  exact {
    placed := hbooks.placed
    ascending := by
      intro p hp
      obtain ⟨b, hb, hshare⟩ := (exists_mem_probes_iff h hline).mp ⟨p, hp, rfl, rfl⟩
      rw [(Probe.shareBehind_eq_some_iff.mp hshare).1]
      exact (FlowGraph.pairwise_lines hb).filter _
    disjoint := by
      apply hbooks.ordered.imp_of_mem
      intro p q hp hq hlt line hmem hmem'
      have hfirst := (exists_mem_lines_iff h hline).mp ⟨p, hp, rfl, hmem⟩
      have hfirst' := (exists_mem_lines_iff h hline).mp ⟨q, hq, rfl, hmem'⟩
      exact hlt.ne (hfirst.unique hfirst')
    covers := by
      intro line
      rw [← FlowGraph.exists_firstWith_iff]
      simp only [← exists_mem_lines_iff h hline]
      constructor
      · rintro ⟨p, hp, hmem⟩
        exact ⟨p.block, p, hp, rfl, hmem⟩
      · rintro ⟨block, p, hp, -, hmem⟩
        exact ⟨p, hp, hmem⟩
    first := fun line block => exists_mem_lines_iff h hline
    bare := by
      intro block b hb
      rw [hof.graph_eq] at hb
      rw [exists_mem_probes_iff h hline, ← FlowGraph.lines_eq_nil_iff hb]
      simp [hb, Probe.shareBehind_eq_nil_iff]
    unprobed_iff := by
      intro block b hb
      have hlt : block < planned.plan.blockProbes.size := by
        rw [hof.size_eq]
        exact (Array.getElem?_eq_some_iff.mp hb).1
      have hprobe := Array.getElem?_eq_getElem hlt
      rw [hof.graph_eq] at hb ⊢
      rw [hprobe, Option.some.injEq, shareBehind_eq_none_iff_unprobed hbooks h hline hb hprobe,
        Probe.shareBehind_eq_none_iff, ne_eq, FlowGraph.lines_eq_nil_iff hb, not_forall_not]
      simp only [LineIndex.mem_lines_iff_hasLine (Array.mem_of_getElem? hb),
        FlowGraph.exists_earlier_iff] }

end PlannedMethod

/-! ## The probes of a class -/

/-- Planning by lines divides the lines of every method of a class that was read. -/
theorem ClassPlan.dividesLines_of_read {bytes : List UInt8} {policy : Policy} {c : ClassFile}
    {plan : ClassPlan} (hread : ClassFile.read bytes = .ok c)
    (hplan : ofClass policy c = .ok plan) (hline : policy.granularity = .line) :
  ∀ methodPlan ∈ plan.planned, ∃ m code, c.methods[methodPlan.method]? = some m
    ∧ m.code? = some code ∧ methodPlan.graph = FlowGraph.ofCode code
    ∧ methodPlan.DividesLines code (plan.probes.filter (·.method == methodPlan.method))
  := by
  intro methodPlan hmem
  obtain ⟨hc, -⟩ := ClassFile.wellFormed_of_read hread
  obtain ⟨planned, hgives, rfl⟩ := (mem_planned_iff hplan hc).mp ⟨hmem, rfl⟩
  rw [filter_probes hplan hc hgives]
  obtain ⟨m, code, first, hm, hcode, hne, hofCode⟩ := exists_ofCode_of_gives hc hgives
  obtain ⟨-, hof, -⟩ := PlannedMethod.isOf_of_ofCode hofCode hne
  exact ⟨m, code, hm, hcode, hof.graph_eq,
    PlannedMethod.dividesLines_of_ofCode hcode hne hofCode hline⟩

/-! ## A class whose blocks share a line -/

namespace ClassFile

/-- Only the first block of `twiceBody` has a share of its lines. -/
theorem choose_twiceBlocks (first second : List Edge) :
  Probe.choose .line (twiceBlocks first second) = #[some [5], none, none]
  := by
  simp [Probe.choose, twiceBlocks, Probe.chooseNext, Probe.firstLines]

/-- The method of `twiceClass` has one probe for its one line. -/
theorem dividesLines_twiceClass :
  ∃ plan, ClassPlan.ofClass { granularity := .line } twiceClass = .ok plan
    ∧ plan.probes = [⟨0, 0, 0, .conditional, [5]⟩]
    ∧ plan.planned.map MethodPlan.blockProbes = [#[some 0, none, none]]
    ∧ ∀ methodPlan ∈ plan.planned, ∃ m code, twiceClass.methods[methodPlan.method]? = some m
      ∧ m.code? = some code ∧ methodPlan.graph = FlowGraph.ofCode code
      ∧ methodPlan.DividesLines code (plan.probes.filter (·.method == methodPlan.method))
  := by
  have hmethods : twiceClass.methods = [twiceMethod] := rfl
  have hcode : MethodOutcome.eligible { granularity := .line } twiceClass.pool twiceMethod
      = .ok twiceBody := by
    decide +kernel
  have hprobes : (ClassPlan.ofClass { granularity := .line } twiceClass).toOption.any fun plan =>
      decide (plan.probes = [⟨0, 0, 0, .conditional, [5]⟩]
        ∧ plan.planned.map MethodPlan.blockProbes = [#[some 0, none, none]]) := by
    rw [ClassPlan.ofClass, MethodOutcome.ofClass_eq, hmethods]
    simp only [MethodOutcome.outcomesFrom, MethodOutcome.ofMethod, hcode, bind, Except.bind,
      PlannedMethod.ofCode, ofCode_twiceBody.2, choose_twiceBlocks]
    decide +kernel
  obtain ⟨plan, hplan, hparts⟩ := exists_ok_of_any hprobes
  obtain ⟨hprobes, hplaced⟩ := of_decide_eq_true hparts
  exact ⟨plan, hplan, hprobes, hplaced,
    ClassPlan.dividesLines_of_read read_form_twiceClass hplan rfl⟩

end ClassFile

end JvmCoverage
