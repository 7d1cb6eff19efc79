import JvmCoverage.Proofs.Bookkeeping
import JvmCoverage.Proofs.LineStatus
import JvmCoverage.Proofs.Runs
import Mathlib.Data.List.Nodup

/-!
# Two ways to the line of an offset

At an offset those line entries are in force that have the greatest start up to it
(`Code.inForce`).  Of several such entries `Code.lineAt?` takes the last of the tables and a
`LineIndex` the one with the greatest line, so the two agree exactly when the last entry in force
has the greatest line (`LineIndex.lineAt?_eq_iff`); they do when no start is repeated
(`Code.lastIsGreatest_of_nodup`).  Branches are told of under the lines of the one, and the lines of
blocks come from the other (`ClassFile.tellsLines`).
-/

namespace JvmCoverage

/-! ## The entries in force -/

namespace Code

/-- The entries with the greatest start. -/
def latest (entries : List LineEntry) : List LineEntry :=
  entries.filter fun entry => entries.all (·.start ≤ entry.start)

/-- The line entries in force at `offset`, in the order of the tables. -/
def inForce (code : Code) (offset : Nat) : List LineEntry :=
  latest (code.lineEntries.filter (·.start ≤ offset))

/-- Whether the last of the entries in force at `offset` has the greatest line. -/
def LastIsGreatest (code : Code) (offset : Nat) : Prop :=
  ∀ last ∈ (code.inForce offset).getLast?, ∀ entry ∈ code.inForce offset, entry.line ≤ last.line

theorem mem_inForce {code : Code} {offset : Nat} {entry : LineEntry} :
  entry ∈ code.inForce offset
    ↔ (entry ∈ code.lineEntries ∧ entry.start ≤ offset)
      ∧ ∀ other ∈ code.lineEntries, other.start ≤ offset → other.start ≤ entry.start
  := by
  simp only [inForce, latest, List.mem_filter, List.all_eq_true, decide_eq_true_eq, and_imp]

/-- Whether `last` has the greatest start, and is the last entry to have it. -/
def IsLatest (entries : List LineEntry) (last : LineEntry) : Prop :=
  ∃ front back, entries = front ++ last :: back ∧ (∀ entry ∈ front, entry.start ≤ last.start)
    ∧ ∀ entry ∈ back, entry.start < last.start

theorem IsLatest.concat {entries : List LineEntry} {last next : LineEntry}
    (h : IsLatest entries last) :
  (last.start ≤ next.start → IsLatest (entries ++ [next]) next)
    ∧ (next.start < last.start → IsLatest (entries ++ [next]) last)
  := by
  obtain ⟨front, back, rfl, hfront, hback⟩ := h
  constructor
  · intro hle
    refine ⟨front ++ last :: back, [], rfl, ?_, by simp⟩
    intro entry hentry
    rcases List.mem_append.mp hentry with hentry | hentry
    · exact (hfront entry hentry).trans hle
    rcases List.mem_cons.mp hentry with rfl | hentry
    · exact hle
    · exact (hback entry hentry).le.trans hle
  · intro hlt
    refine ⟨front, back ++ [next], by simp, hfront, ?_⟩
    intro entry hentry
    rcases List.mem_append.mp hentry with hentry | hentry
    · exact hback entry hentry
    · rwa [List.mem_singleton.mp hentry]

/-- A walk over entries keeps the last of those with the greatest start. -/
theorem foldl_laterLine (entries : List LineEntry) :
  entries = [] ∧ entries.foldl laterLine none = none
    ∨ ∃ last, entries.foldl laterLine none = some last ∧ IsLatest entries last
  := by
  induction entries using List.reverseRecOn with
  | nil => exact .inl ⟨rfl, rfl⟩
  | append_singleton entries next ih =>
    right
    rw [List.foldl_append, List.foldl_cons, List.foldl_nil]
    rcases ih with ⟨rfl, hnone⟩ | ⟨last, hlast, hlatest⟩
    · rw [hnone]
      exact ⟨next, rfl, [], [], rfl, by simp, by simp⟩
    · rw [hlast, laterLine]
      split
      · rename_i hle
        exact ⟨next, rfl, hlatest.concat.1 hle⟩
      · rename_i hlt
        exact ⟨last, rfl, hlatest.concat.2 (Nat.lt_of_not_le hlt)⟩

theorem IsLatest.getLast?_latest {entries : List LineEntry} {last : LineEntry}
    (h : IsLatest entries last) :
  (latest entries).getLast? = some last
  := by
  obtain ⟨front, back, rfl, hfront, hback⟩ := h
  have hlast : (front ++ last :: back).all (·.start ≤ last.start) := by
    simp only [List.all_eq_true, List.mem_append, List.mem_cons, decide_eq_true_eq]
    rintro entry (hentry | rfl | hentry)
    · exact hfront entry hentry
    · exact le_rfl
    · exact (hback entry hentry).le
  have hbehind : back.filter (fun entry => (front ++ last :: back).all (·.start ≤ entry.start))
      = [] := by
    rw [List.filter_eq_nil_iff]
    intro entry hentry hall
    have hle := List.all_eq_true.mp hall last (by simp)
    exact (hback entry hentry).not_ge (of_decide_eq_true hle)
  rw [latest, List.filter_append, List.filter_cons, if_pos hlast, hbehind, List.getLast?_concat]

/-- The line of an offset is that of the last entry in force. -/
theorem lineAt?_eq (code : Code) (offset : Nat) :
  code.lineAt? offset = (code.inForce offset).getLast?.map LineEntry.line
  := by
  rw [lineAt?, inForce]
  rcases foldl_laterLine (code.lineEntries.filter (·.start ≤ offset))
    with ⟨hnil, hnone⟩ | ⟨last, hlast, hlatest⟩
  · rw [hnone, hnil]
    rfl
  · rw [hlast, hlatest.getLast?_latest]

/-- When no start is repeated there is at most one entry in force. -/
theorem lastIsGreatest_of_nodup {code : Code} (h : (code.lineEntries.map LineEntry.start).Nodup)
    (offset : Nat) :
  code.LastIsGreatest offset
  := by
  intro last hlast entry hentry
  obtain ⟨⟨hmem, hle⟩, hgreatest⟩ := mem_inForce.mp hentry
  obtain ⟨⟨hmem', hle'⟩, hgreatest'⟩ := mem_inForce.mp (List.mem_of_getLast? hlast)
  have hstart := Nat.le_antisymm (hgreatest' entry hmem hle) (hgreatest last hmem' hle')
  rw [List.inj_on_of_nodup_map h hmem hmem' hstart]
  exact UInt16.le_refl _

end Code

/-! ## The index -/

namespace LineIndex

theorem inOrder_iff {a b : LineEntry} :
  inOrder a b ↔ a.start < b.start ∨ a.start = b.start ∧ a.line ≤ b.line
  := by
  simp [inOrder]

/-- The entries of an index stand in order. -/
theorem pairwise_ofCode (code : Code) :
  (ofCode code).entries.toList.Pairwise fun a b => inOrder a b
  := by
  rw [ofCode]
  apply List.pairwise_mergeSort
  · intro a b c hab hbc
    rw [inOrder_iff] at *
    grind
  · intro a b
    rw [Bool.or_eq_true, inOrder_iff, inOrder_iff]
    grind

theorem mem_ofCode {code : Code} {entry : LineEntry} :
  entry ∈ (ofCode code).entries ↔ entry ∈ code.lineEntries
  := by
  simp [ofCode, List.mem_mergeSort]

theorem ordered_ofCode (code : Code) :
  Search.Ordered LineEntry.start (ofCode code).entries
  := by
  apply (pairwise_ofCode code).imp
  intro a b hab
  rcases inOrder_iff.mp hab with hlt | ⟨heq, -⟩
  · exact hlt.le
  · exact heq.le

/-- The line of an offset is the greatest of the entries in force. -/
theorem lineAt?_spec (code : Code) (offset : Nat) :
  (ofCode code).lineAt? offset = none ∧ code.inForce offset = []
    ∨ ∃ greatest ∈ code.inForce offset, (ofCode code).lineAt? offset = some greatest.line
      ∧ ∀ entry ∈ code.inForce offset, entry.line ≤ greatest.line
  := by
  rw [lineAt?]
  cases hplace : Search.lastUpTo? LineEntry.start (ofCode code).entries offset with
  | none =>
    rw [Search.lastUpTo?_eq_none (ordered_ofCode code)] at hplace
    refine .inl ⟨rfl, List.eq_nil_iff_forall_not_mem.mpr ?_⟩
    intro entry hentry
    obtain ⟨⟨hmem, hle⟩, -⟩ := Code.mem_inForce.mp hentry
    exact (hplace entry (mem_ofCode.mpr hmem)).not_ge hle
  | some i =>
    obtain ⟨hup, hlast⟩ := (Search.lastUpTo?_eq_some (ordered_ofCode code)).mp hplace
    obtain ⟨greatest, hgreatest, hle⟩ := Search.isUpTo_iff.mp hup
    have hbefore {entry : LineEntry} (hentry : entry ∈ code.lineEntries)
        (hstart : entry.start ≤ offset) : entry = greatest ∨ inOrder entry greatest := by
      obtain ⟨j, hj⟩ := Array.mem_iff_getElem?.mp (mem_ofCode.mpr hentry)
      rcases Nat.eq_or_lt_of_le (hlast j (Search.isUpTo_iff.mpr ⟨entry, hj, hstart⟩))
        with rfl | hlt
      · exact .inl (Option.some.inj (hj.symm.trans hgreatest))
      · rw [← Array.getElem?_toList] at hj hgreatest
        obtain ⟨hjlt, rfl⟩ := List.getElem?_eq_some_iff.mp hj
        obtain ⟨hilt, rfl⟩ := List.getElem?_eq_some_iff.mp hgreatest
        exact .inr (List.pairwise_iff_getElem.mp (pairwise_ofCode code) j i hjlt hilt hlt)
    have hmem := mem_ofCode.mp (Array.mem_of_getElem? hgreatest)
    refine .inr ⟨greatest, Code.mem_inForce.mpr ⟨⟨hmem, hle⟩, ?_⟩, by simp [hgreatest], ?_⟩
    · intro other hother hstart
      rcases hbefore hother hstart with rfl | horder
      · exact le_rfl
      · rcases inOrder_iff.mp horder with hlt | ⟨heq, -⟩
        · exact hlt.le
        · exact heq.le
    · intro entry hentry
      obtain ⟨⟨hentry, hstart⟩, hforce⟩ := Code.mem_inForce.mp hentry
      rcases hbefore hentry hstart with rfl | horder
      · exact UInt16.le_refl _
      · rcases inOrder_iff.mp horder with hlt | ⟨-, hline⟩
        · exact absurd (hforce greatest hmem hle) hlt.not_ge
        · exact hline

/-- The two ways to the line of an offset agree when the last entry in force has the greatest
line, and only then. -/
theorem lineAt?_eq_iff (code : Code) (offset : Nat) :
  (ofCode code).lineAt? offset = code.lineAt? offset ↔ code.LastIsGreatest offset
  := by
  rw [Code.lineAt?_eq, Code.LastIsGreatest]
  rcases lineAt?_spec code offset with ⟨hnone, hnil⟩ | ⟨greatest, hmem, hline, hgreatest⟩
  · simp [hnone, hnil]
  · have hlast := List.getLast?_eq_some_getLast (List.ne_nil_of_mem hmem)
    rw [hline, hlast, Option.map_some, Option.some.injEq]
    simp only [Option.mem_def, Option.some.injEq, forall_eq']
    constructor
    · intro heq entry hentry
      rw [← heq]
      exact hgreatest entry hentry
    · intro hle
      apply UInt16.le_antisymm (hle greatest hmem)
      exact hgreatest _ (List.getLast_mem _)

/-! ## The lines of blocks -/

theorem mem_eraseRepsBy_loop {line first : UInt16} {lines done : List UInt16} :
  line ∈ List.eraseRepsBy.loop (· == ·) first lines done
    ↔ line ∈ done ∨ line = first ∨ line ∈ lines
  := by
  induction lines generalizing first done with
  | nil => simp [List.eraseRepsBy.loop, or_comm]
  | cons next lines ih =>
    rw [List.eraseRepsBy.loop]
    split
    · rename_i heq
      rw [ih, List.mem_cons, ← eq_of_beq heq, or_self_left]
    · rw [ih, List.mem_cons, List.mem_cons]
      tauto

theorem mem_eraseReps {line : UInt16} {lines : List UInt16} :
  line ∈ lines.eraseReps ↔ line ∈ lines
  := by
  cases lines with
  | nil => rfl
  | cons first lines => simp [List.eraseReps, List.eraseRepsBy, mem_eraseRepsBy_loop]

theorem mem_linesOf {index : LineIndex} {insns : List Instruction} {line : UInt16} :
  line ∈ index.linesOf insns ↔ ∃ insn ∈ insns, index.lineAt? insn.offset = some line
  := by
  rw [linesOf, mem_eraseReps, List.mem_mergeSort, List.mem_filterMap]

/-- The lines of a block are the lines of its instructions. -/
theorem mem_lines_iff {code : Code} {b : BasicBlock} (hb : b ∈ (FlowGraph.ofCode code).blocks)
    {line : UInt16} :
  line ∈ b.lines ↔ ∃ insn ∈ b.instructionsIn code, (ofCode code).lineAt? insn.offset = some line
  := by
  obtain ⟨before, behind, -, hmade⟩ := FlowGraph.exists_isMade hb
  rw [hmade.lines_eq, mem_linesOf]

end LineIndex

/-! ## The lines of branches -/

namespace ClassFile

/-- Whether the lines of offsets are told of in one way in the bodies of the class, and those of its
branches in the same way as those of its blocks, where the last entry in force has the greatest
line. -/
structure TellsLines (c : ClassFile) : Prop where
  agree : ∀ m ∈ c.methods, ∀ nameIndex code, .code nameIndex code ∈ m.attributes → ∀ offset,
    (LineIndex.ofCode code).lineAt? offset = code.lineAt? offset ↔ code.LastIsGreatest offset
  /-- A branch is at the end of a block, whose lines have its line. -/
  branch : ∀ policy plan, ClassPlan.ofClass policy c = .ok plan → ∀ site ∈ plan.branches,
    ∃ m code b, c.methods[site.method]? = some m ∧ m.code? = some code
      ∧ b ∈ (FlowGraph.ofCode code).blocks ∧ site.offset = b.last.offset
      ∧ site.line = code.lineAt? site.offset
      ∧ (code.LastIsGreatest site.offset → ∀ line, site.line = some line → line ∈ b.lines)

/-- The line of a branch is a line of the block before it when the last entry in force there has the
greatest line. -/
theorem tellsLines (c : ClassFile) :
  c.TellsLines
  where
    agree := fun _ _ _ code _ => LineIndex.lineAt?_eq_iff code
    branch := by
      intro policy plan hplan site hsite
      rw [(ClassPlan.eq_of_ofClass hplan).2.2.2, MethodOutcome.ofClass_eq] at hsite
      obtain ⟨i, planned, ⟨outcome, houtcome, hplanned⟩, hsite⟩ :=
        (MethodOutcome.mem_flatMap_iff _).mp hsite
      obtain ⟨m, first, hm, rfl⟩ := MethodOutcome.exists_of_getElem?_outcomesFrom houtcome
      obtain ⟨code, hcode, hofCode⟩ := MethodOutcome.exists_ofCode_of_planned hplanned
      simp only [PlannedMethod.ofCode, bind_eq_ok, pure_eq_ok] at hofCode
      obtain ⟨⟨⟩, -, layout, -, rfl⟩ := hofCode
      obtain ⟨b, hb, hmethod, hoffset, hline⟩ := MethodPlan.exists_of_mem_branchSites hsite
      rw [Nat.zero_add] at hmethod
      rw [← hoffset] at hline
      refine ⟨m, code, b, hmethod ▸ hm, hcode, hb, hoffset, hline, ?_⟩
      intro hgreatest line hlineEq
      obtain ⟨-, -, -, -, hlast⟩ := FlowGraph.exists_head_instructionsIn hb
      refine (LineIndex.mem_lines_iff hb).mpr ⟨b.last, List.mem_of_getLast? hlast, ?_⟩
      rw [← hoffset, (LineIndex.lineAt?_eq_iff code site.offset).mpr hgreatest, ← hline, hlineEq]

/-! ## A class with two lines for an offset -/

/-- A body with a branch and with two lines for its first offset. -/
def twiceBody : Code where
  maxStack := 1
  maxLocals := 1
  instructions := [⟨0, .plain 0x1a []⟩, ⟨1, .branch 0x99 5⟩, ⟨4, .plain 0x00 []⟩,
    ⟨5, .methodReturn 0xb1⟩]
  handlers := []
  attributes := [.lineNumbers 7 [⟨0, 5⟩, ⟨0, 3⟩]]

/-- A method with the body `twiceBody`. -/
def twiceMethod : Method := ⟨9, 3, 4, "f", "(I)V", [.code 5 twiceBody]⟩

/-- A class with the method `twiceMethod`. -/
def twiceClass : ClassFile := { crossClass with methods := [twiceMethod] }

theorem wellFormed_twiceBody :
  twiceBody.WellFormed twiceClass.pool
  where
    instructions := by decide +kernel
    handlers_le := by decide
    handlers := by simp [twiceBody]
    attributes_le := by decide
    attributes := by
      simp only [twiceBody, List.forall_mem_cons, List.not_mem_nil, false_implies, implies_true,
        and_true]
      refine ⟨Code.lineNumberTable, rfl, rfl, by decide, ?_⟩
      simp only [Code.lineFits_boundaries]
      decide

theorem read_form_twiceClass :
  read twiceClass.form = .ok twiceClass
  := by
  have hmethod : twiceMethod.WellFormed twiceClass.pool :=
    Method.wellFormed_of_body (by decide +kernel) (by decide +kernel) rfl rfl wellFormed_twiceBody
  have hclass : twiceClass.WellFormed := {
    wellFormed_crossClass with
    methods_le := by decide
    methods := fun m hm => List.mem_singleton.mp hm ▸ hmethod }
  exact (read_form_iff hclass).mpr (lengthsFit_of_forms (by decide +kernel))

/-- The blocks of `twiceBody` with the given successors. -/
def twiceBlocks (first second : List Edge) : Array BasicBlock :=
  #[{ id := 0, start := 0, first := 0, count := 2, last := ⟨1, .branch 0x99 5⟩, lines := [5],
      successors := first },
    { id := 1, start := 4, first := 2, count := 1, last := ⟨4, .plain 0x00 []⟩, lines := [5],
      successors := second },
    { id := 2, start := 5, first := 3, count := 1, last := ⟨5, .methodReturn 0xb1⟩, lines := [5],
      successors := [] }]

theorem ofCode_twiceBody :
  LineIndex.ofCode twiceBody = ⟨#[⟨0, 3⟩, ⟨0, 5⟩]⟩
    ∧ FlowGraph.ofCode twiceBody
      = ⟨twiceBlocks [⟨2, .branchTaken⟩, ⟨1, .fallthrough⟩] [⟨2, .fallthrough⟩]⟩
  := by
  have hindex : LineIndex.ofCode twiceBody = ⟨#[⟨0, 3⟩, ⟨0, 5⟩]⟩ := by
    have hsorted : twiceBody.lineEntries.mergeSort LineIndex.inOrder = [⟨0, 3⟩, ⟨0, 5⟩] := by
      rw [show twiceBody.lineEntries = [⟨0, 5⟩, ⟨0, 3⟩] from rfl]
      simp [List.mergeSort, LineIndex.inOrder]
    rw [LineIndex.ofCode, hsorted]
  have hruns : FlowGraph.runs (.ofList (FlowGraph.leaders twiceBody)) twiceBody.instructions
      = [[⟨0, .plain 0x1a []⟩, ⟨1, .branch 0x99 5⟩], [⟨4, .plain 0x00 []⟩],
        [⟨5, .methodReturn 0xb1⟩]] := by
    rw [FlowGraph.runs_ofList]
    decide +kernel
  have houtline : FlowGraph.outline twiceBody = twiceBlocks [] [] := by
    rw [FlowGraph.outline, hindex, hruns]
    simp only [List.foldl_cons, List.foldl_nil, FlowGraph.pushRun, List.head?_cons,
      List.getLast?_cons_cons, List.getLast?_singleton]
    rw [linesOf_eq [5, 5] (by decide +kernel) (by decide),
      linesOf_eq [5] (by decide +kernel) (by decide),
      linesOf_eq [5] (by decide +kernel) (by decide)]
    rfl
  use hindex
  rw [FlowGraph.ofCode, houtline]
  decide +kernel

/-- The branch of `twiceClass` is told of under a line that no block has. -/
theorem line_of_branch_twiceClass :
  read twiceClass.form = .ok twiceClass ∧ twiceMethod.code? = some twiceBody
    ∧ (LineIndex.ofCode twiceBody).lineAt? 1 ≠ twiceBody.lineAt? 1
    ∧ ∃ plan, ClassPlan.ofClass {} twiceClass = .ok plan
      ∧ plan.branches = [⟨0, 1, some 3, [2, 1]⟩]
      ∧ ∀ b ∈ (FlowGraph.ofCode twiceBody).blocks, b.lines = [5]
  := by
  have hmethods : twiceClass.methods = [twiceMethod] := rfl
  have hcode : MethodOutcome.eligible {} twiceClass.pool twiceMethod = .ok twiceBody := by
    decide +kernel
  obtain ⟨hindex, hgraph⟩ := ofCode_twiceBody
  have hplanned : (ClassPlan.ofClass {} twiceClass).toOption.any fun plan =>
      decide (plan.branches = [⟨0, 1, some 3, [2, 1]⟩]) := by
    rw [ClassPlan.ofClass, MethodOutcome.ofClass_eq, hmethods]
    simp only [MethodOutcome.outcomesFrom, MethodOutcome.ofMethod, hcode, bind, Except.bind,
      PlannedMethod.ofCode, hgraph]
    decide +kernel
  refine ⟨read_form_twiceClass, rfl, by rw [hindex]; decide +kernel, ?_⟩
  obtain ⟨plan, hplan, hbranches⟩ := exists_ok_of_any hplanned
  refine ⟨plan, hplan, of_decide_eq_true hbranches, ?_⟩
  rw [hgraph]
  decide +kernel

end ClassFile

end JvmCoverage
