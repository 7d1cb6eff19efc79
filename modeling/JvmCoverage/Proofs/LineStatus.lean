import JvmCoverage.Coverage.Aggregate
import JvmCoverage.Proofs.Bookkeeping
import Mathlib.Algebra.Order.BigOperators.Group.List
import Mathlib.Data.List.SplitBy

/-!
# What the status of a line tells

The tallies about a line are put together in one group, so the quantities of its tally are sums over
the probes that account for it and the branches on it (`LineTally.sum_byLine`).  Hence a line is
missed when nothing has counted for it, and covered when everything has
(`ClassRecord.statusTells_coverage`).

An outcome of a branch counts when the code behind the branch was reached, from wherever.  So a line
may be told to be partially covered although none of its own probes has counted
(`ClassPlan.partiallyCovered_of_unreached`).
-/

namespace JvmCoverage

/-! ## The status of a line -/

namespace LineStatus

variable {probesHit probesTotal branchesCovered branchesTotal : Nat}

theorem missed_iff :
  of probesHit probesTotal branchesCovered branchesTotal = missed
    ↔ probesHit = 0 ∧ branchesCovered = 0
  := by
  rw [of]
  repeat' split
  all_goals simp_all

theorem covered_iff :
  of probesHit probesTotal branchesCovered branchesTotal = covered
    ↔ ¬ (probesHit = 0 ∧ branchesCovered = 0)
      ∧ probesHit = probesTotal ∧ branchesCovered = branchesTotal
  := by
  rw [of]
  repeat' split
  all_goals simp_all

end LineStatus

/-! ## Tallies by line -/

namespace LineTally

variable {entries group : List (UInt16 × LineTally)} {groups : List (List (UInt16 × LineTally))}
  {line : UInt16} {t : LineTally}

/-- The entries of a group are about one line. -/
theorem fst_eq_of_mem_splitBy (hgroup : group ∈ entries.splitBy fun a b => a.1 == b.1)
    {a b : UInt16 × LineTally} (ha : a ∈ group) (hb : b ∈ group) :
  a.1 = b.1
  := by
  have hchain : (group.map Prod.fst).IsChain (· = ·) := by
    rw [List.isChain_map]
    simpa using List.isChain_of_mem_splitBy hgroup
  apply (List.isChain_iff_pairwise.mp hchain).forall_of_forall (fun _ _ => rfl)
    (List.mem_map_of_mem ha) (List.mem_map_of_mem hb)

/-- Groups of entries in the order of lines are in the order of their lines, without repetition. -/
theorem pairwise_splitBy (hsorted : entries.Pairwise fun a b => a.1 ≤ b.1) :
  (entries.splitBy fun a b => a.1 == b.1).Pairwise fun g h => ∀ a ∈ g, ∀ b ∈ h, a.1 < b.1
  := by
  have hsame : ∀ g ∈ entries.splitBy fun a b => a.1 == b.1,
      ∀ a ∈ g, ∀ b ∈ g, a.1 = b.1 := fun g hg a ha b hb => fst_eq_of_mem_splitBy hg ha hb
  have hbounds := List.isChain_getLast_head_splitBy (fun a b => a.1 == b.1) entries
  rw [← List.flatten_splitBy (fun a b => a.1 == b.1) entries, List.pairwise_flatten] at hsorted
  obtain ⟨-, hsorted⟩ := hsorted
  generalize entries.splitBy (fun a b => a.1 == b.1) = groups at hsame hbounds hsorted
  induction groups with
  | nil => exact .nil
  | cons g groups ih =>
    obtain ⟨hg, hsame⟩ := List.forall_mem_cons.mp hsame
    obtain ⟨hle, hsorted⟩ := List.pairwise_cons.mp hsorted
    refine List.pairwise_cons.mpr ⟨?_, ih hsame hbounds.tail hsorted⟩
    cases groups with
    | nil => simp
    | cons h groups =>
      obtain ⟨⟨hgne, hhne, hne⟩, -⟩ := List.isChain_cons_cons.mp hbounds
      -- the line changes from one group to the next, and does not go back
      have hlt : ∀ a ∈ g, a.1 < (h.head hhne).1 := by
        intro a ha
        apply UInt16.lt_of_le_of_ne (hle h List.mem_cons_self a ha _ (List.head_mem hhne))
        rw [hg a ha _ (List.getLast_mem hgne)]
        simpa using hne
      intro h' hh' a ha b hb
      rcases List.mem_cons.mp hh' with rfl | hmem
      · rw [hsame h' List.mem_cons_self b hb _ (List.head_mem hhne)]
        apply hlt a ha
      · apply UInt16.lt_of_lt_of_le (hlt a ha)
        apply (List.pairwise_cons.mp hsorted).1 h' hmem _ (List.head_mem hhne) b hb

/-- Of entries in the order of lines a group has all those about its line. -/
theorem eq_filter_of_mem_splitBy (hsorted : entries.Pairwise fun a b => a.1 ≤ b.1)
    (hgroup : group ∈ entries.splitBy fun a b => a.1 == b.1) {a : UInt16 × LineTally}
    (ha : a ∈ group) :
  entries.filter (·.1 == a.1) = group
  := by
  have hlines := pairwise_splitBy hsorted
  obtain ⟨before, behind, hsplit⟩ := List.append_of_mem hgroup
  have hflatten : entries = before.flatten ++ group ++ behind.flatten := by
    rw [← List.flatten_splitBy (fun a b => a.1 == b.1) entries, hsplit]
    simp
  rw [hsplit, List.pairwise_append, List.pairwise_cons] at hlines
  obtain ⟨-, ⟨hbehind, -⟩, hbefore⟩ := hlines
  rw [hflatten, List.filter_append, List.filter_append, List.filter_eq_nil_iff.mpr,
    List.filter_eq_self.mpr, List.filter_eq_nil_iff.mpr, List.nil_append, List.append_nil]
  · intro b hb
    obtain ⟨g, hg, hb⟩ := List.mem_flatten.mp hb
    simpa using (UInt16.ne_of_lt (hbehind g hg a ha b hb)).symm
  · intro b hb
    simpa using fst_eq_of_mem_splitBy hgroup hb ha
  · intro b hb
    obtain ⟨g, hg, hb⟩ := List.mem_flatten.mp hb
    simpa using UInt16.ne_of_lt (hbefore g hg group List.mem_cons_self b hb a ha)

theorem pairwise_mergeSort (entries : List (UInt16 × LineTally)) :
  (entries.mergeSort fun a b => a.1 ≤ b.1).Pairwise fun a b => a.1 ≤ b.1
  := by
  have hsorted : (entries.mergeSort fun a b => a.1 ≤ b.1).Pairwise
      fun a b => decide (a.1 ≤ b.1) := by
    apply List.pairwise_mergeSort
    · intro a b c
      simpa using UInt16.le_trans
    · intro a b
      simpa using UInt16.le_total a.1 b.1
  simpa using hsorted

/-- Whether a quantity of tallies adds up. -/
def Additive (f : LineTally → Nat) : Prop :=
  ∀ a b, f (a.add b) = f a + f b

theorem Additive.foldl_add {f : LineTally → Nat} (hf : Additive f) (t : LineTally)
    (group : List (UInt16 × LineTally)) :
  f (group.foldl (fun t entry => t.add entry.2) t) = f t + (group.map fun entry => f entry.2).sum
  := by
  induction group generalizing t with
  | nil => simp
  | cons entry group ih => rw [List.foldl_cons, ih, hf, List.map_cons, List.sum_cons, Nat.add_assoc]

/-- What adds up is for a line the sum over all entries about it. -/
theorem sum_byLine (h : (line, t) ∈ byLine entries) {f : LineTally → Nat} (hf : Additive f) :
  f t = ((entries.filter (·.1 == line)).map fun entry => f entry.2).sum
  := by
  rw [byLine] at h
  obtain ⟨group, hgroup, htotal⟩ := List.mem_filterMap.mp h
  have hperm : (entries.mergeSort fun a b => a.1 ≤ b.1).Perm entries := List.mergeSort_perm _ _
  have hsorted := pairwise_mergeSort entries
  cases group with
  | nil => cases htotal
  | cons first group =>
    obtain ⟨rfl, rfl⟩ := Prod.mk.inj (Option.some.inj htotal)
    rw [← ((hperm.filter _).map _).sum_eq,
      eq_filter_of_mem_splitBy hsorted hgroup List.mem_cons_self, hf.foldl_add]
    simp


/-- Every entry is told of. -/
theorem exists_mem_byLine (h : (line, t) ∈ entries) :
  ∃ t', (line, t') ∈ byLine entries
  := by
  have hmem : (line, t) ∈ entries.mergeSort fun a b => a.1 ≤ b.1 := List.mem_mergeSort.mpr h
  rw [← List.flatten_splitBy (fun a b => a.1 == b.1) (entries.mergeSort _)] at hmem
  obtain ⟨group, hgroup, hmem⟩ := List.mem_flatten.mp hmem
  cases group with
  | nil => cases hmem
  | cons first group =>
    obtain ⟨line', t'⟩ := first
    obtain rfl : line = line' := fst_eq_of_mem_splitBy hgroup hmem List.mem_cons_self
    exact ⟨_, List.mem_filterMap.mpr ⟨_, hgroup, rfl⟩⟩

/-- Sums of which one is smaller entry by entry are equal only when all entries are. -/
theorem sum_eq_sum_iff {f g : LineTally → Nat} {group : List (UInt16 × LineTally)}
    (hle : ∀ entry ∈ group, f entry.2 ≤ g entry.2) :
  (group.map fun entry => f entry.2).sum = (group.map fun entry => g entry.2).sum
    ↔ ∀ entry ∈ group, f entry.2 = g entry.2
  := by
  induction group with
  | nil => simp
  | cons entry group ih =>
    obtain ⟨hentry, hgroup⟩ := List.forall_mem_cons.mp hle
    have hsum := List.sum_le_sum hgroup
    rw [List.map_cons, List.map_cons, List.sum_cons, List.sum_cons, List.forall_mem_cons,
      ← ih hgroup]
    omega

/-- Of two quantities that add up the smaller one reaches the larger exactly when it does in every
entry about the line. -/
theorem eq_iff (h : (line, t) ∈ byLine entries) {f g : LineTally → Nat} (hf : Additive f)
    (hg : Additive g) (hle : ∀ t', (line, t') ∈ entries → f t' ≤ g t') :
  f t = g t ↔ ∀ t', (line, t') ∈ entries → f t' = g t'
  := by
  rw [sum_byLine h hf, sum_byLine h hg, sum_eq_sum_iff]
  · simp only [List.mem_filter, beq_iff_eq]
    constructor
    · intro heq t' hmem
      apply heq _ ⟨hmem, rfl⟩
    · rintro heq ⟨_, t'⟩ ⟨hmem, rfl⟩
      apply heq t' hmem
  · simp only [List.mem_filter, beq_iff_eq]
    rintro ⟨_, t'⟩ ⟨hmem, rfl⟩
    apply hle t' hmem

/-- A quantity that adds up is 0 for a line exactly when it is in every entry about the line. -/
theorem eq_zero_iff (h : (line, t) ∈ byLine entries) {f : LineTally → Nat} (hf : Additive f) :
  f t = 0 ↔ ∀ t', (line, t') ∈ entries → f t' = 0
  := by
  simpa only [eq_comm] using
    eq_iff h (f := fun _ => 0) (fun _ _ => rfl) hf fun _ _ => Nat.zero_le _

end LineTally

/-! ## What counts for a line -/

namespace ClassRecord

variable {r : ClassRecord} {counts : Array UInt64} {index : Nat} {line : UInt16} {t : LineTally}

/-- Whether no probe that accounts for `line` in the method at position `index` has counted. -/
def Unreached (r : ClassRecord) (counts : Array UInt64) (index : Nat) (line : UInt16) : Prop :=
  ∀ p ∈ r.probes, p.method = index → line ∈ p.lines → countOf counts p.probe = 0

/-- Whether a branch on `line` of the method at position `index` leads to a probe that has
counted. -/
def OutcomeReached (r : ClassRecord) (counts : Array UInt64) (index : Nat) (line : UInt16) :
    Prop :=
  ∃ site ∈ r.branches, site.method = index ∧ site.line = some line
    ∧ ∃ probe ∈ site.successors, countOf counts probe ≠ 0

/-- Whether every probe that accounts for `line` and every outcome of a branch on it has counted. -/
structure FullyReached (r : ClassRecord) (counts : Array UInt64) (index : Nat) (line : UInt16) :
    Prop where
  probes : ∀ p ∈ r.probes, p.method = index → line ∈ p.lines → countOf counts p.probe ≠ 0
  outcomes : ∀ site ∈ r.branches, site.method = index → site.line = some line →
    ∀ probe ∈ site.successors, countOf counts probe ≠ 0

/-- Whether the status of a line tells of its probes, and of the outcomes of branches on it. -/
structure StatusTells (r : ClassRecord) (counts : Array UInt64) (index : Nat) (line : UInt16)
    (status : LineStatus) : Prop where
  missed_iff : status = .missed
    ↔ r.Unreached counts index line ∧ ¬ r.OutcomeReached counts index line
  covered_iff : status = .covered
    ↔ ¬ (r.Unreached counts index line ∧ ¬ r.OutcomeReached counts index line)
      ∧ r.FullyReached counts index line
  /-- The line is missed as its own probes tell, but for code behind a branch on it that was
  reached from elsewhere. -/
  agrees_iff : (status = .missed ↔ r.Unreached counts index line)
    ↔ ¬ (r.Unreached counts index line ∧ r.OutcomeReached counts index line)

/-- What is known about the lines of the method at position `index`. -/
def tallies (r : ClassRecord) (counts : Array UInt64) (index : Nat) : List (UInt16 × LineTally) :=
  probeTallies counts (r.methodProbes index)
    ++ branchTallies ((r.branches.filter (·.method == index)).map (branchCoverage counts))

theorem mem_tallies :
  (line, t) ∈ r.tallies counts index
    ↔ (∃ p ∈ r.probes, p.method = index ∧ line ∈ p.lines ∧ .ofProbe (countOf counts p.probe) = t)
      ∨ ∃ site ∈ r.branches, site.method = index ∧ site.line = some line
        ∧ .ofBranch (branchCoverage counts site) = t
  := by
  simp [tallies, probeTallies, branchTallies, methodProbes, branchCoverage, and_assoc]

/-- What holds of all that is known about a line. -/
theorem forall_tallies {P : LineTally → Prop} :
  (∀ t, (line, t) ∈ r.tallies counts index → P t)
    ↔ (∀ p ∈ r.probes, p.method = index → line ∈ p.lines → P (.ofProbe (countOf counts p.probe)))
      ∧ ∀ site ∈ r.branches, site.method = index → site.line = some line →
        P (.ofBranch (branchCoverage counts site))
  := by
  simp only [mem_tallies]
  constructor
  · intro h
    exact ⟨fun p hp hmethod hline => h _ (.inl ⟨p, hp, hmethod, hline, rfl⟩),
      fun site hsite hmethod hline => h _ (.inr ⟨site, hsite, hmethod, hline, rfl⟩)⟩
  · rintro ⟨hprobes, hbranches⟩ t
      (⟨p, hp, hmethod, hline, rfl⟩ | ⟨site, hsite, hmethod, hline, rfl⟩)
    · apply hprobes p hp hmethod hline
    · apply hbranches site hsite hmethod hline

section Line

variable (h : (line, t) ∈ LineTally.byLine (r.tallies counts index))

include h

theorem probesHit_eq_zero_iff :
  t.probesHit = 0 ↔ r.Unreached counts index line
  := by
  rw [LineTally.eq_zero_iff h (f := LineTally.probesHit) fun _ _ => rfl, forall_tallies]
  simp [LineTally.ofProbe, LineTally.ofBranch, Unreached]

theorem branchesCovered_eq_zero_iff :
  t.branchesCovered = 0 ↔ ¬ r.OutcomeReached counts index line
  := by
  rw [LineTally.eq_zero_iff h (f := LineTally.branchesCovered) fun _ _ => rfl, forall_tallies]
  simp [LineTally.ofProbe, LineTally.ofBranch, OutcomeReached, branchCoverage]

theorem probesHit_eq_iff :
  t.probesHit = t.probesTotal
    ↔ ∀ p ∈ r.probes, p.method = index → line ∈ p.lines → countOf counts p.probe ≠ 0
  := by
  rw [LineTally.eq_iff h (f := LineTally.probesHit) (g := LineTally.probesTotal)
    (fun _ _ => rfl) (fun _ _ => rfl), forall_tallies]
  · simp [LineTally.ofProbe, LineTally.ofBranch, Nat.pos_iff_ne_zero]
  · rw [forall_tallies]
    constructor
    · intro p _ _ _
      rw [LineTally.ofProbe]
      split
      · apply Nat.le_refl
      · apply Nat.zero_le
    · intro site _ _ _
      apply Nat.le_refl

theorem branchesCovered_eq_iff :
  t.branchesCovered = t.branchesTotal
    ↔ ∀ site ∈ r.branches, site.method = index → site.line = some line →
      ∀ probe ∈ site.successors, countOf counts probe ≠ 0
  := by
  rw [LineTally.eq_iff h (f := LineTally.branchesCovered) (g := LineTally.branchesTotal)
    (fun _ _ => rfl) (fun _ _ => rfl), forall_tallies]
  · simp [LineTally.ofProbe, LineTally.ofBranch, branchCoverage, Nat.pos_iff_ne_zero]
  · rw [forall_tallies]
    simp [LineTally.ofProbe, LineTally.ofBranch, branchCoverage, List.countP_le_length]

/-- The status of a line tells of what has counted for it. -/
theorem statusTells_coverage :
  r.StatusTells counts index line t.coverage.status
  := by
  have hmissed : t.coverage.status = .missed
      ↔ r.Unreached counts index line ∧ ¬ r.OutcomeReached counts index line := by
    rw [← probesHit_eq_zero_iff h, ← branchesCovered_eq_zero_iff h, LineTally.coverage,
      LineStatus.missed_iff]
  have hfull : r.FullyReached counts index line
      ↔ t.probesHit = t.probesTotal ∧ t.branchesCovered = t.branchesTotal := by
    rw [probesHit_eq_iff h, branchesCovered_eq_iff h]
    exact ⟨fun hfull => ⟨hfull.1, hfull.2⟩, fun hfull => ⟨hfull.1, hfull.2⟩⟩
  exact {
    missed_iff := hmissed
    covered_iff := by
      rw [hfull, ← hmissed, LineTally.coverage, LineStatus.covered_iff, LineStatus.missed_iff]
    agrees_iff := by
      rw [hmissed]
      tauto }

end Line

/-- The lines of a method that a report tells of. -/
theorem mem_lines_iff {method : MethodCoverage} {coverage : LineCoverage}
    (hmethod : (r.coverage counts).methods[index]? = some method) :
  (line, coverage) ∈ method.lines
    ↔ ∃ t, (line, t) ∈ LineTally.byLine (r.tallies counts index) ∧ t.coverage = coverage
  := by
  simp only [ClassRecord.coverage, List.getElem?_mapIdx, Option.map_eq_some_iff] at hmethod
  obtain ⟨m, -, rfl⟩ := hmethod
  simp [methodCoverage, tallies]

end ClassRecord

/-! ## Reports -/

namespace CoverageReport

/-- The report on a single class. -/
theorem classes_aggregate_singleton (r : ClassRecord) (segments : List Segment) :
  (aggregate [r] segments).classes
    = [(r.identity.name, r.coverage (countsFor segments r.identity))]
  := rfl

end CoverageReport

namespace ClassPlan

variable {plan : ClassPlan} {policy : Policy} {c : ClassFile}

/-- Branches are followed only when every block gets a probe. -/
theorem branches_eq_nil (h : ofClass policy c = .ok plan)
    (hgranularity : policy.granularity = .line) :
  plan.branches = []
  := by
  rw [(eq_of_ofClass h).2.2.2, List.eq_nil_iff_forall_not_mem, MethodOutcome.ofClass_eq]
  intro site hsite
  obtain ⟨i, planned, ⟨outcome, houtcome, hplanned⟩, hsite⟩ :=
    (MethodOutcome.mem_flatMap_iff _).mp hsite
  obtain ⟨m, first, -, rfl⟩ := MethodOutcome.exists_of_getElem?_outcomesFrom houtcome
  obtain ⟨code, -, hofCode⟩ := MethodOutcome.exists_ofCode_of_planned hplanned
  simp only [PlannedMethod.ofCode, bind_eq_ok, pure_eq_ok] at hofCode
  obtain ⟨-, -, layout, -, rfl⟩ := hofCode
  simp [MethodPlan.branchSites, hgranularity] at hsite

/-- A line is told to be missed exactly when neither a probe that accounts for it nor a probe behind
a branch on it has counted.  That is whether its own probes have not, unless code behind a branch on
the line was reached from elsewhere. -/
theorem statusTells_of_aggregate (hplan : ofClass policy c = .ok plan) {identity : ClassIdentity}
    {segments : List Segment} {key : String} {cls : ClassCoverage}
    (hclass : (key, cls) ∈ (CoverageReport.aggregate [plan.toRecord identity] segments).classes)
    {index : Nat} {method : MethodCoverage} (hmethod : cls.methods[index]? = some method)
    {line : UInt16} {coverage : LineCoverage} (hline : (line, coverage) ∈ method.lines) :
  (plan.toRecord identity).StatusTells (CoverageReport.countsFor segments identity) index line
      coverage.status
    ∧ (policy.granularity = .line →
        ¬ (plan.toRecord identity).OutcomeReached (CoverageReport.countsFor segments identity)
          index line)
  := by
  rw [CoverageReport.classes_aggregate_singleton, List.mem_singleton] at hclass
  obtain ⟨-, rfl⟩ := Prod.mk.inj hclass
  obtain ⟨t, ht, rfl⟩ := (ClassRecord.mem_lines_iff hmethod).mp hline
  use ClassRecord.statusTells_coverage ht
  rintro hgranularity ⟨site, hsite, -⟩
  rw [show (plan.toRecord identity).branches = plan.branches from rfl,
    branches_eq_nil hplan hgranularity] at hsite
  cases hsite

end ClassPlan

/-! ## A class with branches that lead to the same instructions -/

namespace ClassFile

/-- A body with two branches that lead to the same instructions. -/
def crossBody : Code where
  maxStack := 1
  maxLocals := 1
  instructions := [⟨0, .plain 0x1a []⟩, ⟨1, .branch 0x9a 8⟩, ⟨4, .plain 0x1a []⟩,
    ⟨5, .branch 0x99 9⟩, ⟨8, .plain 0x00 []⟩, ⟨9, .methodReturn 0xb1⟩]
  handlers := []
  attributes := [.lineNumbers 7 [⟨0, 1⟩, ⟨4, 2⟩, ⟨8, 3⟩, ⟨9, 4⟩]]

/-- A method with the body `crossBody`. -/
def crossMethod : Method := ⟨9, 3, 4, "f", "(I)V", [.code 5 crossBody]⟩

/-- A class with the method `crossMethod`. -/
def crossClass : ClassFile :=
  { jumpClass with
    pool := ⟨#[.unusable, .utf8 [65], .classRef 1, .utf8 [102], .utf8 [40, 73, 41, 86],
      .utf8 MethodAttribute.codeName, .utf8 Code.stackMapTable, .utf8 Code.lineNumberTable]⟩
    methods := [crossMethod] }

theorem wellFormed_crossBody :
  crossBody.WellFormed crossClass.pool
  where
    instructions := by decide +kernel
    handlers_le := by decide
    handlers := by simp [crossBody]
    attributes_le := by decide
    attributes := by
      simp only [crossBody, List.forall_mem_cons, List.not_mem_nil, false_implies, implies_true,
        and_true]
      refine ⟨Code.lineNumberTable, rfl, rfl, by decide, ?_⟩
      simp only [Code.lineFits_boundaries]
      decide

theorem wellFormed_crossClass :
  crossClass.WellFormed
  := {
    wellFormed_jumpClass with
    pool := ⟨⟨crossClass.pool.entries.toList.tail, by decide, by decide +kernel⟩, by decide,
      by decide +kernel⟩
    name := by decide +kernel
    fields := by simp [crossClass, jumpClass]
    methods_le := by decide
    methods := by
      intro m hm
      obtain rfl := List.mem_singleton.mp hm
      exact Method.wellFormed_of_body (by decide +kernel) (by decide +kernel) rfl rfl
        wellFormed_crossBody
    attributes := by simp [crossClass, jumpClass] }

theorem read_form_crossClass :
  read crossClass.form = .ok crossClass
  := (read_form_iff wellFormed_crossClass).mpr (lengthsFit_of_forms (by decide +kernel))

/-- The blocks of `crossBody` with the given successors. -/
def crossBlocks (first second third : List Edge) : Array BasicBlock :=
  #[{ id := 0, start := 0, first := 0, count := 2, last := ⟨1, .branch 0x9a 8⟩, lines := [1],
      successors := first },
    { id := 1, start := 4, first := 2, count := 2, last := ⟨5, .branch 0x99 9⟩, lines := [2],
      successors := second },
    { id := 2, start := 8, first := 4, count := 1, last := ⟨8, .plain 0x00 []⟩, lines := [3],
      successors := third },
    { id := 3, start := 9, first := 5, count := 1, last := ⟨9, .methodReturn 0xb1⟩, lines := [4],
      successors := [] }]

/-- The lines of instructions whose lines are in order. -/
theorem linesOf_eq {index : LineIndex} {insns : List Instruction} (lines : List UInt16)
    (h : insns.filterMap (fun insn => index.lineAt? insn.offset) = lines)
    (hsorted : lines.Pairwise (· ≤ ·)) :
  index.linesOf insns = lines.eraseReps
  := by
  rw [LineIndex.linesOf, h, List.mergeSort_of_pairwise (by simpa using hsorted)]

theorem outline_crossBody :
  FlowGraph.outline crossBody = crossBlocks [] [] []
  := by
  have hindex : LineIndex.ofCode crossBody = ⟨#[⟨0, 1⟩, ⟨4, 2⟩, ⟨8, 3⟩, ⟨9, 4⟩]⟩ := by
    simp only [LineIndex.ofCode, Code.lineEntries, crossBody]
    rw [List.mergeSort_of_pairwise (by decide)]
    rfl
  have hruns : FlowGraph.runs (.ofList (FlowGraph.leaders crossBody)) crossBody.instructions
      = [[⟨0, .plain 0x1a []⟩, ⟨1, .branch 0x9a 8⟩], [⟨4, .plain 0x1a []⟩, ⟨5, .branch 0x99 9⟩],
        [⟨8, .plain 0x00 []⟩], [⟨9, .methodReturn 0xb1⟩]] := by
    rw [FlowGraph.runs_ofList]
    decide +kernel
  rw [FlowGraph.outline, hindex, hruns]
  simp only [List.foldl_cons, List.foldl_nil, FlowGraph.pushRun, List.head?_cons,
    List.getLast?_cons_cons, List.getLast?_singleton]
  rw [linesOf_eq [1, 1] (by decide +kernel) (by decide),
    linesOf_eq [2, 2] (by decide +kernel) (by decide),
    linesOf_eq [3] (by decide +kernel) (by decide),
    linesOf_eq [4] (by decide +kernel) (by decide)]
  rfl

theorem ofCode_crossBody :
  FlowGraph.ofCode crossBody = ⟨crossBlocks [⟨2, .branchTaken⟩, ⟨1, .fallthrough⟩]
    [⟨3, .branchTaken⟩, ⟨2, .fallthrough⟩] [⟨3, .fallthrough⟩]⟩
  := by
  rw [FlowGraph.ofCode, outline_crossBody]
  decide +kernel

/-- The record of `crossClass`. -/
def crossRecord (identity : ClassIdentity) : ClassRecord where
  identity
  sourceFile := none
  methods := [⟨"f", "(I)V", .instrumented⟩]
  probes := [⟨0, 0, 0, .conditional, [1]⟩, ⟨1, 0, 1, .conditional, [2]⟩,
    ⟨2, 0, 2, .fallthrough, [3]⟩, ⟨3, 0, 3, .methodReturn, [4]⟩]
  branches := [⟨0, 1, some 1, [2, 1]⟩, ⟨0, 5, some 2, [3, 2]⟩]

theorem exists_plan_crossClass :
  ∃ plan, ClassPlan.ofClass {} crossClass = .ok plan
    ∧ ∀ identity, plan.toRecord identity = crossRecord identity
  := by
  have hmethods : crossClass.methods = [crossMethod] := rfl
  have hcode : MethodOutcome.eligible {} crossClass.pool crossMethod = .ok crossBody := by
    decide +kernel
  have hplanned : (ClassPlan.ofClass {} crossClass).toOption.any fun plan =>
      decide (plan.sourceFile = none ∧ plan.methods = (crossRecord ⟨"A", 0⟩).methods
        ∧ plan.probes = (crossRecord ⟨"A", 0⟩).probes
        ∧ plan.branches = (crossRecord ⟨"A", 0⟩).branches) := by
    rw [ClassPlan.ofClass, MethodOutcome.ofClass_eq, hmethods]
    simp only [MethodOutcome.outcomesFrom, MethodOutcome.ofMethod, hcode, bind, Except.bind,
      PlannedMethod.ofCode, ofCode_crossBody]
    decide +kernel
  obtain ⟨plan, hplan, hparts⟩ := exists_ok_of_any hplanned
  obtain ⟨hsource, hmethods, hprobes, hbranches⟩ := of_decide_eq_true hparts
  use plan, hplan
  intro identity
  rw [ClassPlan.toRecord, hsource, hmethods, hprobes, hbranches]
  rfl

end ClassFile

namespace ClassPlan

open ClassFile

/-- What `crossClass` counts when the first branch skips the second. -/
def crossCounts : Array UInt64 := #[1, 0, 1, 1]

/-- The second line of `crossClass` is told of when it was skipped. -/
theorem exists_line_crossClass :
  ∃ plan cls method coverage, ofClass {} crossClass = .ok plan
    ∧ plan.toRecord ⟨"A", 0⟩ = crossRecord ⟨"A", 0⟩
    ∧ ("A", cls) ∈ (CoverageReport.aggregate [plan.toRecord ⟨"A", 0⟩]
      [⟨⟨"A", 0⟩, crossCounts⟩]).classes
    ∧ cls.methods[0]? = some method ∧ ((2 : UInt16), coverage) ∈ method.lines
  := by
  obtain ⟨plan, hplan, hrecord⟩ := exists_plan_crossClass
  have hmethod : ((crossRecord ⟨"A", 0⟩).coverage crossCounts).methods[0]?
      = some ((crossRecord ⟨"A", 0⟩).methodCoverage crossCounts 0 ⟨"f", "(I)V", .instrumented⟩) :=
    rfl
  have htally : ((2 : UInt16), LineTally.ofProbe 0)
      ∈ (crossRecord ⟨"A", 0⟩).tallies crossCounts 0 := by
    decide +kernel
  obtain ⟨t, ht⟩ := LineTally.exists_mem_byLine htally
  have hline := (ClassRecord.mem_lines_iff hmethod).mpr ⟨t, ht, rfl⟩
  refine ⟨plan, _, _, _, hplan, hrecord _, ?_, hmethod, hline⟩
  rw [CoverageReport.classes_aggregate_singleton, hrecord]
  apply List.mem_singleton_self

/-- The statuses of lines of `crossClass`. -/
theorem statusTells_of_aggregate_crossClass :
  ∃ plan cls method coverage, ofClass {} crossClass = .ok plan
    ∧ ("A", cls) ∈ (CoverageReport.aggregate [plan.toRecord ⟨"A", 0⟩]
      [⟨⟨"A", 0⟩, crossCounts⟩]).classes
    ∧ cls.methods[0]? = some method ∧ ((2 : UInt16), coverage) ∈ method.lines
    ∧ (plan.toRecord ⟨"A", 0⟩).StatusTells crossCounts 0 2 coverage.status
  := by
  obtain ⟨plan, cls, method, coverage, hplan, -, hclass, hmethod, hline⟩ := exists_line_crossClass
  exact ⟨plan, cls, method, coverage, hplan, hclass, hmethod, hline,
    (statusTells_of_aggregate hplan hclass hmethod hline).1⟩

/-- The second line of `crossClass` was skipped, and yet is told to be partially covered, for the
code behind its branch was reached from the first line. -/
theorem partiallyCovered_of_unreached :
  ∃ plan cls method coverage, read crossClass.form = .ok crossClass
    ∧ ofClass {} crossClass = .ok plan
    ∧ ("A", cls) ∈ (CoverageReport.aggregate [plan.toRecord ⟨"A", 0⟩]
      [⟨⟨"A", 0⟩, crossCounts⟩]).classes
    ∧ cls.methods[0]? = some method ∧ ((2 : UInt16), coverage) ∈ method.lines
    ∧ (plan.toRecord ⟨"A", 0⟩).Unreached crossCounts 0 2
    ∧ coverage.status = .partiallyCovered
  := by
  obtain ⟨plan, cls, method, coverage, hplan, hrecord, hclass, hmethod, hline⟩ :=
    exists_line_crossClass
  have hcls : cls = (crossRecord ⟨"A", 0⟩).coverage crossCounts := by
    rw [CoverageReport.classes_aggregate_singleton, List.mem_singleton, hrecord] at hclass
    apply (Prod.mk.inj hclass).2
  obtain ⟨t, ht, rfl⟩ := (ClassRecord.mem_lines_iff (hcls ▸ hmethod)).mp hline
  have htells := ClassRecord.statusTells_coverage ht
  have hunreached : (crossRecord ⟨"A", 0⟩).Unreached crossCounts 0 2 := by
    rw [ClassRecord.Unreached]
    decide +kernel
  have houtcome : (crossRecord ⟨"A", 0⟩).OutcomeReached crossCounts 0 2 := by
    use ⟨0, 5, some 2, [3, 2]⟩, by decide +kernel, rfl, rfl, 2, by decide +kernel
    decide +kernel
  have hnotMissed : t.coverage.status ≠ .missed := by
    rw [ne_eq, htells.missed_iff]
    exact fun hmissed => hmissed.2 houtcome
  have hnotCovered : t.coverage.status ≠ .covered := by
    rw [ne_eq, htells.covered_iff]
    intro hcovered
    apply hcovered.2.probes ⟨1, 0, 1, .conditional, [2]⟩ (by decide +kernel) rfl (by decide)
    apply hunreached ⟨1, 0, 1, .conditional, [2]⟩ (by decide +kernel) rfl (by decide)
  refine ⟨plan, cls, method, _, read_form_crossClass, hplan, hclass, hmethod, hline, ?_, ?_⟩
  · rw [hrecord]
    apply hunreached
  · cases hstatus : t.coverage.status with
    | covered => exact absurd hstatus hnotCovered
    | partiallyCovered => rfl
    | missed => exact absurd hstatus hnotMissed

end ClassPlan

end JvmCoverage
