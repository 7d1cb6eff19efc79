import JvmCoverage.Proofs.LineStatus
import JvmCoverage.Proofs.Totals
import Mathlib.Data.List.Forall2

/-!
# Coverage grows with the counters

What the counters tell about lines comes from sources that do not depend on the counters
(`ClassRecord.sources`), so it is grouped alike whatever the counters are
(`LineTally.related_byLine`).  Hence from counters to greater counters a report keeps its classes,
methods, lines, branches and totals, and tells of nothing that it was reached less
(`CoverageReport.grows_aggregate`).  Then the totals grow as well, for what is summed up grows part
by part (`CoverageSummary.grows_ofClasses`).
-/

namespace JvmCoverage

/-! ## Lists of related things -/

section Lists

variable {α β γ : Type} {R : α → β → Prop} {as : List α} {bs : List β}

theorem forall₂_map_self {f : γ → α} {g : γ → β} {cs : List γ} :
  List.Forall₂ R (cs.map f) (cs.map g) ↔ ∀ c ∈ cs, R (f c) (g c)
  := by
  rw [List.forall₂_map_left_iff, List.forall₂_map_right_iff, List.forall₂_same]

theorem map_eq_of_forall₂ {f : α → γ} {g : β → γ} (h : List.Forall₂ R as bs)
    (heq : ∀ a b, R a b → f a = g b) :
  as.map f = bs.map g
  := by
  rw [← List.forall₂_eq_eq_eq, List.forall₂_map_left_iff, List.forall₂_map_right_iff]
  apply h.imp heq

theorem countP_le_of_forall₂ {p : α → Bool} {q : β → Bool} (h : List.Forall₂ R as bs)
    (himp : ∀ a b, R a b → p a → q b) :
  as.countP p ≤ bs.countP q
  := by
  induction h with
  | nil => apply Nat.le_refl
  | @cons a b as bs hab _ ih =>
    by_cases ha : p a
    · rw [List.countP_cons_of_pos ha, List.countP_cons_of_pos (himp a b hab ha)]
      apply Nat.succ_le_succ ih
    · rw [List.countP_cons_of_neg ha]
      apply ih.trans ((List.sublist_cons_self b bs).countP_le)

/-- Runs of what things are mapped to are the runs of the things. -/
theorem splitBy_map (f : α → β) (r : β → β → Bool) (as : List α) :
  (as.map f).splitBy r = (as.splitBy fun a b => r (f a) (f b)).map (List.map f)
  := by
  rw [List.splitBy_eq_iff]
  refine ⟨?_, ?_, ?_, ?_⟩
  · rw [← List.map_flatten, List.flatten_splitBy]
  · rw [List.mem_map]
    rintro ⟨run, hrun, hnil⟩
    rw [List.map_eq_nil_iff.mp hnil] at hrun
    apply List.nil_notMem_splitBy _ _ hrun
  · intro run hrun
    obtain ⟨run', hrun', rfl⟩ := List.mem_map.mp hrun
    rw [List.isChain_map]
    apply List.isChain_of_mem_splitBy hrun'
  · rw [List.isChain_map]
    apply (List.isChain_getLast_head_splitBy _ as).imp
    rintro run run' ⟨hne, hne', hr⟩
    refine ⟨by simpa using hne, by simpa using hne', ?_⟩
    rw [List.getLast_map, List.head_map]
    apply hr

end Lists

namespace Ordered

variable {κ α β : Type} {R : α → β → Prop} {entries : List (κ × α)} {entries' : List (κ × β)}

/-- Whether the lists have the same keys, with related values. -/
def Related (R : α → β → Prop) (entries : List (κ × α)) (entries' : List (κ × β)) : Prop :=
  List.Forall₂ (fun entry entry' => entry.1 = entry'.1 ∧ R entry.2 entry'.2) entries entries'

variable [DecidableEq κ] {a : α} {b : β}

theorem Related.lookup (h : Related R entries entries') (key : κ) :
  Option.Rel R (lookup key entries) (lookup key entries')
  := by
  induction h with
  | nil => exact .none
  | @cons entry entry' entries entries' hentry _ ih =>
    obtain ⟨other, a⟩ := entry
    obtain ⟨_, b⟩ := entry'
    obtain ⟨rfl, hab⟩ := hentry
    rw [Ordered.lookup, Ordered.lookup]
    split
    · exact .some hab
    · exact ih

theorem Related.insert (h : Related R entries entries') (before : κ → κ → Bool) (key : κ)
    (hab : R a b) :
  Related R (insert before key a entries) (insert before key b entries')
  := by
  induction h with
  | nil => exact .cons ⟨rfl, hab⟩ .nil
  | @cons entry entry' entries entries' hentry htail ih =>
    obtain ⟨other, a'⟩ := entry
    obtain ⟨_, b'⟩ := entry'
    obtain ⟨rfl, hab'⟩ := hentry
    rw [Ordered.insert, Ordered.insert]
    split
    · exact .cons ⟨rfl, hab⟩ htail
    split
    · exact .cons ⟨rfl, hab⟩ (.cons ⟨rfl, hab'⟩ htail)
    · exact .cons ⟨rfl, hab'⟩ ih

end Ordered

/-! ## Lines -/

namespace LineStatus

/-- How much of a line was reached, from missed over partially covered to covered. -/
def rank : LineStatus → Nat
  | missed => 0
  | partiallyCovered => 1
  | covered => 2

/-- The status does not move down when more is reached of as much. -/
theorem rank_of_le {probesHit probesHit' probesTotal branchesCovered branchesCovered'
    branchesTotal : Nat} (hprobes : probesHit ≤ probesHit') (hprobes' : probesHit' ≤ probesTotal)
    (hbranches : branchesCovered ≤ branchesCovered')
    (hbranches' : branchesCovered' ≤ branchesTotal) :
  (of probesHit probesTotal branchesCovered branchesTotal).rank
    ≤ (of probesHit' probesTotal branchesCovered' branchesTotal).rank
  := by
  cases hstatus : of probesHit probesTotal branchesCovered branchesTotal with
  | missed => apply Nat.zero_le
  | partiallyCovered =>
    have hreached : ¬ (probesHit = 0 ∧ branchesCovered = 0) := by
      intro hzero
      rw [missed_iff.mpr hzero] at hstatus
      cases hstatus
    cases hstatus' : of probesHit' probesTotal branchesCovered' branchesTotal with
    | missed =>
      obtain ⟨hprobesEq, hbranchesEq⟩ := missed_iff.mp hstatus'
      omega
    | _ => decide
  | covered =>
    obtain ⟨hreached, hprobesEq, hbranchesEq⟩ := covered_iff.mp hstatus
    have hcovered : of probesHit' probesTotal branchesCovered' branchesTotal = covered :=
      covered_iff.mpr (by omega)
    rw [hcovered]

end LineStatus

/-- Whether a line in the second state was reached at least as much as in the first. -/
structure LineCoverage.Grows (c c' : LineCoverage) : Prop where
  hits_le : c.hits ≤ c'.hits
  status_le : c.status.rank ≤ c'.status.rank
  probesHit_le : c.probesHit ≤ c'.probesHit
  probesTotal_eq : c.probesTotal = c'.probesTotal
  branchesCovered_le : c.branchesCovered ≤ c'.branchesCovered
  branchesTotal_eq : c.branchesTotal = c'.branchesTotal

/-- Whether of a line no more was reached than there is. -/
structure LineCoverage.Bounded (c : LineCoverage) : Prop where
  probesHit_le : c.probesHit ≤ c.probesTotal
  branchesCovered_le : c.branchesCovered ≤ c.branchesTotal

/-- Whether of a branch at least as many outcomes were reached in the second state. -/
structure BranchCoverage.Grows (b b' : BranchCoverage) : Prop where
  line_eq : b.line = b'.line
  offset_eq : b.offset = b'.offset
  covered_le : b.covered ≤ b'.covered
  total_eq : b.total = b'.total

namespace LineTally

variable {a a' b b' t t' : LineTally}

/-- Whether the second tally tells of the same, and of at least as much that was reached. -/
structure Grows (t t' : LineTally) : Prop where
  hits_le : t.hits ≤ t'.hits
  probesHit_le : t.probesHit ≤ t'.probesHit
  probesTotal_eq : t.probesTotal = t'.probesTotal
  branchesCovered_le : t.branchesCovered ≤ t'.branchesCovered
  branchesTotal_eq : t.branchesTotal = t'.branchesTotal

/-- Whether a tally tells of no more that was reached than there is. -/
structure Bounded (t : LineTally) : Prop where
  probesHit_le : t.probesHit ≤ t.probesTotal
  branchesCovered_le : t.branchesCovered ≤ t.branchesTotal

theorem Grows.add (ha : a.Grows a') (hb : b.Grows b') :
  (a.add b).Grows (a'.add b')
  where
    hits_le := max_le_max ha.hits_le hb.hits_le
    probesHit_le := Nat.add_le_add ha.probesHit_le hb.probesHit_le
    probesTotal_eq := congrArg₂ _ ha.probesTotal_eq hb.probesTotal_eq
    branchesCovered_le := Nat.add_le_add ha.branchesCovered_le hb.branchesCovered_le
    branchesTotal_eq := congrArg₂ _ ha.branchesTotal_eq hb.branchesTotal_eq

theorem Bounded.add (ha : a.Bounded) (hb : b.Bounded) :
  (a.add b).Bounded
  where
    probesHit_le := Nat.add_le_add ha.probesHit_le hb.probesHit_le
    branchesCovered_le := Nat.add_le_add ha.branchesCovered_le hb.branchesCovered_le

theorem Grows.coverage (h : t.Grows t') (hbounded : t'.Bounded) :
  t.coverage.Grows t'.coverage
  where
    hits_le := h.hits_le
    status_le := by
      rw [LineTally.coverage, LineTally.coverage, h.probesTotal_eq, h.branchesTotal_eq]
      apply LineStatus.rank_of_le h.probesHit_le hbounded.probesHit_le h.branchesCovered_le
        hbounded.branchesCovered_le
    probesHit_le := h.probesHit_le
    probesTotal_eq := h.probesTotal_eq
    branchesCovered_le := h.branchesCovered_le
    branchesTotal_eq := h.branchesTotal_eq

theorem Bounded.coverage (h : t.Bounded) :
  t.coverage.Bounded
  := ⟨h.probesHit_le, h.branchesCovered_le⟩

theorem grows_ofProbe {hits hits' : Nat} (h : hits ≤ hits') :
  (ofProbe hits).Grows (ofProbe hits')
  where
    hits_le := h
    probesHit_le := by
      simp only [ofProbe]
      split <;> split <;> omega
    probesTotal_eq := rfl
    branchesCovered_le := Nat.le_refl _
    branchesTotal_eq := rfl

theorem bounded_ofProbe (hits : Nat) :
  (ofProbe hits).Bounded
  where
    probesHit_le := by
      simp only [ofProbe]
      split <;> decide
    branchesCovered_le := Nat.le_refl _

theorem grows_ofBranch {branch branch' : BranchCoverage} (h : branch.Grows branch') :
  (ofBranch branch).Grows (ofBranch branch')
  where
    hits_le := Nat.le_refl _
    probesHit_le := Nat.le_refl _
    probesTotal_eq := rfl
    branchesCovered_le := h.covered_le
    branchesTotal_eq := h.total_eq

theorem bounded_ofBranch {branch : BranchCoverage} (h : branch.covered ≤ branch.total) :
  (ofBranch branch).Bounded
  := ⟨Nat.le_refl _, h⟩

/-! ## Grouping -/

section Grouping

variable {α : Type} {R : LineTally → LineTally → Prop} {line : α → UInt16} {f g : α → LineTally}

/-- What sources tell is grouped as the sources are. -/
theorem byLine_map (line : α → UInt16) (f : α → LineTally) (sources : List α) :
  byLine (sources.map fun a => (line a, f a))
    = ((sources.mergeSort fun a b => line a ≤ line b).splitBy fun a b => line a == line b).filterMap
      fun group => total (group.map fun a => (line a, f a))
  := by
  rw [byLine, ← List.map_mergeSort (r := fun a b => line a ≤ line b) fun _ _ _ _ => rfl,
    splitBy_map, List.filterMap_map]
  rfl

/-- Relations between what sources tell carry over to what they tell together. -/
theorem rel_total (hadd : ∀ {a a' b b'}, R a a' → R b b' → R (a.add b) (a'.add b'))
    {group : List α} (h : ∀ a ∈ group, R (f a) (g a)) :
  Option.Rel (fun entry entry' => entry.1 = entry'.1 ∧ R entry.2 entry'.2)
    (total (group.map fun a => (line a, f a))) (total (group.map fun a => (line a, g a)))
  := by
  cases group with
  | nil => exact .none
  | cons first group =>
    obtain ⟨hfirst, hgroup⟩ := List.forall_mem_cons.mp h
    refine .some ⟨rfl, ?_⟩
    apply List.rel_foldl (R := fun entry entry' : UInt16 × LineTally => R entry.2 entry'.2)
    · exact fun _ _ ht _ _ hentry => hadd ht hentry
    · exact hfirst
    · exact forall₂_map_self.mpr hgroup

/-- Relations between what sources tell carry over to what is told of lines. -/
theorem related_byLine (hadd : ∀ {a a' b b'}, R a a' → R b b' → R (a.add b) (a'.add b'))
    {sources : List α} (h : ∀ a ∈ sources, R (f a) (g a)) :
  Ordered.Related R (byLine (sources.map fun a => (line a, f a)))
    (byLine (sources.map fun a => (line a, g a)))
  := by
  rw [byLine_map, byLine_map]
  apply List.rel_filterMap (R := fun group group' => group = group' ∧ ∀ a ∈ group, R (f a) (g a))
  · rintro group _ ⟨rfl, hgroup⟩
    exact rel_total hadd hgroup
  · rw [List.forall₂_same]
    intro group hgroup
    use rfl
    intro a ha
    have hmem := List.mem_flatten.mpr ⟨group, hgroup, ha⟩
    rw [List.flatten_splitBy, List.mem_mergeSort] at hmem
    apply h a hmem

end Grouping

end LineTally

/-! ## Methods -/

/-- Whether the second state of a method has the same lines and branches, each reached at least as
much. -/
structure MethodCoverage.Grows (m m' : MethodCoverage) : Prop where
  name_eq : m.name = m'.name
  descriptor_eq : m.descriptor = m'.descriptor
  status_eq : m.status = m'.status
  lines : Ordered.Related LineCoverage.Grows m.lines m'.lines
  branches : List.Forall₂ BranchCoverage.Grows m.branches m'.branches
  probesHit_le : m.probesHit ≤ m'.probesHit
  probesTotal_eq : m.probesTotal = m'.probesTotal

/-- Whether of a method no more was reached than there is. -/
structure MethodCoverage.Bounded (m : MethodCoverage) : Prop where
  lines : ∀ entry ∈ m.lines, entry.2.Bounded
  branches : ∀ b ∈ m.branches, b.covered ≤ b.total
  probesHit_le : m.probesHit ≤ m.probesTotal

/-- Whether every count of the second counters is at least as great.  A counter that there is not
counts 0. -/
def CountsGrow (counts counts' : Array UInt64) : Prop :=
  ∀ probe, ClassRecord.countOf counts probe ≤ ClassRecord.countOf counts' probe

theorem CountsGrow.refl (counts : Array UInt64) :
  CountsGrow counts counts
  := fun _ => Nat.le_refl _

namespace ClassRecord

variable {r : ClassRecord} {counts counts' : Array UInt64}

/-- What tells about the lines of the method at position `index`, for any counters. -/
def sources (r : ClassRecord) (index : Nat) : List (UInt16 × (Array UInt64 → LineTally)) :=
  ((r.methodProbes index).flatMap fun p =>
      p.lines.map fun line => (line, fun counts => .ofProbe (countOf counts p.probe)))
    ++ (r.branches.filter (·.method == index)).filterMap fun site =>
      site.line.map fun line => (line, fun counts => .ofBranch (branchCoverage counts site))

theorem tallies_eq (r : ClassRecord) (counts : Array UInt64) (index : Nat) :
  r.tallies counts index = (r.sources index).map fun source => (source.1, source.2 counts)
  := by
  simp only [tallies, sources, probeTallies, branchTallies, List.map_append, List.map_flatMap,
    List.map_filterMap, List.filterMap_map, List.map_map, Option.map_map]
  rfl

/-- Relations between what sources tell carry over to what is told of the lines of a method. -/
theorem related_tallies (r : ClassRecord) (counts counts' : Array UInt64) (index : Nat)
    {R : LineTally → LineTally → Prop}
    (hadd : ∀ {a a' b b'}, R a a' → R b b' → R (a.add b) (a'.add b'))
    (h : ∀ source ∈ r.sources index, R (source.2 counts) (source.2 counts')) :
  Ordered.Related R (LineTally.byLine (r.tallies counts index))
    (LineTally.byLine (r.tallies counts' index))
  := by
  rw [tallies_eq, tallies_eq]
  apply LineTally.related_byLine hadd h

/-- Of probes with greater counts no fewer have run. -/
theorem countP_le_of_grow {α : Type} (h : CountsGrow counts counts') (probe : α → Nat)
    (as : List α) :
  as.countP (fun a => 0 < countOf counts (probe a))
    ≤ as.countP fun a => 0 < countOf counts' (probe a)
  := by
  apply List.countP_mono_left
  intro a _ hpos
  simp only [decide_eq_true_eq] at hpos ⊢
  exact hpos.trans_le (h (probe a))

theorem grows_branchCoverage (h : CountsGrow counts counts') (site : BranchSite) :
  (branchCoverage counts site).Grows (branchCoverage counts' site)
  where
    line_eq := rfl
    offset_eq := rfl
    covered_le := countP_le_of_grow h (fun probe => probe) site.successors
    total_eq := rfl

theorem covered_le_total (counts : Array UInt64) (site : BranchSite) :
  (branchCoverage counts site).covered ≤ (branchCoverage counts site).total
  := List.countP_le_length

/-- A source tells of more when the counters are greater, and of no more than there is. -/
theorem grows_of_mem_sources (h : CountsGrow counts counts') {index : Nat}
    {source : UInt16 × (Array UInt64 → LineTally)} (hsource : source ∈ r.sources index) :
  (source.2 counts).Grows (source.2 counts') ∧ (source.2 counts').Bounded
  := by
  rcases List.mem_append.mp hsource with hprobe | hbranch
  · obtain ⟨p, -, hline⟩ := List.mem_flatMap.mp hprobe
    obtain ⟨line, -, rfl⟩ := List.mem_map.mp hline
    exact ⟨LineTally.grows_ofProbe (h p.probe), LineTally.bounded_ofProbe _⟩
  · obtain ⟨site, -, hline⟩ := List.mem_filterMap.mp hbranch
    obtain ⟨line, -, rfl⟩ := Option.map_eq_some_iff.mp hline
    exact ⟨LineTally.grows_ofBranch (grows_branchCoverage h site),
      LineTally.bounded_ofBranch (covered_le_total counts' site)⟩

theorem grows_methodCoverage (h : CountsGrow counts counts') (index : Nat) (m : MethodRecord) :
  (r.methodCoverage counts index m).Grows (r.methodCoverage counts' index m)
  where
    name_eq := rfl
    descriptor_eq := rfl
    status_eq := rfl
    lines := by
      have htallies := related_tallies r counts counts' index
        (R := fun t t' => t.Grows t' ∧ t'.Bounded) (fun ha hb => ⟨ha.1.add hb.1, ha.2.add hb.2⟩)
        fun source hsource => grows_of_mem_sources h hsource
      refine List.rel_map ?_ htallies
      rintro entry entry' ⟨hline, hgrows, hbounded⟩
      exact ⟨hline, hgrows.coverage hbounded⟩
    branches := forall₂_map_self.mpr fun site _ => grows_branchCoverage h site
    probesHit_le := countP_le_of_grow h ProbeRecord.probe (r.methodProbes index)
    probesTotal_eq := rfl

theorem bounded_methodCoverage (r : ClassRecord) (counts : Array UInt64) (index : Nat)
    (m : MethodRecord) :
  (r.methodCoverage counts index m).Bounded
  where
    lines := by
      have htallies := related_tallies r counts counts index (R := fun t _ => t.Bounded)
        (fun ha hb => ha.add hb)
        fun source hsource => (grows_of_mem_sources (.refl counts) hsource).2
      intro entry hentry
      obtain ⟨⟨line, t⟩, ht, rfl⟩ := List.mem_map.mp hentry
      exact (List.forall₂_same.mp htallies _ ht).2.coverage
    branches := by
      intro b hb
      obtain ⟨site, -, rfl⟩ := List.mem_map.mp hb
      apply covered_le_total
    probesHit_le := List.countP_le_length

end ClassRecord

/-! ## Classes -/

/-- Whether the second state of a class has the same methods, each reached at least as much. -/
structure ClassCoverage.Grows (c c' : ClassCoverage) : Prop where
  identity_eq : c.identity = c'.identity
  sourceFile_eq : c.sourceFile = c'.sourceFile
  executed_le : c.executed → c'.executed
  methods : List.Forall₂ MethodCoverage.Grows c.methods c'.methods

namespace ClassRecord

variable {counts counts' : Array UInt64}

theorem countOf_pos_iff {probe : Nat} :
  0 < countOf counts probe ↔ ∃ h : probe < counts.size, 0 < counts[probe]
  := by
  rw [countOf, ← UInt64.toNat_zero, ← UInt64.lt_iff_toNat_lt]
  rcases Nat.lt_or_ge probe counts.size with hlt | hge
  · simp [hlt]
  · simp [Nat.not_lt.mpr hge]

/-- A class was executed when one of its probes has counted. -/
theorem executed_coverage_iff {r : ClassRecord} :
  (r.coverage counts).executed ↔ ∃ probe, 0 < countOf counts probe
  := by
  simp only [coverage, Array.any_eq_true, countOf_pos_iff, decide_eq_true_eq]

theorem grows_coverage (h : CountsGrow counts counts') (r : ClassRecord) :
  (r.coverage counts).Grows (r.coverage counts')
  where
    identity_eq := rfl
    sourceFile_eq := rfl
    executed_le := by
      simp only [executed_coverage_iff]
      rintro ⟨probe, hpos⟩
      exact ⟨probe, hpos.trans_le (h probe)⟩
    methods := by
      simp only [coverage, List.mapIdx_eq_zipIdx_map]
      rw [forall₂_map_self]
      rintro ⟨m, index⟩ _
      apply grows_methodCoverage h

end ClassRecord

/-! ## Totals -/

namespace LineStatus

/-- Lines that were reached are those that were not missed. -/
theorem count_covered_add_count_partiallyCovered (statuses : List LineStatus) :
  statuses.count .covered + statuses.count .partiallyCovered
    = statuses.countP (· ≠ .missed)
  := by
  induction statuses with
  | nil => rfl
  | cons status statuses ih =>
    cases status <;> simp at ih ⊢ <;> omega

end LineStatus

namespace CoverageSummary

/-- Whether the second totals are of as much, and of at least as much that was reached. -/
structure Grows (s s' : CoverageSummary) : Prop where
  classes_eq : s.classes = s'.classes
  executedClasses_le : s.executedClasses ≤ s'.executedClasses
  methods_eq : s.methods = s'.methods
  instrumentedMethods_eq : s.instrumentedMethods = s'.instrumentedMethods
  linesTotal_eq : s.linesTotal = s'.linesTotal
  linesCovered_le : s.linesCovered ≤ s'.linesCovered
  linesReached_le : s.linesCovered + s.linesPartial ≤ s'.linesCovered + s'.linesPartial
  branchesTotal_eq : s.branchesTotal = s'.branchesTotal
  branchesCovered_le : s.branchesCovered ≤ s'.branchesCovered
  probesTotal_eq : s.probesTotal = s'.probesTotal
  probesHit_le : s.probesHit ≤ s'.probesHit

/-- Whether the totals are of no more that was reached than there is. -/
structure Bounded (s : CoverageSummary) : Prop where
  executedClasses_le : s.executedClasses ≤ s.classes
  instrumentedMethods_le : s.instrumentedMethods ≤ s.methods
  linesReached_le : s.linesCovered + s.linesPartial ≤ s.linesTotal
  branchesCovered_le : s.branchesCovered ≤ s.branchesTotal
  probesHit_le : s.probesHit ≤ s.probesTotal

section Totals

variable {α β : Type} {R : α → β → Prop} {as : List α} {bs : List β} {f : α → Nat} {g : β → Nat}

theorem total_le_of_forall₂ (h : List.Forall₂ R as bs) (hle : ∀ a b, R a b → f a ≤ g b) :
  total f as ≤ total g bs
  := by
  rw [total_eq_sum, total_eq_sum]
  apply List.Forall₂.sum_le_sum
  rw [List.forall₂_map_left_iff, List.forall₂_map_right_iff]
  apply h.imp hle

theorem total_eq_of_forall₂ (h : List.Forall₂ R as bs) (heq : ∀ a b, R a b → f a = g b) :
  total f as = total g bs
  := by
  rw [total_eq_sum, total_eq_sum, map_eq_of_forall₂ h heq]

theorem total_le_total {f g : α → Nat} (h : ∀ a ∈ as, f a ≤ g a) :
  total f as ≤ total g as
  := by
  rw [total_eq_sum, total_eq_sum]
  apply List.sum_le_sum h

end Totals

/-- Totals over classes that grow do. -/
theorem grows_ofClasses {classes classes' : List ClassCoverage}
    (h : List.Forall₂ ClassCoverage.Grows classes classes') :
  (ofClasses classes).Grows (ofClasses classes')
  := by
  have hmethods : List.Forall₂ MethodCoverage.Grows (classes.flatMap ClassCoverage.methods)
      (classes'.flatMap ClassCoverage.methods) :=
    List.rel_flatMap h fun _ _ hc => hc.methods
  have hlines : List.Forall₂ (fun status status' => status.rank ≤ status'.rank)
      ((classes.flatMap ClassCoverage.methods).flatMap fun m => m.lines.map (·.2.status))
      ((classes'.flatMap ClassCoverage.methods).flatMap fun m => m.lines.map (·.2.status)) :=
    List.rel_flatMap hmethods fun _ _ hm =>
      List.rel_map (fun _ _ hline => hline.2.status_le) hm.lines
  have hbranches : List.Forall₂ BranchCoverage.Grows
      ((classes.flatMap ClassCoverage.methods).flatMap MethodCoverage.branches)
      ((classes'.flatMap ClassCoverage.methods).flatMap MethodCoverage.branches) :=
    List.rel_flatMap hmethods fun _ _ hm => hm.branches
  exact {
    classes_eq := h.length_eq
    executedClasses_le := countP_le_of_forall₂ h fun _ _ hc => hc.executed_le
    methods_eq := hmethods.length_eq
    instrumentedMethods_eq := by
      apply Nat.le_antisymm
      · exact countP_le_of_forall₂ hmethods fun _ _ hm => by rw [hm.status_eq]; exact id
      · exact countP_le_of_forall₂ hmethods.flip fun _ _ hm => by rw [hm.status_eq]; exact id
    linesTotal_eq := hlines.length_eq
    linesCovered_le := by
      apply countP_le_of_forall₂ hlines
      intro status status' hle hcovered
      cases status <;> cases status' <;> simp_all [LineStatus.rank]
    linesReached_le := by
      rw [ofClasses, ofClasses]
      simp only [LineStatus.count_covered_add_count_partiallyCovered]
      apply countP_le_of_forall₂ hlines
      intro status status' hle hreached
      cases status <;> cases status' <;> simp_all [LineStatus.rank]
    branchesTotal_eq := total_eq_of_forall₂ hbranches fun _ _ hb => hb.total_eq
    branchesCovered_le := total_le_of_forall₂ hbranches fun _ _ hb => hb.covered_le
    probesTotal_eq := total_eq_of_forall₂ hmethods fun _ _ hm => hm.probesTotal_eq
    probesHit_le := total_le_of_forall₂ hmethods fun _ _ hm => hm.probesHit_le }

/-- Totals over classes of which no more was reached than there is are such totals. -/
theorem bounded_ofClasses {classes : List ClassCoverage}
    (h : ∀ c ∈ classes, ∀ m ∈ c.methods, m.Bounded) :
  (ofClasses classes).Bounded
  := by
  have hmethods : ∀ m ∈ classes.flatMap ClassCoverage.methods, m.Bounded := by
    intro m hm
    obtain ⟨c, hc, hm⟩ := List.mem_flatMap.mp hm
    apply h c hc m hm
  exact {
    executedClasses_le := List.countP_le_length
    instrumentedMethods_le := List.countP_le_length
    linesReached_le := by
      simp only [ofClasses, LineStatus.count_covered_add_count_partiallyCovered]
      apply List.countP_le_length
    branchesCovered_le := by
      apply total_le_total
      intro b hb
      obtain ⟨m, hm, hb⟩ := List.mem_flatMap.mp hb
      apply (hmethods m hm).branches b hb
    probesHit_le := total_le_total fun m hm => (hmethods m hm).probesHit_le }

end CoverageSummary

/-! ## Reports -/

/-- Whether the second counters are of the same class and no count is less.  A counter that there is
not counts 0. -/
structure Segment.Grows (s s' : Segment) : Prop where
  identity_eq : s.identity = s'.identity
  count_le : ∀ probe, s.count probe ≤ s'.count probe

/-- No counters are less than those of which none has counted. -/
theorem Segment.grows_fresh (identity : ClassIdentity) (probes : Nat) (counts : Array UInt64) :
  (fresh identity probes).Grows ⟨identity, counts⟩
  where
    identity_eq := rfl
    count_le := by
      intro probe
      have hzero : (fresh identity probes).count probe = 0 := by
        rw [count, fresh, Array.getElem?_replicate]
        split <;> rfl
      rw [hzero]
      apply UInt64.zero_le

namespace CoverageReport

/-- Whether the second report has the same classes under the same keys, each of them and the totals
reached at least as much. -/
structure Grows (r r' : CoverageReport) : Prop where
  classes : Ordered.Related ClassCoverage.Grows r.classes r'.classes
  summary : r.summary.Grows r'.summary

/-- Whether nothing in a report was reached more than there is. -/
structure Bounded (r : CoverageReport) : Prop where
  classes : ∀ entry ∈ r.classes, ∀ m ∈ entry.2.methods, m.Bounded
  summary : r.summary.Bounded

variable {records : List ClassRecord} {segments segments' : List Segment}

theorem countsGrow_countsFor (h : List.Forall₂ Segment.Grows segments segments')
    (identity : ClassIdentity) :
  CountsGrow (countsFor segments identity) (countsFor segments' identity)
  := by
  induction h with
  | nil => exact .refl _
  | @cons s s' segments segments' hs _ ih =>
    rw [countsFor, countsFor, List.find?_cons, List.find?_cons, ← hs.identity_eq]
    split
    · intro probe
      exact UInt64.le_iff_toNat_le.mp (hs.count_le probe)
    · exact ih

theorem related_add {classes classes' : List (String × ClassCoverage)}
    (h : Ordered.Related ClassCoverage.Grows classes classes') {c c' : ClassCoverage}
    (hc : c.Grows c') :
  Ordered.Related ClassCoverage.Grows (add classes c) (add classes' c')
  := by
  have hkey : keyFor classes c = keyFor classes' c' := by
    have hlookup := h.lookup c.identity.name
    rw [keyFor, keyFor, ← hc.identity_eq]
    generalize Ordered.lookup c.identity.name classes = filed at hlookup
    generalize Ordered.lookup c.identity.name classes' = filed' at hlookup
    cases hlookup <;> rfl
  rw [add, add, hkey]
  apply h.insert _ _ hc

/-- Reports on classes that grow do. -/
theorem grows_ofClasses {classes classes' : List ClassCoverage}
    (h : List.Forall₂ ClassCoverage.Grows classes classes') :
  (ofClasses classes).Grows (ofClasses classes')
  := by
  have hclasses : Ordered.Related ClassCoverage.Grows (ofClasses classes).classes
      (ofClasses classes').classes :=
    List.rel_foldl (P := Ordered.Related ClassCoverage.Grows) (R := ClassCoverage.Grows)
      (fun _ _ hclasses _ _ hc => related_add hclasses hc) List.Forall₂.nil h
  use hclasses
  apply CoverageSummary.grows_ofClasses (List.rel_map (fun _ _ hentry => hentry.2) hclasses)

/-- A report has no other classes than those that it is on. -/
theorem mem_of_mem_ofClasses {classes : List ClassCoverage} :
  ∀ entry ∈ (ofClasses classes).classes, entry.2 ∈ classes
  := by
  apply List.foldlRecOn classes add
    (motive := fun filed => ∀ entry ∈ filed, entry.2 ∈ classes) (by simp)
  intro filed h c hc entry hentry
  rcases Ordered.mem_insert hentry with rfl | hentry
  · exact hc
  · exact h entry hentry

theorem bounded_aggregate (records : List ClassRecord) (segments : List Segment) :
  (aggregate records segments).Bounded
  := by
  have hclasses : ∀ entry ∈ (aggregate records segments).classes, ∀ m ∈ entry.2.methods,
      m.Bounded := by
    intro entry hentry m hm
    obtain ⟨r, -, hr⟩ := List.mem_map.mp (mem_of_mem_ofClasses entry hentry)
    rw [← hr, ClassRecord.coverage, List.mem_mapIdx] at hm
    obtain ⟨index, hindex, rfl⟩ := hm
    apply ClassRecord.bounded_methodCoverage
  refine ⟨hclasses, CoverageSummary.bounded_ofClasses ?_⟩
  intro c hc
  obtain ⟨entry, hentry, rfl⟩ := List.mem_map.mp hc
  apply hclasses entry hentry

/-- From counters to greater counters a report keeps what it is on, and nothing in it is told to be
reached less; in neither of the reports it is reached more than there is. -/
theorem grows_aggregate (records : List ClassRecord)
    (h : List.Forall₂ Segment.Grows segments segments') :
  (aggregate records segments).Grows (aggregate records segments')
    ∧ (aggregate records segments).Bounded ∧ (aggregate records segments').Bounded
  := by
  refine ⟨grows_ofClasses ?_, bounded_aggregate records segments,
    bounded_aggregate records segments'⟩
  rw [forall₂_map_self]
  intro r _
  apply ClassRecord.grows_coverage (countsGrow_countsFor h r.identity)

theorem grows_aggregate_crossRecord :
  List.Forall₂ Segment.Grows [.fresh ⟨"A", 0⟩ 4] [⟨⟨"A", 0⟩, ClassPlan.crossCounts⟩]
    ∧ (aggregate [ClassFile.crossRecord ⟨"A", 0⟩] [.fresh ⟨"A", 0⟩ 4]).Grows
      (aggregate [ClassFile.crossRecord ⟨"A", 0⟩] [⟨⟨"A", 0⟩, ClassPlan.crossCounts⟩])
  := by
  have hsegments : List.Forall₂ Segment.Grows [.fresh ⟨"A", 0⟩ 4]
      [⟨⟨"A", 0⟩, ClassPlan.crossCounts⟩] :=
    .cons (Segment.grows_fresh ⟨"A", 0⟩ 4 ClassPlan.crossCounts) .nil
  exact ⟨hsegments, (grows_aggregate [ClassFile.crossRecord ⟨"A", 0⟩] hsegments).1⟩

end CoverageReport

end JvmCoverage
