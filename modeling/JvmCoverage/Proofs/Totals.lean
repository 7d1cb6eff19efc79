import JvmCoverage.Coverage.Aggregate
import JvmCoverage.Proofs.Keys
import Mathlib.Algebra.BigOperators.Group.List.Basic
import Mathlib.Algebra.GroupWithZero.Nat

/-!
# Totals over a report

The probes of a class are split among its methods, and each method is filed with its class.  So the
totals of a report are sums over the records of the classes (`CoverageReport.total_aggregate`),
and when every segment is one of a record, sums over the segments (`sum_countsFor`).
-/

namespace JvmCoverage

/-! ## Sums -/

/-- The sum of values of which only one is not 0. -/
theorem sum_of_single {α : Type} [DecidableEq α] {as : List α} (hnodup : as.Nodup) {a : α}
    (ha : a ∈ as) (f : α → Nat) (hf : ∀ a', a' ≠ a → f a' = 0) :
  (as.map f).sum = f a
  := by
  rw [List.sum_map_eq_nsmul_single a f fun a' hne _ => hf a' hne,
    List.count_eq_one_of_mem hnodup ha, one_nsmul]

/-- Things that each belong to one of `n` places are counted place by place. -/
theorem sum_countP_filter {α : Type} (place : α → Nat) (q : α → Bool) {n : Nat} {as : List α}
    (h : ∀ a ∈ as, place a < n) :
  ((List.range n).map fun i => (as.filter (place · == i)).countP q).sum = as.countP q
  := by
  induction as with
  | nil => simp
  | cons a as ih =>
    obtain ⟨ha, has⟩ := List.forall_mem_cons.mp h
    have hsplit : ∀ i, ((a :: as).filter (place · == i)).countP q
        = (if i = place a then [a].countP q else 0) + (as.filter (place · == i)).countP q := by
      intro i
      by_cases hi : i = place a
      · rw [if_pos hi, List.filter_cons_of_pos (by simp [hi]), ← List.singleton_append,
          List.countP_append]
      · rw [if_neg hi, List.filter_cons_of_neg (by simpa using Ne.symm hi), Nat.zero_add]
    have hone : ((List.range n).map fun i => if i = place a then [a].countP q else 0).sum
        = [a].countP q := by
      rw [sum_of_single List.nodup_range (List.mem_range.mpr ha) _ fun i hi => if_neg hi,
        if_pos rfl]
    simp only [hsplit, List.sum_map_add, hone, ih has]
    rw [← List.countP_append, List.singleton_append]

namespace CoverageSummary

variable {α β : Type}

theorem total_eq_sum (f : α → Nat) (members : List α) :
  total f members = (members.map f).sum
  := by
  have hfrom : ∀ start, members.foldl (fun sum a => sum + f a) start
      = start + (members.map f).sum := by
    induction members with
    | nil => exact fun start => rfl
    | cons a members ih =>
      intro start
      rw [List.foldl_cons, ih, List.map_cons, List.sum_cons, Nat.add_assoc]
  rw [total, hfrom, Nat.zero_add]

theorem total_flatMap (f : β → Nat) (g : α → List β) (members : List α) :
  total f (members.flatMap g) = (members.map fun a => total f (g a)).sum
  := by
  simp only [total_eq_sum]
  induction members with
  | nil => rfl
  | cons a members ih => simp [ih]

end CoverageSummary

/-! ## Classes -/

namespace ClassRecord

/-- Whether the probes of the class are numbered from 0 on, and each is one of a listed method. -/
structure Sound (r : ClassRecord) : Prop where
  numbered : ∀ (k : Nat) (p : ProbeRecord), r.probes[k]? = some p → p.probe = k
  listed : ∀ p ∈ r.probes, p.method < r.methods.length

variable {r : ClassRecord} {counts : Array UInt64}

/-- What is counted of the probes of each method is counted of all probes. -/
theorem Sound.total_methods (h : r.Sound) (q : ProbeRecord → Bool) {f : MethodCoverage → Nat}
    (hf : ∀ i m, f (r.methodCoverage counts i m) = (r.methodProbes i).countP q) :
  CoverageSummary.total f (r.coverage counts).methods = r.probes.countP q
  := by
  have hrange : (r.coverage counts).methods.map f
      = (List.range r.methods.length).map fun i => (r.methodProbes i).countP q := by
    apply List.ext_getElem
    · simp [coverage]
    · intro i hi hi'
      simp [coverage, hf]
  rw [CoverageSummary.total_eq_sum, hrange]
  apply sum_countP_filter ProbeRecord.method q h.listed

/-- The methods of a class have all its probes. -/
theorem Sound.probesTotal_methods (h : r.Sound) (counts : Array UInt64) :
  CoverageSummary.total MethodCoverage.probesTotal (r.coverage counts).methods = r.probeCount
  := by
  rw [h.total_methods (fun _ => true) (by simp [methodCoverage]), List.countP_true, probeCount]

/-- The probes of a class that have run are the counters that are not 0. -/
theorem Sound.probesHit_methods (h : r.Sound) (hsize : counts.size = r.probeCount) :
  CoverageSummary.total MethodCoverage.probesHit (r.coverage counts).methods
    = counts.countP (0 < ·)
  := by
  have hnumbers : r.probes.map ProbeRecord.probe = List.range r.probes.length := by
    apply List.ext_getElem
    · simp
    · intro k hk hk'
      rw [List.getElem_map, List.getElem_range]
      apply h.numbered k _ (List.getElem?_eq_getElem _)
  have hcounts : counts.toList
      = (List.range r.probes.length).map fun k => counts[k]?.getD 0 := by
    apply List.ext_getElem
    · simpa [probeCount] using hsize
    · intro k hk hk'
      simp only [Array.length_toList] at hk
      simp [hk]
  rw [h.total_methods (fun p => 0 < countOf counts p.probe) fun _ _ => rfl, ← Array.countP_toList,
    hcounts, List.countP_map, ← hnumbers, List.countP_map]
  apply List.countP_congr
  intro p _
  rw [Function.comp_apply, Function.comp_apply, decide_eq_true_iff, decide_eq_true_iff,
    UInt64.lt_iff_toNat_lt]
  rfl

end ClassRecord

/-! ## Reports -/

namespace CoverageReport

variable {records : List ClassRecord} {segments : List Segment}

/-- The counters of a class that has none are no counters. -/
theorem countsFor_of_none {identity : ClassIdentity}
    (h : ∀ s ∈ segments, s.identity ≠ identity) :
  countsFor segments identity = #[]
  := by
  have hnone : segments.find? (·.identity == identity) = none := by
    simpa using h
  rw [countsFor, hnone]
  rfl

/-- A report has an entry for each record. -/
theorem perm_aggregate (h : records.Pairwise fun a b => a.identity.precedes b.identity) :
  ((aggregate records segments).classes.map Prod.snd).Perm
    (records.map fun r => r.coverage (countsFor segments r.identity))
  := by
  apply perm_ofClasses
  rw [List.pairwise_map]
  apply h

/-- A total over the methods of a report is the sum of the totals over the methods of each
record. -/
theorem total_aggregate (h : records.Pairwise fun a b => a.identity.precedes b.identity)
    (f : MethodCoverage → Nat) :
  CoverageSummary.total f
      (((aggregate records segments).classes.map Prod.snd).flatMap ClassCoverage.methods)
    = (records.map fun r =>
      CoverageSummary.total f (r.coverage (countsFor segments r.identity)).methods).sum
  := by
  rw [CoverageSummary.total_flatMap, ((perm_aggregate h).map _).sum_eq, List.map_map]
  rfl

/-- When each segment is one of a record, a sum over the counters of the records is a sum over the
segments. -/
theorem sum_countsFor (f : Array UInt64 → Nat) (hf : f #[] = 0)
    (hrecords : (records.map ClassRecord.identity).Nodup)
    (hsegments : (segments.map Segment.identity).Nodup)
    (hrecorded : ∀ s ∈ segments, s.identity ∈ records.map ClassRecord.identity) :
  (records.map fun r => f (countsFor segments r.identity)).sum
    = (segments.map fun s => f s.counts).sum
  := by
  have hmap : (records.map fun r => f (countsFor segments r.identity))
      = (records.map ClassRecord.identity).map fun identity => f (countsFor segments identity) := by
    rw [List.map_map]
    rfl
  rw [hmap]
  generalize records.map ClassRecord.identity = identities at hrecords hrecorded
  clear hmap
  induction segments with
  | nil => simp [countsFor, hf]
  | cons s segments ih =>
    obtain ⟨hs, hrest⟩ := List.forall_mem_cons.mp hrecorded
    rw [List.map_cons, List.nodup_cons] at hsegments
    obtain ⟨hnew, hsegments⟩ := hsegments
    -- the other segments have no counters for the class of this one
    have hnone : countsFor segments s.identity = #[] := by
      apply countsFor_of_none
      intro s' hs' heq
      apply hnew
      rw [← heq]
      apply List.mem_map_of_mem hs'
    have hsplit : ∀ identity, f (countsFor (s :: segments) identity)
        = (if identity = s.identity then f s.counts else 0) + f (countsFor segments identity) := by
      intro identity
      by_cases heq : identity = s.identity
      · rw [if_pos heq, heq, hnone, hf, countsFor, List.find?_cons_of_pos (by simp)]
        rfl
      · rw [if_neg heq, Nat.zero_add, countsFor, countsFor,
          List.find?_cons_of_neg (by simpa using Ne.symm heq)]
    simp only [hsplit, List.sum_map_add, List.map_cons, List.sum_cons, ih hsegments hrest]
    rw [sum_of_single hrecords hs _ fun identity hne => if_neg hne, if_pos rfl]

end CoverageReport

end JvmCoverage
