import JvmCoverage.Proofs.Totals

/-!
# No class is lost from a report

Classes in the order of their identities are each filed under one key, which is the name of the
class, or the name with the digest when the name is taken; and the totals of the report are the sum
of the totals of each class by itself (`CoverageReport.Files`, `CoverageReport.files_ofClasses`).
This is so for all names, also those that look like a name with a digest.
-/

namespace JvmCoverage

/-! ## Totals -/

namespace CoverageSummary

/-- Totals over two lists of classes. -/
instance : Add CoverageSummary where
  add s s' := {
    classes := s.classes + s'.classes
    executedClasses := s.executedClasses + s'.executedClasses
    methods := s.methods + s'.methods
    instrumentedMethods := s.instrumentedMethods + s'.instrumentedMethods
    linesTotal := s.linesTotal + s'.linesTotal
    linesCovered := s.linesCovered + s'.linesCovered
    linesPartial := s.linesPartial + s'.linesPartial
    branchesTotal := s.branchesTotal + s'.branchesTotal
    branchesCovered := s.branchesCovered + s'.branchesCovered
    probesTotal := s.probesTotal + s'.probesTotal
    probesHit := s.probesHit + s'.probesHit }

/-- Totals over no classes. -/
instance : Zero CoverageSummary where
  zero := ⟨0, 0, 0, 0, 0, 0, 0, 0, 0, 0, 0⟩

theorem total_append {α : Type} (f : α → Nat) (as bs : List α) :
  total f (as ++ bs) = total f as + total f bs
  := by
  rw [total_eq_sum, total_eq_sum, total_eq_sum, List.map_append, List.sum_append]

theorem total_perm {α : Type} {f : α → Nat} {as bs : List α} (h : as.Perm bs) :
  total f as = total f bs
  := by
  rw [total_eq_sum, total_eq_sum, (h.map f).sum_eq]

theorem ofClasses_append (classes classes' : List ClassCoverage) :
  ofClasses (classes ++ classes') = ofClasses classes + ofClasses classes'
  := by
  simp only [ofClasses, List.flatMap_append, List.length_append, List.countP_append,
    List.count_append, total_append]
  rfl

/-- The totals over classes are the sum of the totals of each of them. -/
theorem ofClasses_eq_sum (classes : List ClassCoverage) :
  ofClasses classes = (classes.map fun c => ofClasses [c]).sum
  := by
  induction classes with
  | nil => rfl
  | cons c classes ih =>
    rw [List.map_cons, List.sum_cons, ← ih, ← ofClasses_append, List.singleton_append]

/-- Totals do not tell in which order the classes come. -/
theorem ofClasses_perm {classes classes' : List ClassCoverage} (h : classes.Perm classes') :
  ofClasses classes = ofClasses classes'
  := by
  have hmethods := h.flatMap_right ClassCoverage.methods
  have hlines := hmethods.flatMap_right fun m => m.lines.map (·.2.status)
  have hbranches := hmethods.flatMap_right MethodCoverage.branches
  simp only [ofClasses, mk.injEq]
  exact ⟨h.length_eq, h.countP_eq _, hmethods.length_eq, hmethods.countP_eq _, hlines.length_eq,
    hlines.countP_eq _, hlines.countP_eq _, total_perm hbranches, total_perm hbranches,
    total_perm hmethods, total_perm hmethods⟩

end CoverageSummary

/-! ## Keys -/

namespace CoverageReport

theorem isOrder_precedes :
  Ordered.IsOrder precedes
  where
    irrefl := by simp [precedes]
    trans := by
      intro a b c hab hbc
      simp only [precedes, decide_eq_true_eq] at hab hbc ⊢
      exact hab.trans hbc
    total := by
      intro a b hne hafter
      simp only [precedes, decide_eq_true_eq, decide_eq_false_iff_not] at hafter ⊢
      exact lt_of_le_of_ne (not_lt.mp hafter) hne.symm

variable {filed : List (String × ClassCoverage)} {classes : List ClassCoverage}

theorem ascending_ofClasses (classes : List ClassCoverage) :
  Ordered.Ascending precedes (ofClasses classes).classes
  := by
  apply List.foldlRecOn classes add (motive := Ordered.Ascending precedes) .nil
  exact fun filed h c _ => h.insert isOrder_precedes _ _

theorem keyed_ofClasses (classes : List ClassCoverage) :
  Keyed (ofClasses classes).classes
  := by
  apply List.foldlRecOn classes add (motive := Keyed) (by simp [Keyed])
  exact fun filed h c _ => h.add c

/-- Whether classes are filed under their names unless these are taken. -/
def NamesFirst (filed : List (String × ClassCoverage)) : Prop :=
  ∀ entry ∈ filed, entry.1 ≠ entry.2.identity.name →
    (Ordered.lookup entry.2.identity.name filed).isSome

/-- A key that is taken stays taken. -/
theorem isSome_lookup_add {key : String} (h : (Ordered.lookup key filed).isSome)
    (c : ClassCoverage) :
  (Ordered.lookup key (add filed c)).isSome
  := by
  rw [add]
  by_cases hkey : key = keyFor filed c
  · rw [hkey, Ordered.lookup_insert_self]
    rfl
  · rw [Ordered.lookup_insert_other precedes c filed hkey]
    apply h

theorem NamesFirst.add (h : NamesFirst filed) (c : ClassCoverage) :
  NamesFirst (add filed c)
  := by
  intro entry hentry hname
  apply isSome_lookup_add
  rcases Ordered.mem_insert hentry with rfl | hentry
  · by_contra hfree
    apply hname
    rw [keyFor, if_neg hfree]
  · apply h entry hentry hname

theorem namesFirst_ofClasses (classes : List ClassCoverage) :
  NamesFirst (ofClasses classes).classes
  := by
  apply List.foldlRecOn classes add (motive := NamesFirst) (by simp [NamesFirst])
  exact fun filed h c _ => h.add c

/-- Whether the report has each of the classes once, and counts it once. -/
structure Files (r : CoverageReport) (classes : List ClassCoverage) : Prop where
  /-- Each class is filed under one key. -/
  filed : ∀ c ∈ classes, ∃! key, (key, c) ∈ r.classes
  /-- Nothing else is filed. -/
  only : ∀ entry ∈ r.classes, entry.2 ∈ classes
  /-- A class is filed under its name, or with its digest when the name is taken. -/
  key : ∀ entry ∈ r.classes, entry.1 = entry.2.identity.name
    ∨ entry.1 = entry.2.identity.text ∧ (r.class? entry.2.identity.name).isSome
  /-- A class is found under its key. -/
  found : ∀ key c, r.class? key = some c ↔ (key, c) ∈ r.classes
  nodup_keys : (r.classes.map Prod.fst).Nodup
  classes_eq : r.summary.classes = classes.length
  summary_eq : r.summary = (classes.map fun c => .ofClasses [c]).sum

/-- Classes in the order of their identities are all filed, and each is counted once. -/
theorem files_ofClasses (h : classes.Pairwise fun a b => a.identity.precedes b.identity) :
  (ofClasses classes).Files classes
  := by
  have hperm := perm_ofClasses h
  have hascending := ascending_ofClasses classes
  have hsummary : (ofClasses classes).summary = .ofClasses classes :=
    CoverageSummary.ofClasses_perm hperm
  have hnodup : ((ofClasses classes).classes.map Prod.snd).Nodup := by
    rw [hperm.nodup_iff]
    apply h.imp
    rintro a _ hlt rfl
    rw [ClassIdentity.isOrder_precedes.irrefl] at hlt
    cases hlt
  refine
    { filed := ?_, only := fun entry hentry => hperm.mem_iff.mp (List.mem_map_of_mem hentry),
      key := ?_,
      found := fun key c => hascending.lookup_eq_some_iff isOrder_precedes,
      nodup_keys := hascending.nodup_keys isOrder_precedes, classes_eq := by rw [hsummary]; rfl,
      summary_eq := by rw [hsummary, CoverageSummary.ofClasses_eq_sum] }
  · intro c hc
    obtain ⟨⟨key, _⟩, hentry, rfl⟩ := List.mem_map.mp (hperm.mem_iff.mpr hc)
    use key, hentry
    intro key' hentry'
    exact congrArg Prod.fst (List.inj_on_of_nodup_map hnodup hentry' hentry rfl)
  · intro entry hentry
    by_cases hname : entry.1 = entry.2.identity.name
    · exact .inl hname
    · have htext := (keyed_ofClasses classes entry hentry).resolve_left hname
      exact .inr ⟨htext, namesFirst_ofClasses classes entry hentry hname⟩

/-- Versions of a class and a class whose name looks like that of a version. -/
def lookalikes : List ClassCoverage :=
  [⟨⟨"a", 1⟩, none, false, []⟩, ⟨⟨"a", 0x0123456789abcdef⟩, none, true, []⟩,
    ⟨⟨"a@0123456789abcdef", 2⟩, none, true, []⟩]

theorem files_ofClasses_lookalikes :
  (lookalikes.Pairwise fun a b => a.identity.precedes b.identity)
    ∧ (ofClasses lookalikes).classes.map Prod.fst
      = ["a", "a@0123456789abcdef", "a@0123456789abcdef@0000000000000002"]
    ∧ (ofClasses lookalikes).Files lookalikes
  := by
  have hordered : lookalikes.Pairwise fun a b => a.identity.precedes b.identity := by
    decide +kernel
  exact ⟨hordered, by decide +kernel, files_ofClasses hordered⟩

end CoverageReport

end JvmCoverage
