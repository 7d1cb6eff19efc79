import JvmCoverage.Proofs.Plan
import Mathlib.Data.Set.Function

/-!
# The books of a plan

Three things tell of the probes of a class: the status of each method, the plans of the methods, and
the records of the probes.  They agree (`ClassPlan.keepsBooks_of_read`): each says of the same
methods that they have probes, and of the same blocks that a probe with the same number stands in
front of them.  A method that fails is gone from all three, however far its planning went.
-/

namespace JvmCoverage

/-! ## One method -/

/-- A block gets a number exactly when it is chosen. -/
theorem Probe.exists_numbersFrom_iff {α : Type} (first : Nat) (choices : List (Option α))
    {i : Nat} :
  (∃ n, (numbersFrom first choices)[i]? = some (some n)) ↔ ∃ a, choices[i]? = some (some a)
  := by
  induction choices generalizing first i with
  | nil => simp [numbersFrom]
  | cons choice choices ih => cases choice <;> cases i <;> simp [numbersFrom, ih]

namespace MethodPlan

variable {method : Nat} {graph : FlowGraph} {choices : Array (Option (List UInt16))}
  {blockProbes : Array (Option Nat)}

/-- The records of a method are those of the blocks that are chosen and have a number. -/
theorem mem_records {p : ProbeRecord} :
  p ∈ records method graph choices blockProbes
    ↔ ∃ (i : Nat) (b : BasicBlock) (lines : List UInt16) (n : Nat), graph.blocks[i]? = some b
      ∧ choices[i]? = some (some lines) ∧ blockProbes[i]? = some (some n)
      ∧ p = ⟨n, method, b.id, b.terminator, lines⟩
  := by
  rw [records, List.mem_filterMap]
  simp only [List.mem_iff_getElem?, Prod.exists, List.getElem?_zip_eq_some, Array.getElem?_toList]
  constructor
  · rintro ⟨b, choice, number, ⟨i, hb, hchoice, hnumber⟩, hp⟩
    cases choice with
    | none => cases hp
    | some lines =>
      cases number with
      | none => cases hp
      | some n => exact ⟨i, b, lines, n, hb, hchoice, hnumber, (Option.some.inj hp).symm⟩
  · rintro ⟨i, b, lines, n, hb, hchoice, hnumber, rfl⟩
    exact ⟨b, some lines, some n, ⟨i, hb, hchoice, hnumber⟩, rfl⟩

/-- The records stand in the order of the blocks. -/
theorem pairwise_records (hblocks : FlowGraph.Numbered graph.blocks) :
  (records method graph choices blockProbes).Pairwise fun p q => p.block < q.block
  := by
  have hids : (graph.blocks.toList.zip (choices.toList.zip blockProbes.toList)).Pairwise
      fun x y => x.1.id < y.1.id := by
    have hid : ∀ (k : Nat) (x : BasicBlock × Option (List UInt16) × Option Nat),
        (graph.blocks.toList.zip (choices.toList.zip blockProbes.toList))[k]? = some x →
          x.1.id = k := by
      intro k x hx
      obtain ⟨hb, -⟩ := List.getElem?_zip_eq_some.mp hx
      rw [Array.getElem?_toList] at hb
      apply hblocks k x.1 hb
    rw [List.pairwise_iff_getElem]
    intro i j hi hj hlt
    rwa [hid i _ (List.getElem?_eq_getElem hi), hid j _ (List.getElem?_eq_getElem hj)]
  rw [records, List.pairwise_filterMap]
  apply hids.imp
  rintro ⟨b, _ | lines, _ | n⟩ ⟨b', _ | lines', _ | n'⟩ hlt p hp q hq <;> try cases hp
  all_goals cases hq
  apply hlt

/-- Every branch of a method is told of under the position of the method, at the end of a block. -/
theorem exists_of_mem_branchSites {granularity : Granularity} {code : Code} {site : BranchSite}
    (h : site ∈ branchSites granularity method code graph blockProbes) :
  ∃ b ∈ graph.blocks, site.method = method ∧ site.offset = b.last.offset
    ∧ site.line = code.lineAt? b.last.offset
  := by
  unfold branchSites at h
  split at h
  · obtain ⟨b, hb, hsite⟩ := List.mem_filterMap.mp h
    refine ⟨b, Array.mem_toList_iff.mp hb, ?_⟩
    simp only [branchSite] at hsite
    split at hsite
    · rw [← Option.some.inj hsite]
      exact ⟨rfl, rfl, rfl⟩
    · cases hsite
  · cases h

end MethodPlan

/-- Whether the records of the method at position `method` are of the probes in its plan. -/
structure PlannedMethod.KeepsBooks (planned : PlannedMethod) (policy : Policy) (m : Method)
    (method : Nat) : Prop where
  method_eq : planned.plan.method = method
  body : ∃ code, m.code? = some code ∧ planned.plan.graph = FlowGraph.ofCode code
    ∧ planned.plan.blockProbes.size = planned.plan.graph.blocks.size
  numbers : planned.probes.map ProbeRecord.probe = planned.plan.numbers
  probed : planned.plan.numbers ≠ []
  owned : ∀ p ∈ planned.probes, p.method = method
  ordered : planned.probes.Pairwise fun p q => p.block < q.block
  placed : ∀ block n, planned.plan.blockProbes[block]? = some (some n)
    ↔ ∃ p ∈ planned.probes, p.block = block ∧ p.probe = n
  everyBlock : policy.granularity = .basicBlock →
    ∀ block < planned.plan.graph.blocks.size,
      ∃ n, planned.plan.blockProbes[block]? = some (some n)
  branches : ∀ site ∈ planned.branches, site.method = method

/-- The records of a planned method are of the probes in its plan. -/
theorem PlannedMethod.keepsBooks_of_ofCode {policy : Policy} {pool : ConstantPool}
    {location : String} {m : Method} {method first : Nat} {code : Code} {planned : PlannedMethod}
    (h : ofCode policy pool location method first code = .ok planned)
    (hcode : m.code? = some code) (hne : code.instructions ≠ []) :
  planned.KeepsBooks policy m method
  := by
  obtain ⟨hmethod, hof, hnumbers⟩ := isOf_of_ofCode h hne
  simp only [ofCode, bind_eq_ok, pure_eq_ok] at h
  obtain ⟨⟨⟩, -, layout, -, rfl⟩ := h
  have hids := FlowGraph.numbered_ofCode code
  have hchosen : ∀ i : Nat, (∃ n, (Probe.number first
      (Probe.choose policy.granularity (FlowGraph.ofCode code).blocks))[i]? = some (some n))
        ↔ ∃ lines, (Probe.choose policy.granularity (FlowGraph.ofCode code).blocks)[i]?
          = some (some lines) := by
    intro i
    simp only [← Array.getElem?_toList, Probe.toList_number, Probe.exists_numbersFrom_iff]
  exact {
    method_eq := hmethod
    body := ⟨code, hcode, hof.graph_eq, hof.size_eq⟩
    numbers := hnumbers
    probed := hof.probed
    owned := by
      intro p hp
      obtain ⟨i, b, lines, n, -, -, -, rfl⟩ := MethodPlan.mem_records.mp hp
      rfl
    ordered := MethodPlan.pairwise_records hids
    placed := by
      intro block n
      constructor
      · intro hn
        obtain ⟨lines, hlines⟩ := (hchosen block).mp ⟨n, hn⟩
        have hlt := (Array.getElem?_eq_some_iff.mp hlines).1
        rw [Probe.size_choose] at hlt
        have hb := Array.getElem?_eq_getElem hlt
        exact ⟨_, MethodPlan.mem_records.mpr ⟨block, _, lines, n, hb, hlines, hn, rfl⟩,
          hids block _ hb, rfl⟩
      · rintro ⟨p, hp, rfl, rfl⟩
        obtain ⟨i, b, lines, n, hb, -, hn, rfl⟩ := MethodPlan.mem_records.mp hp
        rw [hids i b hb]
        apply hn
    everyBlock := by
      intro hgranularity block hlt
      apply (hchosen block).mpr
      rw [hgranularity]
      simp [Probe.choose, hlt]
    branches := by
      intro site hsite
      obtain ⟨b, -, hmethod, -⟩ := MethodPlan.exists_of_mem_branchSites hsite
      apply hmethod }

/-! ## All methods -/

/-- A list is what stands before one of its members, the member, and what stands behind it. -/
theorem eq_take_append_cons_drop {α : Type} {as : List α} {i : Nat} {a : α}
    (h : as[i]? = some a) :
  as = as.take i ++ a :: as.drop (i + 1)
  := by
  obtain ⟨hi, rfl⟩ := List.getElem?_eq_some_iff.mp h
  rw [← List.drop_eq_getElem_cons hi, List.take_append_drop]

namespace MethodOutcome

variable {policy : Policy} {c : ClassFile} {index first : Nat} {methods : List Method}

/-- A method may get probes only when it is not told otherwise. -/
theorem ne_instrumented_of_eligible {pool : ConstantPool} {m : Method} {status : MethodStatus}
    (h : eligible policy pool m = .error status) :
  status ≠ .instrumented
  := by
  rintro rfl
  unfold eligible at h
  repeat' split at h
  all_goals cases h

/-- A method is told to have probes exactly when it is planned. -/
theorem status_ofMethod_iff {m : Method} :
  (ofMethod policy c index first m).record.status = .instrumented
    ↔ ∃ planned, (ofMethod policy c index first m).planned = some planned
  := by
  simp only [ofMethod]
  split
  · simp
  · rename_i status hplanned
    simp only [reduceCtorEq, exists_false, iff_false]
    rintro rfl
    cases heligible : eligible policy c.pool m with
    | error status =>
      rw [heligible] at hplanned
      apply ne_instrumented_of_eligible heligible (Except.error.inj hplanned)
    | ok code =>
      rw [heligible] at hplanned
      cases hofCode : PlannedMethod.ofCode policy c.pool (c.location m) index first code with
      | ok planned =>
        simp [hofCode, bind, Except.bind, Except.mapError] at hplanned
      | error e =>
        simp [hofCode, bind, Except.bind, Except.mapError, MethodStatus.ofError] at hplanned

/-- Every method is told of under its name. -/
theorem names_outcomesFrom (index first : Nat) (methods : List Method) :
  (outcomesFrom policy c index first methods).map
      (fun outcome => (outcome.record.name, outcome.record.descriptor))
    = methods.map fun m => (m.name, m.descriptor)
  := by
  induction methods generalizing index first with
  | nil => rfl
  | cons m methods ih =>
    have hname : ((ofMethod policy c index first m).record.name,
        (ofMethod policy c index first m).record.descriptor) = (m.name, m.descriptor) := by
      simp only [ofMethod]
      split <;> rfl
    rw [outcomesFrom, List.map_cons, List.map_cons, ih, hname]

/-- What was decided about a method was decided at its position. -/
theorem exists_of_getElem?_outcomesFrom {i : Nat} {outcome : MethodOutcome}
    (h : (outcomesFrom policy c index first methods)[i]? = some outcome) :
  ∃ m first', methods[i]? = some m ∧ outcome = ofMethod policy c (index + i) first' m
  := by
  induction methods generalizing index first i with
  | nil => simp [outcomesFrom] at h
  | cons m methods ih =>
    cases i with
    | zero => exact ⟨m, first, rfl, by simpa [outcomesFrom] using h.symm⟩
    | succ i =>
      rw [outcomesFrom, List.getElem?_cons_succ] at h
      obtain ⟨m', first', hm', rfl⟩ := ih h
      exact ⟨m', first', hm', by rw [Nat.add_right_comm, Nat.add_assoc]⟩

/-- Whether the method at position `i` is planned as `planned`. -/
def Gives (outcomes : List MethodOutcome) (i : Nat) (planned : PlannedMethod) : Prop :=
  ∃ outcome, outcomes[i]? = some outcome ∧ outcome.planned = some planned

variable {i : Nat} {planned : PlannedMethod}

theorem Gives.unique {outcomes : List MethodOutcome} {planned' : PlannedMethod}
    (h : Gives outcomes i planned) (h' : Gives outcomes i planned') :
  planned' = planned
  := by
  obtain ⟨outcome, houtcome, hplanned⟩ := h
  obtain ⟨outcome', houtcome', hplanned'⟩ := h'
  obtain rfl := Option.some.inj (houtcome.symm.trans houtcome')
  apply Option.some.inj (hplanned'.symm.trans hplanned)

/-- A planned method is one of the methods, and its plan is one of its body. -/
theorem Gives.exists_ofCode (h : Gives (outcomesFrom policy c index first methods) i planned)
    (hmethods : ∀ m ∈ methods, m.WellFormed c.pool) :
  ∃ m code first', methods[i]? = some m ∧ m.code? = some code ∧ code.instructions ≠ []
    ∧ PlannedMethod.ofCode policy c.pool (c.location m) (index + i) first' code = .ok planned
  := by
  obtain ⟨outcome, houtcome, hplanned⟩ := h
  obtain ⟨m, first', hm, rfl⟩ := exists_of_getElem?_outcomesFrom houtcome
  obtain ⟨code, hcode, hofCode⟩ := exists_ofCode_of_planned hplanned
  have hwf := Method.wellFormed_code (hmethods m (List.mem_of_getElem? hm)) hcode
  exact ⟨m, code, first', hm, hcode, hwf.ne_nil, hofCode⟩

/-- The records of a planned method are of its probes. -/
theorem Gives.keepsBooks (h : Gives (outcomesFrom policy c index first methods) i planned)
    (hmethods : ∀ m ∈ methods, m.WellFormed c.pool) :
  ∃ m, methods[i]? = some m ∧ planned.KeepsBooks policy m (index + i)
  := by
  obtain ⟨m, code, first', hm, hcode, hne, hofCode⟩ := h.exists_ofCode hmethods
  exact ⟨m, hm, PlannedMethod.keepsBooks_of_ofCode hofCode hcode hne⟩

variable {outcomes : List MethodOutcome}

theorem mem_plans_iff {methodPlan : MethodPlan} :
  methodPlan ∈ plans outcomes ↔ ∃ i planned, Gives outcomes i planned ∧ planned.plan = methodPlan
  := by
  rw [plans, List.mem_filterMap]
  simp only [List.mem_iff_getElem?, Option.map_eq_some_iff, Gives]
  constructor
  · rintro ⟨outcome, ⟨i, houtcome⟩, planned, hplanned, heq⟩
    exact ⟨i, planned, ⟨outcome, houtcome, hplanned⟩, heq⟩
  · rintro ⟨i, planned, ⟨outcome, houtcome, hplanned⟩, heq⟩
    exact ⟨outcome, ⟨i, houtcome⟩, planned, hplanned, heq⟩

/-- What is told of all methods comes from what is told of the planned ones. -/
theorem mem_flatMap_iff {α : Type} (f : PlannedMethod → List α) {a : α} :
  a ∈ outcomes.flatMap (fun outcome => (outcome.planned.map f).getD [])
    ↔ ∃ i planned, Gives outcomes i planned ∧ a ∈ f planned
  := by
  simp only [List.mem_flatMap, Gives]
  constructor
  · rintro ⟨outcome, houtcome, ha⟩
    obtain ⟨i, hi⟩ := List.mem_iff_getElem?.mp houtcome
    cases hplanned : outcome.planned with
    | none =>
      rw [hplanned] at ha
      cases ha
    | some planned =>
      rw [hplanned] at ha
      exact ⟨i, planned, ⟨outcome, hi, hplanned⟩, ha⟩
  · rintro ⟨i, planned, ⟨outcome, hi, hplanned⟩, ha⟩
    use outcome, List.mem_of_getElem? hi
    rw [hplanned]
    apply ha

/-- Of what is told of all methods, what is told under the position of a planned method is what is
told of it. -/
theorem Gives.filter_eq {α : Type} (f : PlannedMethod → List α) (method : α → Nat)
    (h : Gives outcomes i planned)
    (howned : ∀ j planned', Gives outcomes j planned' → ∀ a ∈ f planned', method a = j) :
  (outcomes.flatMap fun outcome => (outcome.planned.map f).getD []).filter (method · == i)
    = f planned
  := by
  have hmethod {j : Nat} {outcome : MethodOutcome} (hj : outcomes[j]? = some outcome) {a : α}
      (ha : a ∈ (outcome.planned.map f).getD []) : method a = j := by
    cases hplanned : outcome.planned with
    | none =>
      rw [hplanned] at ha
      cases ha
    | some planned' =>
      rw [hplanned] at ha
      exact howned j planned' ⟨outcome, hj, hplanned⟩ a ha
  obtain ⟨outcome, houtcome, hplanned⟩ := h
  rw [eq_take_append_cons_drop houtcome, List.flatMap_append, List.flatMap_cons,
    List.filter_append, List.filter_append, List.filter_eq_nil_iff.mpr,
    List.filter_eq_self.mpr, List.filter_eq_nil_iff.mpr, List.nil_append, List.append_nil, hplanned]
  · rfl
  · intro a ha
    obtain ⟨outcome', houtcome', ha⟩ := List.mem_flatMap.mp ha
    obtain ⟨k, hk⟩ := List.mem_iff_getElem?.mp houtcome'
    rw [List.getElem?_drop] at hk
    simp only [hmethod hk ha, beq_iff_eq]
    omega
  · intro a ha
    simp only [hmethod houtcome ha, beq_self_eq_true]
  · intro a ha
    obtain ⟨outcome', houtcome', ha⟩ := List.mem_flatMap.mp ha
    obtain ⟨k, hk⟩ := List.mem_iff_getElem?.mp houtcome'
    rw [List.getElem?_take] at hk
    split at hk
    · simp only [hmethod hk ha, beq_iff_eq]
      omega
    · cases hk

/-- Probes are numbered through, in the order of methods and blocks. -/
theorem probes_outcomesFrom (hmethods : ∀ m ∈ methods, m.WellFormed c.pool) :
  ((outcomesFrom policy c index first methods).flatMap probes).map ProbeRecord.probe
      = List.range' first ((outcomesFrom policy c index first methods).flatMap probes).length
    ∧ ((outcomesFrom policy c index first methods).flatMap probes).Pairwise fun p q =>
      p.method < q.method ∨ p.method = q.method ∧ p.block < q.block
  := by
  induction methods generalizing index first with
  | nil => exact ⟨rfl, .nil⟩
  | cons m methods ih =>
    obtain ⟨hm, hrest⟩ := List.forall_mem_cons.mp hmethods
    obtain ⟨hnumbers, hordered⟩ := @ih (index + 1)
      (first + (ofMethod policy c index first m).probes.length) hrest
    have hbehind : ∀ p ∈ (outcomesFrom policy c (index + 1)
        (first + (ofMethod policy c index first m).probes.length) methods).flatMap probes,
        index < p.method := by
      intro p hp
      obtain ⟨i, planned, hgives, hp⟩ := (mem_flatMap_iff _).mp hp
      obtain ⟨_, -, hbooks⟩ := hgives.keepsBooks hrest
      rw [hbooks.owned p hp]
      omega
    rw [outcomesFrom, List.flatMap_cons, List.map_append, hnumbers, List.length_append,
      ← List.range'_append_1, List.pairwise_append]
    cases hplanned : (ofMethod policy c index first m).planned with
    | none =>
      have hnil : (ofMethod policy c index first m).probes = [] := by
        rw [probes, hplanned]
        rfl
      simp only [hnil, List.map_nil, List.length_nil, List.range'_zero, List.not_mem_nil,
        false_implies, implies_true, and_true]
      simpa [hnil] using hordered
    | some planned =>
      have hprobes : (ofMethod policy c index first m).probes = planned.probes := by
        rw [probes, hplanned]
        rfl
      obtain ⟨code, hcode, hofCode⟩ := exists_ofCode_of_planned hplanned
      have hne := (Method.wellFormed_code hm hcode).ne_nil
      obtain ⟨-, hof, -⟩ := PlannedMethod.isOf_of_ofCode hofCode hne
      have hbooks := PlannedMethod.keepsBooks_of_ofCode hofCode hcode hne
      have hlength := congrArg List.length hbooks.numbers
      rw [List.length_map] at hlength
      constructor
      · rw [hprobes, hbooks.numbers, hlength, ← hof.numbers_eq]
      · refine ⟨?_, hordered, ?_⟩
        · rw [hprobes]
          apply hbooks.ordered.imp_of_mem
          intro p q hp hq hlt
          exact .inr ⟨(hbooks.owned p hp).trans (hbooks.owned q hq).symm, hlt⟩
        · intro p hp q hq
          rw [hprobes] at hp
          rw [hbooks.owned p hp]
          exact .inl (hbehind q hq)

end MethodOutcome

/-! ## Classes -/

namespace ClassPlan

/-- Whether the statuses, the plans and the records of the methods of `c` agree about its probes. -/
structure KeepsBooks (plan : ClassPlan) (policy : Policy) (c : ClassFile) : Prop where
  /-- Every method is listed, in order. -/
  methods : plan.methods.map (fun record => (record.name, record.descriptor))
    = c.methods.map fun m => (m.name, m.descriptor)
  /-- Probes are numbered from 0 on. -/
  numbered : ∀ (k : Nat) (p : ProbeRecord), plan.probes[k]? = some p → p.probe = k
  ordered : plan.probes.Pairwise fun p q =>
    p.method < q.method ∨ p.method = q.method ∧ p.block < q.block
  /-- A plan is one of the blocks of its method. -/
  planned : ∀ methodPlan ∈ plan.planned, ∃ m code, c.methods[methodPlan.method]? = some m
    ∧ m.code? = some code ∧ methodPlan.graph = FlowGraph.ofCode code
    ∧ methodPlan.blockProbes.size = methodPlan.graph.blocks.size
  /-- No method has two plans. -/
  distinct : plan.planned.Pairwise fun a b => a.method < b.method
  /-- The records of a method are of the blocks with a probe, each under its number. -/
  placed : ∀ methodPlan ∈ plan.planned,
    Set.BijOn (fun p : ProbeRecord => (p.block, p.probe))
      {p | p ∈ plan.probes ∧ p.method = methodPlan.method}
      {entry | methodPlan.blockProbes[entry.1]? = some (some entry.2)}
  everyBlock : policy.granularity = .basicBlock → ∀ methodPlan ∈ plan.planned,
    ∀ block < methodPlan.graph.blocks.size,
      ∃ n, methodPlan.blockProbes[block]? = some (some n)
  planned_iff : ∀ (i : Nat) (record : MethodRecord), plan.methods[i]? = some record →
    (record.status = .instrumented ↔ ∃ methodPlan ∈ plan.planned, methodPlan.method = i)
  owns_iff : ∀ i : Nat, (∃ methodPlan ∈ plan.planned, methodPlan.method = i)
    ↔ ∃ p ∈ plan.probes, p.method = i
  /-- Probes and branches are of methods that are listed as instrumented. -/
  probe_listed : ∀ p ∈ plan.probes,
    ∃ record, plan.methods[p.method]? = some record ∧ record.status = .instrumented
  branch_listed : ∀ site ∈ plan.branches,
    ∃ record, plan.methods[site.method]? = some record ∧ record.status = .instrumented
  others : ∀ (i : Nat) (record : MethodRecord), plan.methods[i]? = some record →
    record.status ≠ .instrumented →
      (∀ p ∈ plan.probes, p.method ≠ i) ∧ ∀ site ∈ plan.branches, site.method ≠ i
  /-- The numbers are those that the plans give, so that no other method takes one. -/
  numbers : plan.planned.flatMap MethodPlan.numbers = List.range plan.probeCount

variable {plan : ClassPlan} {policy : Policy} {c : ClassFile}

/-- A plan is put together from what was decided about each method. -/
theorem eq_of_ofClass (h : ofClass policy c = .ok plan) :
  plan.methods = (MethodOutcome.ofClass policy c).map MethodOutcome.record
    ∧ plan.planned = MethodOutcome.plans (MethodOutcome.ofClass policy c)
    ∧ plan.probes = (MethodOutcome.ofClass policy c).flatMap MethodOutcome.probes
    ∧ plan.branches = (MethodOutcome.ofClass policy c).flatMap MethodOutcome.branches
  := by
  simp only [ofClass] at h
  split at h
  · cases h
  · cases h
    exact ⟨rfl, rfl, rfl, rfl⟩

section Members

variable (h : ofClass policy c = .ok plan) (hc : c.WellFormed) {i : Nat}

include h

/-- A method is listed as instrumented exactly when it is planned. -/
theorem instrumented_iff :
  (∃ record, plan.methods[i]? = some record ∧ record.status = .instrumented)
    ↔ ∃ planned, MethodOutcome.Gives (MethodOutcome.ofClass policy c) i planned
  := by
  rw [(eq_of_ofClass h).1, MethodOutcome.ofClass_eq]
  simp only [List.getElem?_map, Option.map_eq_some_iff, MethodOutcome.Gives]
  constructor
  · rintro ⟨_, ⟨outcome, houtcome, rfl⟩, hstatus⟩
    obtain ⟨m, first, -, rfl⟩ := MethodOutcome.exists_of_getElem?_outcomesFrom houtcome
    obtain ⟨planned, hplanned⟩ := MethodOutcome.status_ofMethod_iff.mp hstatus
    exact ⟨planned, _, houtcome, hplanned⟩
  · rintro ⟨planned, outcome, houtcome, hplanned⟩
    obtain ⟨m, first, -, rfl⟩ := MethodOutcome.exists_of_getElem?_outcomesFrom houtcome
    exact ⟨_, ⟨_, houtcome, rfl⟩, MethodOutcome.status_ofMethod_iff.mpr ⟨planned, hplanned⟩⟩

include hc

omit h in
/-- A planned method is one of the class, and its plan is one of its body. -/
theorem exists_ofCode_of_gives {planned : PlannedMethod}
    (hgives : MethodOutcome.Gives (MethodOutcome.ofClass policy c) i planned) :
  ∃ m code first, c.methods[i]? = some m ∧ m.code? = some code ∧ code.instructions ≠ []
    ∧ PlannedMethod.ofCode policy c.pool (c.location m) i first code = .ok planned
  := by
  rw [MethodOutcome.ofClass_eq] at hgives
  simpa using hgives.exists_ofCode hc.methods

omit h in
/-- A planned method is one of the class, and its records are of its probes. -/
theorem exists_method_of_gives {planned : PlannedMethod}
    (hgives : MethodOutcome.Gives (MethodOutcome.ofClass policy c) i planned) :
  ∃ m, c.methods[i]? = some m ∧ planned.KeepsBooks policy m i
  := by
  rw [MethodOutcome.ofClass_eq] at hgives
  simpa using hgives.keepsBooks hc.methods

theorem mem_planned_iff {methodPlan : MethodPlan} :
  methodPlan ∈ plan.planned ∧ methodPlan.method = i
    ↔ ∃ planned, MethodOutcome.Gives (MethodOutcome.ofClass policy c) i planned
      ∧ planned.plan = methodPlan
  := by
  rw [(eq_of_ofClass h).2.1, MethodOutcome.mem_plans_iff]
  constructor
  · rintro ⟨⟨j, planned, hgives, rfl⟩, hmethod⟩
    obtain ⟨_, -, hbooks⟩ := exists_method_of_gives hc hgives
    obtain rfl := hbooks.method_eq.symm.trans hmethod
    exact ⟨planned, hgives, rfl⟩
  · rintro ⟨planned, hgives, rfl⟩
    obtain ⟨_, -, hbooks⟩ := exists_method_of_gives hc hgives
    exact ⟨⟨i, planned, hgives, rfl⟩, hbooks.method_eq⟩

theorem mem_probes_iff {p : ProbeRecord} :
  p ∈ plan.probes ∧ p.method = i
    ↔ ∃ planned, MethodOutcome.Gives (MethodOutcome.ofClass policy c) i planned
      ∧ p ∈ planned.probes
  := by
  rw [(eq_of_ofClass h).2.2.1]
  constructor
  · rintro ⟨hp, hmethod⟩
    obtain ⟨j, planned, hgives, hp⟩ := (MethodOutcome.mem_flatMap_iff _).mp hp
    obtain ⟨_, -, hbooks⟩ := exists_method_of_gives hc hgives
    obtain rfl := (hbooks.owned p hp).symm.trans hmethod
    exact ⟨planned, hgives, hp⟩
  · rintro ⟨planned, hgives, hp⟩
    obtain ⟨_, -, hbooks⟩ := exists_method_of_gives hc hgives
    exact ⟨(MethodOutcome.mem_flatMap_iff _).mpr ⟨i, planned, hgives, hp⟩, hbooks.owned p hp⟩

/-- The records under the position of a planned method are its own. -/
theorem filter_probes {planned : PlannedMethod}
    (hgives : MethodOutcome.Gives (MethodOutcome.ofClass policy c) i planned) :
  plan.probes.filter (·.method == i) = planned.probes
  := by
  rw [(eq_of_ofClass h).2.2.1]
  apply hgives.filter_eq PlannedMethod.probes ProbeRecord.method
  intro j planned' hgives'
  obtain ⟨_, -, hbooks⟩ := exists_method_of_gives hc hgives'
  exact hbooks.owned

theorem exists_gives_of_mem_branches {site : BranchSite} (hsite : site ∈ plan.branches) :
  ∃ planned, MethodOutcome.Gives (MethodOutcome.ofClass policy c) site.method planned
  := by
  rw [(eq_of_ofClass h).2.2.2] at hsite
  obtain ⟨i, planned, hgives, hsite⟩ := (MethodOutcome.mem_flatMap_iff _).mp hsite
  obtain ⟨_, -, hbooks⟩ := exists_method_of_gives hc hgives
  rw [hbooks.branches site hsite]
  exact ⟨planned, hgives⟩

/-- A method is planned exactly when there is a record of it. -/
theorem exists_mem_probes_iff :
  (∃ p ∈ plan.probes, p.method = i)
    ↔ ∃ planned, MethodOutcome.Gives (MethodOutcome.ofClass policy c) i planned
  := by
  constructor
  · rintro ⟨p, hp⟩
    obtain ⟨planned, hgives, -⟩ := (mem_probes_iff h hc).mp hp
    exact ⟨planned, hgives⟩
  · rintro ⟨planned, hgives⟩
    obtain ⟨_, -, hbooks⟩ := exists_method_of_gives hc hgives
    have hne : planned.probes ≠ [] := by
      intro hnil
      apply hbooks.probed
      rw [← hbooks.numbers, hnil]
      rfl
    obtain ⟨p, hp⟩ := List.exists_mem_of_ne_nil _ hne
    exact ⟨p, (mem_probes_iff h hc).mpr ⟨planned, hgives, hp⟩⟩

theorem exists_mem_planned_iff :
  (∃ methodPlan ∈ plan.planned, methodPlan.method = i)
    ↔ ∃ planned, MethodOutcome.Gives (MethodOutcome.ofClass policy c) i planned
  := by
  constructor
  · rintro ⟨methodPlan, hmem⟩
    obtain ⟨planned, hgives, -⟩ := (mem_planned_iff h hc).mp hmem
    exact ⟨planned, hgives⟩
  · rintro ⟨planned, hgives⟩
    exact ⟨planned.plan, (mem_planned_iff h hc).mpr ⟨planned, hgives, rfl⟩⟩

/-- Each probe stands in the place of its number, in the order of methods and blocks. -/
theorem probes_ordered :
  (∀ (k : Nat) (p : ProbeRecord), plan.probes[k]? = some p → p.probe = k)
    ∧ plan.probes.Pairwise fun p q =>
      p.method < q.method ∨ p.method = q.method ∧ p.block < q.block
  := by
  rw [(eq_of_ofClass h).2.2.1, MethodOutcome.ofClass_eq]
  obtain ⟨hnumbers, hordered⟩ := @MethodOutcome.probes_outcomesFrom policy c 0 0 c.methods hc.methods
  refine ⟨?_, hordered⟩
  intro k p hk
  have hprobe := congrArg (fun numbers => numbers[k]?) hnumbers
  rw [List.getElem?_map, hk, ← List.range_eq_range', Option.map_some, eq_comm,
    List.getElem?_eq_some_iff] at hprobe
  obtain ⟨hlt, heq⟩ := hprobe
  rw [← heq, List.getElem_range]

/-- The records of a planned method are those of its blocks with a probe. -/
theorem bijOn_probes {methodPlan : MethodPlan} (hmem : methodPlan ∈ plan.planned) :
  Set.BijOn (fun p : ProbeRecord => (p.block, p.probe))
    {p | p ∈ plan.probes ∧ p.method = methodPlan.method}
    {entry | methodPlan.blockProbes[entry.1]? = some (some entry.2)}
  := by
  have hnumbered := (probes_ordered h hc).1
  obtain ⟨planned, hgives, rfl⟩ := (mem_planned_iff h hc).mp ⟨hmem, rfl⟩
  obtain ⟨_, -, hbooks⟩ := exists_method_of_gives hc hgives
  refine ⟨?_, ?_, ?_⟩
  · intro p hp
    obtain ⟨planned', hgives', hmem'⟩ := (mem_probes_iff h hc).mp hp
    rw [hbooks.method_eq] at hgives'
    obtain rfl := hgives.unique hgives'
    exact (hbooks.placed _ _).mpr ⟨p, hmem', rfl, rfl⟩
  · -- the number of a probe tells where its record stands
    rintro p ⟨hp, -⟩ q ⟨hq, -⟩ heq
    obtain ⟨i, hi⟩ := List.mem_iff_getElem?.mp hp
    obtain ⟨j, hj⟩ := List.mem_iff_getElem?.mp hq
    have hprobe := (Prod.mk.inj heq).2
    rw [hnumbered i p hi, hnumbered j q hj] at hprobe
    rw [hprobe] at hi
    apply Option.some.inj (hi.symm.trans hj)
  · rintro ⟨block, n⟩ hn
    obtain ⟨p, hp, rfl, rfl⟩ := (hbooks.placed _ _).mp hn
    exact ⟨p, (mem_probes_iff h hc).mpr ⟨planned, hgives, hp⟩, rfl⟩

end Members

theorem keepsBooks_of_ofClass (h : ofClass policy c = .ok plan) (hc : c.WellFormed) :
  plan.KeepsBooks policy c
  := by
  obtain ⟨hnumbered, hordered⟩ := probes_ordered h hc
  have hof := isOf_of_ofClass h hc
  exact {
    methods := by
      rw [(eq_of_ofClass h).1, MethodOutcome.ofClass_eq, List.map_map]
      apply MethodOutcome.names_outcomesFrom
    numbered := hnumbered
    ordered := hordered
    planned := by
      intro methodPlan hmem
      obtain ⟨planned, hgives, rfl⟩ := (mem_planned_iff h hc).mp ⟨hmem, rfl⟩
      obtain ⟨m, hm, hbooks⟩ := exists_method_of_gives hc hgives
      obtain ⟨code, hcode⟩ := hbooks.body
      exact ⟨m, code, hm, hcode⟩
    distinct := hof.ordered
    placed := fun _ hmem => bijOn_probes h hc hmem
    everyBlock := by
      intro hgranularity methodPlan hmem
      obtain ⟨planned, hgives, rfl⟩ := (mem_planned_iff h hc).mp ⟨hmem, rfl⟩
      obtain ⟨_, -, hbooks⟩ := exists_method_of_gives hc hgives
      apply hbooks.everyBlock hgranularity
    planned_iff := by
      intro i record hrecord
      rw [exists_mem_planned_iff h hc, ← instrumented_iff h, hrecord]
      simp
    owns_iff := by
      intro i
      rw [exists_mem_planned_iff h hc, exists_mem_probes_iff h hc]
    probe_listed := by
      intro p hp
      rw [instrumented_iff h, ← exists_mem_probes_iff h hc]
      exact ⟨p, hp, rfl⟩
    branch_listed := by
      intro site hsite
      rw [instrumented_iff h]
      apply exists_gives_of_mem_branches h hc hsite
    others := by
      intro i record hrecord hstatus
      have hnone : ¬ ∃ planned, MethodOutcome.Gives (MethodOutcome.ofClass policy c) i planned := by
        rw [← instrumented_iff h, hrecord]
        simpa using hstatus
      constructor
      · intro p hp hmethod
        apply hnone ((exists_mem_probes_iff h hc).mp ⟨p, hp, hmethod⟩)
      · rintro site hsite rfl
        apply hnone (exists_gives_of_mem_branches h hc hsite)
    numbers := hof.numbers }

/-- The plan of a class that was read keeps its books. -/
theorem keepsBooks_of_read {bytes : List UInt8} (hread : ClassFile.read bytes = .ok c)
    (h : ofClass policy c = .ok plan) :
  plan.KeepsBooks policy c
  := keepsBooks_of_ofClass h (ClassFile.wellFormed_of_read hread).1

/-- The books of the class with a jump. -/
theorem keepsBooks_jumpClass :
  ∃ plan, ofClass {} ClassFile.jumpClass = .ok plan ∧ plan.planned ≠ []
    ∧ plan.KeepsBooks {} ClassFile.jumpClass
  := by
  obtain ⟨plan, hplan, hne⟩ := ClassFile.exists_plan_jumpClass
  exact ⟨plan, hplan, hne, keepsBooks_of_read ClassFile.read_form_jumpClass hplan⟩

end ClassPlan

end JvmCoverage
