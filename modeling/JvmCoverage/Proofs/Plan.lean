import JvmCoverage.Probe.Plan
import JvmCoverage.Proofs.Blocks
import JvmCoverage.Proofs.Class
import JvmCoverage.Proofs.Layout
import Mathlib.Data.List.ReduceOption

/-!
# What a plan says

A planned method has the graph and a layout of its body, and its layout puts a probe in front of
an instruction exactly when the instruction starts a block with that probe
(`MethodPlan.IsOf.probe_eq`).  The probes of a class are numbered from 0 on through all of its
planned methods (`ClassPlan.isOf_of_ofClass`).
-/

namespace JvmCoverage

/-! ## Numbers -/

namespace Probe

variable {α : Type}

/-- The numbers of the chosen blocks, from `first` on. -/
def numbersFrom (first : Nat) : List (Option α) → List (Option Nat)
  | [] => []
  | some _ :: choices => some first :: numbersFrom (first + 1) choices
  | none :: choices => none :: numbersFrom first choices

theorem foldl_numberNext (first : Nat) (numbers : Array (Option Nat))
    (choices : List (Option α)) :
  (choices.foldl numberNext (first, numbers)).2.toList
    = numbers.toList ++ numbersFrom first choices
  := by
  induction choices generalizing first numbers with
  | nil => simp [numbersFrom]
  | cons choice choices ih => cases choice <;> simp [numberNext, numbersFrom, ih]

theorem toList_number (first : Nat) (choices : Array (Option α)) :
  (number first choices).toList = numbersFrom first choices.toList
  := by
  rw [number, ← Array.foldl_toList, foldl_numberNext]
  rfl

theorem length_numbersFrom (first : Nat) (choices : List (Option α)) :
  (numbersFrom first choices).length = choices.length
  := by
  induction choices generalizing first with
  | nil => rfl
  | cons choice choices ih => cases choice <;> simp [numbersFrom, ih]

/-- The numbers given are consecutive. -/
theorem reduceOption_numbersFrom (first : Nat) (choices : List (Option α)) :
  (numbersFrom first choices).reduceOption = List.range' first choices.reduceOption.length
  := by
  induction choices generalizing first with
  | nil => rfl
  | cons choice choices ih =>
    cases choice with
    | none =>
      rw [numbersFrom, List.reduceOption_cons_of_none, List.reduceOption_cons_of_none, ih]
    | some a =>
      rw [numbersFrom, List.reduceOption_cons_of_some, List.reduceOption_cons_of_some, ih,
        List.length_cons, List.range'_succ]

/-! ## Choices -/

theorem size_foldl_chooseNext (seen : Std.HashSet UInt16)
    (choices : Array (Option (List UInt16))) (blocks : List BasicBlock) :
  (blocks.foldl chooseNext (seen, choices)).2.size = choices.size + blocks.length
  := by
  induction blocks generalizing seen choices with
  | nil => rfl
  | cons b blocks ih =>
    simp only [List.foldl_cons, chooseNext, ih, Array.size_push, List.length_cons]
    omega

theorem size_choose (granularity : Granularity) (blocks : Array BasicBlock) :
  (choose granularity blocks).size = blocks.size
  := by
  cases granularity with
  | basicBlock => simp [choose]
  | line =>
    rw [choose, ← Array.foldl_toList, size_foldl_chooseNext]
    simp

/-- Choices made are not changed by the blocks behind. -/
theorem getElem?_foldl_chooseNext (seen : Std.HashSet UInt16)
    (choices : Array (Option (List UInt16))) (blocks : List BasicBlock) {i : Nat}
    (hi : i < choices.size) :
  (blocks.foldl chooseNext (seen, choices)).2[i]? = choices[i]?
  := by
  induction blocks generalizing seen choices with
  | nil => rfl
  | cons b blocks ih =>
    have hlt : i < (choices.push (firstLines seen b)).size := by
      rw [Array.size_push]
      omega
    rw [List.foldl_cons, chooseNext, ih _ _ hlt, Array.getElem?_push]
    apply if_neg (Nat.ne_of_lt hi)

/-- The first block is always chosen. -/
theorem choose_zero (granularity : Granularity) {blocks : Array BasicBlock}
    (h : 0 < blocks.size) :
  ∃ lines, (choose granularity blocks)[0]? = some (some lines)
  := by
  obtain ⟨blocks⟩ := blocks
  cases blocks with
  | nil => cases h
  | cons b blocks =>
    cases granularity with
    | basicBlock => exact ⟨b.lines, by simp [choose]⟩
    | line =>
      have hfirst : firstLines ∅ b = some b.lines := by
        cases hlines : b.lines <;> simp [firstLines, hlines]
      use b.lines
      rw [choose, ← Array.foldl_toList, List.foldl_cons, chooseNext,
        getElem?_foldl_chooseNext _ _ _ (by simp), hfirst]
      rfl

/-! ## Probes in front of instructions -/

/-- The probes in front of the instructions of blocks. -/
def spreadAll (blocks : List (BasicBlock × Option Nat)) : List (Option Nat) :=
  blocks.flatMap fun (b, probe) => spread b probe

theorem spreadAll_cons (b : BasicBlock) (probe : Option Nat)
    (blocks : List (BasicBlock × Option Nat)) :
  spreadAll ((b, probe) :: blocks) = spread b probe ++ spreadAll blocks
  := rfl

/-- Blocks with probes that are made of runs. -/
abbrev BlocksOf (runs : List (List Instruction)) (blocks : List (BasicBlock × Option Nat)) : Prop :=
  List.Forall₂ (fun run block => FlowGraph.IsOf run block.1) runs blocks

/-- Every instruction of a block has a place for a probe. -/
theorem length_spreadAll {runs : List (List Instruction)}
    {blocks : List (BasicBlock × Option Nat)} (h : BlocksOf runs blocks) :
  (spreadAll blocks).length = runs.flatten.length
  := by
  induction h with
  | nil => rfl
  | @cons run block runs blocks hrun _ ih =>
    obtain ⟨head, tail, rfl, -, hcount⟩ := hrun
    rw [spreadAll_cons, List.length_append, ih, List.flatten_cons, List.length_append, spread,
      hcount]
    simp

/-- Only the first instructions of blocks have probes. -/
theorem reduceOption_spreadAll (blocks : List (BasicBlock × Option Nat)) :
  (spreadAll blocks).reduceOption = (blocks.map Prod.snd).reduceOption
  := by
  induction blocks with
  | nil => rfl
  | cons block blocks ih =>
    obtain ⟨b, probe⟩ := block
    rw [spreadAll_cons, List.reduceOption_append, ih, List.map_cons, spread]
    cases probe <;> simp [List.reduceOption]

/-- The probe in front of an instruction is that of the block that starts there. -/
theorem mem_zip_spreadAll {runs : List (List Instruction)}
    {blocks : List (BasicBlock × Option Nat)} (h : BlocksOf runs blocks)
    (hoffsets : runs.flatten.Pairwise fun a b => a.offset < b.offset) {insn : Instruction}
    {probe : Option Nat} (hmem : (insn, probe) ∈ runs.flatten.zip (spreadAll blocks)) {n : Nat} :
  probe = some n ↔ ∃ b, (b, some n) ∈ blocks ∧ b.start = insn.offset
  := by
  induction h with
  | nil => cases hmem
  | @cons run block runs blocks hrun hruns ih =>
    obtain ⟨b, first⟩ := block
    obtain ⟨head, tail, rfl, hstart, hcount⟩ := hrun
    rw [List.flatten_cons, List.pairwise_append] at hoffsets
    obtain ⟨hfront, hback, hlt⟩ := hoffsets
    obtain ⟨hhead, -⟩ := List.pairwise_cons.mp hfront
    have hspread : spread b first = first :: List.replicate tail.length none := by
      rw [spread, hcount, Nat.add_sub_cancel]
    -- no block behind starts in this run
    have hother : ∀ insn' ∈ head :: tail, ∀ b', (b', some n) ∈ blocks →
        b'.start ≠ insn'.offset := by
      intro insn' hinsn' b' hb'
      have hblocks : List.Forall₂ FlowGraph.IsOf runs (blocks.map Prod.fst) :=
        List.forall₂_map_right_iff.mpr hruns
      obtain ⟨start, hmem, heq⟩ := FlowGraph.exists_start hblocks (List.mem_map_of_mem hb')
      rw [← heq]
      apply (hlt insn' hinsn' start hmem).ne'
    rw [List.flatten_cons, spreadAll_cons, List.zip_append (by simp [hspread]), List.mem_append,
      hspread, List.zip_cons_cons, List.mem_cons] at hmem
    simp only [List.mem_cons, Prod.mk.injEq]
    rcases hmem with (hfirst | htail) | hrest
    · obtain ⟨rfl, rfl⟩ := Prod.mk.inj hfirst
      constructor
      · rintro rfl
        exact ⟨b, .inl ⟨rfl, rfl⟩, hstart⟩
      · rintro ⟨b', ⟨rfl, hprobe⟩ | hb', hb'start⟩
        · apply hprobe.symm
        · exact absurd hb'start (hother insn List.mem_cons_self b' hb')
    · have hinsn := (List.of_mem_zip htail).1
      obtain rfl := List.eq_of_mem_replicate (List.of_mem_zip htail).2
      simp only [reduceCtorEq, false_iff]
      rintro ⟨b', ⟨rfl, -⟩ | hb', hb'start⟩
      · rw [hstart] at hb'start
        apply (hhead insn hinsn).ne hb'start
      · apply hother insn (List.mem_cons_of_mem head hinsn) b' hb' hb'start
    · rw [ih hback hrest]
      constructor
      · rintro ⟨b', hb', hb'start⟩
        exact ⟨b', .inr hb', hb'start⟩
      · rintro ⟨b', ⟨rfl, -⟩ | hb', hb'start⟩
        · have hinsn := (List.of_mem_zip hrest).1
          rw [hstart] at hb'start
          exact absurd hb'start (hlt head List.mem_cons_self insn hinsn).ne
        · exact ⟨b', hb', hb'start⟩

end Probe

/-! ## Methods -/

/-- The body found in a method is one of its attributes. -/
theorem Method.wellFormed_code {pool : ConstantPool} {m : Method} (h : m.WellFormed pool)
    {code : Code} (hcode : m.code? = some code) :
  code.WellFormed pool
  := by
  obtain ⟨attr, hattr, heq⟩ := List.exists_of_findSome?_eq_some hcode
  have hwf := h.attributes attr hattr
  cases attr with
  | code nameIndex body =>
    obtain rfl := Option.some.inj heq
    apply hwf.2
  | other raw => cases heq

namespace MethodPlan

/-- The probe that the plan places in front of the instruction at `offset`. -/
def probeAt? (plan : MethodPlan) (offset : Nat) : Option Nat :=
  (plan.graph.blockAt? offset).bind (probeOf? plan.blockProbes)

/-- The numbers of the probes of the method, in order. -/
def numbers (plan : MethodPlan) : List Nat :=
  plan.blockProbes.toList.reduceOption

/-- Whether the plan is one of `code` with probes numbered from `first` on. -/
structure IsOf (plan : MethodPlan) (code : Code) (first : Nat) : Prop where
  graph_eq : plan.graph = FlowGraph.ofCode code
  size_eq : plan.blockProbes.size = plan.graph.blocks.size
  numbers_eq : plan.numbers = List.range' first plan.numbers.length
  probed : plan.numbers ≠ []
  layout : plan.layout.IsFor code (probeOf? (probesByInstruction plan.graph plan.blockProbes))
  room : code.maxStack.toNat + Probe.operands ≤ PlannedMethod.maxOperands
  movable : ∀ raw, .other raw ∉ code.attributes

variable {plan : MethodPlan} {code : Code} {first : Nat}

theorem IsOf.blocksOf (h : plan.IsOf code first) :
  Probe.BlocksOf (FlowGraph.codeRuns code)
    (plan.graph.blocks.toList.zip plan.blockProbes.toList)
  := by
  have hfst : (plan.graph.blocks.toList.zip plan.blockProbes.toList).map Prod.fst
      = plan.graph.blocks.toList := by
    apply List.map_fst_zip
    rw [Array.length_toList, Array.length_toList, h.size_eq]
  rw [Probe.BlocksOf, ← List.forall₂_map_right_iff (f := Prod.fst) (R := FlowGraph.IsOf), hfst,
    h.graph_eq]
  apply FlowGraph.forall₂_isOf code

/-- The probes of the sites are those spread over the blocks. -/
theorem IsOf.map_probe (h : plan.IsOf code first) :
  plan.layout.sites.toList.map Site.probe
    = Probe.spreadAll (plan.graph.blocks.toList.zip plan.blockProbes.toList)
  := by
  have hlength := Probe.length_spreadAll h.blocksOf
  rw [FlowGraph.flatten_codeRuns] at hlength
  rw [h.layout.probes]
  apply List.ext_getElem
  · rw [List.length_mapIdx, hlength]
  · intro i hi hi'
    rw [List.getElem_mapIdx]
    have hprobes : probesByInstruction plan.graph plan.blockProbes
        = (Probe.spreadAll (plan.graph.blocks.toList.zip plan.blockProbes.toList)).toArray := rfl
    rw [probeOf?, hprobes, List.getElem?_toArray, List.getElem?_eq_getElem hi']
    rfl

/-- A site has the probe that the plan places in front of its instruction. -/
theorem IsOf.probe_eq (h : plan.IsOf code first) {limit : Nat}
    (htiles : CodeArray.Tiles 0 code.instructions limit) {site : Site}
    (hsite : site ∈ plan.layout.sites.toList) :
  site.probe = plan.probeAt? site.old
  := by
  have hmem : (site.insn, site.probe) ∈ (FlowGraph.codeRuns code).flatten.zip
      (Probe.spreadAll (plan.graph.blocks.toList.zip plan.blockProbes.toList)) := by
    rw [FlowGraph.flatten_codeRuns, ← h.layout.insns, ← h.map_probe, List.zip_map']
    apply List.mem_map_of_mem hsite
  have hoffsets : (FlowGraph.codeRuns code).flatten.Pairwise fun a b => a.offset < b.offset := by
    rw [FlowGraph.flatten_codeRuns]
    apply FlowGraph.pairwise_offset htiles
  apply Option.ext
  intro n
  rw [Probe.mem_zip_spreadAll h.blocksOf hoffsets hmem]
  simp only [probeAt?, Option.bind_eq_some_iff, h.graph_eq, FlowGraph.blockAt?_eq_some htiles,
    List.mem_iff_getElem?, List.getElem?_zip_eq_some, Array.getElem?_toList, probeOf?,
    Option.join_eq_some_iff]
  constructor
  · rintro ⟨b, ⟨id, hb, hprobe⟩, hstart⟩
    exact ⟨id, ⟨b, hb, hstart⟩, hprobe⟩
  · rintro ⟨id, ⟨b, hb, hstart⟩, hprobe⟩
    exact ⟨b, ⟨id, hb, hprobe⟩, hstart⟩

/-- The probes of the sites are those of the blocks. -/
theorem IsOf.numbers_sites (h : plan.IsOf code first) :
  plan.layout.sites.toList.filterMap Site.probe = plan.numbers
  := by
  have hsnd : (plan.graph.blocks.toList.zip plan.blockProbes.toList).map Prod.snd
      = plan.blockProbes.toList := by
    apply List.map_snd_zip
    rw [Array.length_toList, Array.length_toList, h.size_eq]
  rw [numbers, ← hsnd, ← Probe.reduceOption_spreadAll, ← h.map_probe, List.reduceOption,
    List.filterMap_map]
  rfl

/-- The records of a method are of its probes, in order. -/
theorem map_probe_records {method : Nat} {graph : FlowGraph}
    {choices : Array (Option (List UInt16))} (hsize : choices.size = graph.blocks.size) :
  (records method graph choices (Probe.number first choices)).map ProbeRecord.probe
    = (Probe.number first choices).toList.reduceOption
  := by
  rw [records, Probe.toList_number]
  rw [← Array.length_toList, ← Array.length_toList] at hsize
  generalize graph.blocks.toList = blocks at hsize ⊢
  generalize choices.toList = choices at hsize ⊢
  induction choices generalizing blocks first with
  | nil => simp [Probe.numbersFrom, List.reduceOption]
  | cons choice choices ih =>
    cases blocks with
    | nil => cases hsize
    | cons b blocks =>
      have hlength : choices.length = blocks.length := by simpa using hsize
      cases choice with
      | none => simpa [Probe.numbersFrom, List.reduceOption] using ih blocks hlength
      | some lines => simpa [Probe.numbersFrom, List.reduceOption] using ih blocks hlength

end MethodPlan

namespace PlannedMethod

theorem checkCode_eq_ok {pool : ConstantPool} {code : Code} {location : String}
    (h : checkCode pool code location = .ok ()) :
  code.maxStack.toNat + Probe.operands ≤ maxOperands ∧ ∀ raw, .other raw ∉ code.attributes
  := by
  unfold checkCode at h
  split at h
  · cases h
  rename_i hnames
  constructor
  · by_contra hlt
    simp only [Nat.lt_of_not_le hlt, if_true, reduceCtorEq] at h
  · intro raw hraw
    have hname : raw.name pool ∈ code.opaqueNames pool :=
      List.mem_filterMap.mpr ⟨.other raw, hraw, rfl⟩
    rw [hnames] at hname
    cases hname

/-- A method that is planned has a plan of its body, and a record of each probe. -/
theorem isOf_of_ofCode {policy : Policy} {pool : ConstantPool} {location : String}
    {method first : Nat} {code : Code} {planned : PlannedMethod}
    (h : ofCode policy pool location method first code = .ok planned)
    (hne : code.instructions ≠ []) :
  planned.plan.method = method ∧ planned.plan.IsOf code first
    ∧ planned.probes.map ProbeRecord.probe = planned.plan.numbers
  := by
  simp only [ofCode, bind_eq_ok, pure_eq_ok] at h
  obtain ⟨⟨⟩, hcheck, layout, hlayout, rfl⟩ := h
  obtain ⟨hroom, hmovable⟩ := checkCode_eq_ok hcheck
  refine ⟨rfl, ?_, ?_⟩
  · exact {
      graph_eq := rfl
      size_eq := by
        rw [← Array.length_toList, Probe.toList_number, Probe.length_numbersFrom,
          Array.length_toList, Probe.size_choose]
      numbers_eq := by
        simp only [MethodPlan.numbers, Probe.toList_number, Probe.reduceOption_numbersFrom,
          List.length_range']
      probed := by
        have hsize : 0 < (FlowGraph.ofCode code).blocks.size := FlowGraph.blocks_pos hne
        obtain ⟨lines, hlines⟩ := Probe.choose_zero policy.granularity hsize
        rw [← Array.getElem?_toList] at hlines
        have hmem : some lines
            ∈ (Probe.choose policy.granularity (FlowGraph.ofCode code).blocks).toList :=
          List.mem_of_getElem? hlines
        simp only [MethodPlan.numbers, Probe.toList_number, Probe.reduceOption_numbersFrom]
        intro hnil
        have hlength := congrArg List.length hnil
        rw [List.length_range', List.length_nil, List.length_eq_zero_iff] at hlength
        have hlines' := List.reduceOption_mem_iff.mpr hmem
        rw [hlength] at hlines'
        cases hlines'
      layout := Layout.isFor_of_compute hlayout
      room := hroom
      movable := hmovable }
  · apply MethodPlan.map_probe_records (Probe.size_choose _ _)

end PlannedMethod

/-! ## Classes -/

namespace MethodOutcome

variable {policy : Policy} {c : ClassFile}

/-- The outcomes for `methods`, the first of them at position `index` and with probes numbered
from `first` on. -/
def outcomesFrom (policy : Policy) (c : ClassFile) (index first : Nat) :
    List Method → List MethodOutcome
  | [] => []
  | m :: methods =>
    let outcome := ofMethod policy c index first m
    outcome :: outcomesFrom policy c (index + 1) (first + outcome.probes.length) methods

theorem foldl_planNext (first : Nat) (outcomes : Array MethodOutcome) (methods : List Method) :
  (methods.foldl (planNext policy c) (first, outcomes)).2.toList
    = outcomes.toList ++ outcomesFrom policy c outcomes.size first methods
  := by
  induction methods generalizing first outcomes with
  | nil => simp [outcomesFrom]
  | cons m methods ih => simp [planNext, outcomesFrom, ih]

theorem ofClass_eq :
  ofClass policy c = outcomesFrom policy c 0 0 c.methods
  := by
  rw [ofClass, foldl_planNext]
  rfl

/-- Whether the plan is one of the method with probes numbered from `first` on. -/
def Plans (m : Method) (first : Nat) (plan : MethodPlan) : Prop :=
  ∃ code, m.code? = some code ∧ plan.IsOf code first

/-- A method that may get probes has a body. -/
theorem eligible_eq_ok {m : Method} {code : Code} {pool : ConstantPool}
    (h : eligible policy pool m = .ok code) :
  m.code? = some code
  := by
  unfold eligible at h
  split at h
  · cases h
  split at h
  · cases h
  rename_i code' hcode
  split at h
  · cases h
  split at h
  · cases h
  split at h
  · cases h
    apply hcode
  split at h
  · split at h
    · cases h
    · cases h
      apply hcode
  · cases h

/-- A method that gets probes has a body that they are planned for. -/
theorem exists_ofCode_of_planned {index first : Nat} {m : Method} {planned : PlannedMethod}
    (h : (ofMethod policy c index first m).planned = some planned) :
  ∃ code, m.code? = some code
    ∧ PlannedMethod.ofCode policy c.pool (c.location m) index first code = .ok planned
  := by
  simp only [ofMethod] at h
  split at h
  · rename_i planned' hplanned
    obtain rfl := Option.some.inj h
    obtain ⟨code, heligible, hplan⟩ := bind_eq_ok.mp hplanned
    use code, eligible_eq_ok heligible
    cases hofCode : PlannedMethod.ofCode policy c.pool (c.location m) index first code with
    | error e =>
      rw [hofCode] at hplan
      cases hplan
    | ok planned'' =>
      rw [hofCode] at hplan
      exact congrArg _ (Except.ok.inj hplan)
  · cases h

/-- A method that gets probes has a plan of its body; one that gets none has no records. -/
theorem ofMethod_cases {index first : Nat} {m : Method} (hm : m.WellFormed c.pool) :
  (∃ planned, (ofMethod policy c index first m).planned = some planned
      ∧ planned.plan.method = index ∧ Plans m first planned.plan
      ∧ (ofMethod policy c index first m).probes.map ProbeRecord.probe = planned.plan.numbers)
    ∨ ((ofMethod policy c index first m).planned = none
      ∧ (ofMethod policy c index first m).probes = [])
  := by
  rw [probes]
  cases hplanned : (ofMethod policy c index first m).planned with
  | none => exact .inr ⟨rfl, rfl⟩
  | some planned =>
    obtain ⟨code, hcode, hofCode⟩ := exists_ofCode_of_planned hplanned
    have hne := (Method.wellFormed_code hm hcode).ne_nil
    obtain ⟨hmethod, hplans, hrecords⟩ := PlannedMethod.isOf_of_ofCode hofCode hne
    exact .inl ⟨planned, rfl, hmethod, ⟨code, hcode, hplans⟩, hrecords⟩

/-- The plans of the methods that get probes. -/
def plans (outcomes : List MethodOutcome) : List MethodPlan :=
  outcomes.filterMap fun outcome => outcome.planned.map PlannedMethod.plan

theorem plans_cons_some {outcome : MethodOutcome} {outcomes : List MethodOutcome}
    {planned : PlannedMethod} (h : outcome.planned = some planned) :
  plans (outcome :: outcomes) = planned.plan :: plans outcomes
  := by
  rw [plans, List.filterMap_cons, h]
  rfl

theorem plans_cons_none {outcome : MethodOutcome} {outcomes : List MethodOutcome}
    (h : outcome.planned = none) :
  plans (outcome :: outcomes) = plans outcomes
  := by
  rw [plans, List.filterMap_cons, h]
  rfl

/-- The plans are those of methods in order, and their probes are numbered through. -/
theorem plans_outcomesFrom {methods : List Method} (hmethods : ∀ m ∈ methods, m.WellFormed c.pool)
    (index first : Nat) :
  (∀ plan ∈ plans (outcomesFrom policy c index first methods),
      ∃ m first', (m, plan.method) ∈ methods.zipIdx index ∧ Plans m first' plan)
    ∧ (plans (outcomesFrom policy c index first methods)).Pairwise
      (fun a b => a.method < b.method)
    ∧ (plans (outcomesFrom policy c index first methods)).flatMap MethodPlan.numbers
      = List.range' first ((outcomesFrom policy c index first methods).flatMap probes).length
  := by
  induction methods generalizing index first with
  | nil => simp [outcomesFrom, plans]
  | cons m methods ih =>
    obtain ⟨hm, hmethods⟩ := List.forall_mem_cons.mp hmethods
    obtain ⟨hplans, hordered, hnumbers⟩ := ih hmethods (index + 1)
      (first + (ofMethod policy c index first m).probes.length)
    rw [List.zipIdx_cons, outcomesFrom, List.flatMap_cons, List.length_append]
    rcases ofMethod_cases hm with ⟨planned, hplanned, hmethod, hplan, hrecords⟩ | ⟨hnone, hprobes⟩
    · have hlength := congrArg List.length hrecords
      rw [List.length_map] at hlength
      rw [plans_cons_some hplanned]
      refine ⟨List.forall_mem_cons.mpr ⟨?_, ?_⟩, .cons ?_ hordered, ?_⟩
      · exact ⟨m, first, by rw [hmethod]; exact List.mem_cons_self, hplan⟩
      · intro plan hplan
        obtain ⟨m', first', hmem, hplan'⟩ := hplans plan hplan
        exact ⟨m', first', List.mem_cons_of_mem _ hmem, hplan'⟩
      · intro plan hplan
        obtain ⟨m', first', hmem, -⟩ := hplans plan hplan
        rw [hmethod]
        apply List.le_snd_of_mem_zipIdx hmem
      · obtain ⟨code, -, hof⟩ := hplan
        rw [List.flatMap_cons, hnumbers, hof.numbers_eq, hlength, List.range'_append_1]
    · rw [plans_cons_none hnone]
      refine ⟨?_, hordered, ?_⟩
      · intro plan hplan
        obtain ⟨m', first', hmem, hplan'⟩ := hplans plan hplan
        exact ⟨m', first', List.mem_cons_of_mem _ hmem, hplan'⟩
      · rw [hnumbers, hprobes]
        simp

end MethodOutcome

namespace MethodPlan

variable {plan : MethodPlan}

theorem probeCount_eq :
  plan.probeCount = plan.numbers.length
  := by
  rw [probeCount, ← Array.countP_toList, numbers]
  induction plan.blockProbes.toList with
  | nil => rfl
  | cons probe probes ih => cases probe <;> simp [List.reduceOption, ih]

/-- A planned method has probes. -/
theorem IsOf.probeCount_ne_zero {code : Code} {first : Nat} (h : plan.IsOf code first) :
  plan.probeCount ≠ 0
  := by
  rw [probeCount_eq]
  exact fun hzero => h.probed (List.length_eq_zero_iff.mp hzero)

end MethodPlan

namespace ClassPlan

/-- Whether the plan is one of `c` that calls `bridge`. -/
structure IsOf (plan : ClassPlan) (bridge : Bridge) (c : ClassFile) : Prop where
  bridge_eq : plan.bridge = bridge
  methods : ∀ methodPlan ∈ plan.planned, ∃ m first, c.methods[methodPlan.method]? = some m
    ∧ MethodOutcome.Plans m first methodPlan
  ordered : plan.planned.Pairwise fun a b => a.method < b.method
  numbers : plan.planned.flatMap MethodPlan.numbers = List.range plan.probeCount
  room : plan.isEmpty = false → neededSlots c plan.probeCount ≤ ConstantPool.maxSlots

variable {plan : ClassPlan} {c : ClassFile}

/-- Planning makes a plan of the class. -/
theorem isOf_of_ofClass {policy : Policy} (h : ofClass policy c = .ok plan)
    (hc : c.WellFormed) :
  plan.IsOf policy.bridge c
  := by
  simp only [ofClass] at h
  split at h
  · cases h
  rename_i hroom
  cases h
  rw [MethodOutcome.ofClass_eq] at hroom ⊢
  obtain ⟨hplans, hordered, hnumbers⟩ := MethodOutcome.plans_outcomesFrom hc.methods 0 0
  refine ⟨rfl, ?_, hordered, ?_, ?_⟩
  · intro methodPlan hmem
    obtain ⟨m, first, hm, hplan⟩ := hplans methodPlan hmem
    exact ⟨m, first, List.mem_zipIdx_iff_getElem?.mp hm, hplan⟩
  · rw [List.range_eq_range']
    apply hnumbers
  · intro hne
    by_contra hlt
    apply hroom
    rw [Bool.and_eq_true, decide_eq_true_iff]
    exact ⟨by simpa [isEmpty] using hne, Nat.lt_of_not_le hlt⟩

/-- A class that was read is well formed, and its plan is one of the class. -/
theorem isOf_of_read {bytes : List UInt8} {policy : Policy} (hread : ClassFile.read bytes = .ok c)
    (h : ofClass policy c = .ok plan) :
  c.WellFormed ∧ plan.IsOf policy.bridge c
  := by
  obtain ⟨hc, -⟩ := ClassFile.wellFormed_of_read hread
  exact ⟨hc, isOf_of_ofClass h hc⟩

/-- A plan has probes when it has planned methods. -/
theorem IsOf.isEmpty_iff {bridge : Bridge} (h : plan.IsOf bridge c) :
  plan.isEmpty ↔ plan.planned = []
  := by
  have hlength := congrArg List.length h.numbers
  rw [List.length_range] at hlength
  rw [isEmpty, List.isEmpty_iff_length_eq_zero, ← probeCount, ← hlength]
  constructor
  · intro hzero
    by_contra hne
    obtain ⟨methodPlan, rest, hcons⟩ := List.exists_cons_of_ne_nil hne
    obtain ⟨m, first, -, code, -, hof⟩ := h.methods methodPlan (by simp [hcons])
    rw [hcons, List.flatMap_cons, List.length_append] at hzero
    apply hof.probed (List.length_eq_zero_iff.mp (by omega))
  · intro hnil
    rw [hnil]
    rfl

end ClassPlan

/-! ## A plan of the class with a jump -/

namespace ClassFile

/-- The blocks of `jumpBody`, the first with the given successors. -/
def jumpBlocks (successors : List Edge) : Array BasicBlock :=
  #[{ id := 0, start := 0, first := 0, count := 2,
      last := ⟨1, .switch Opcode.tableswitch 20 (.table 0 [20])⟩, lines := [], successors },
    { id := 1, start := 20, first := 2, count := 1, last := ⟨20, .methodReturn 0xb1⟩, lines := [],
      successors := [] }]

theorem ofCode_jumpBody :
  FlowGraph.ofCode jumpBody = ⟨jumpBlocks [⟨1, .branchTaken⟩]⟩
  := by
  have houtline : FlowGraph.outline jumpBody = jumpBlocks [] := by
    rw [FlowGraph.outline, FlowGraph.runs_ofList]
    decide +kernel
  rw [FlowGraph.ofCode, houtline]
  decide +kernel

/-- The class with a jump has a plan with probes. -/
theorem exists_plan_jumpClass :
  ∃ plan, ClassPlan.ofClass {} jumpClass = .ok plan ∧ plan.planned ≠ []
  := by
  have hmethods : jumpClass.methods = [jumpMethod] := rfl
  have hcode : MethodOutcome.eligible {} jumpClass.pool jumpMethod = .ok jumpBody := by
    decide +kernel
  have hplanned : (ClassPlan.ofClass {} jumpClass).toOption.any fun plan =>
      !plan.planned.isEmpty := by
    rw [ClassPlan.ofClass, MethodOutcome.ofClass_eq, hmethods]
    simp only [MethodOutcome.outcomesFrom, MethodOutcome.ofMethod, hcode, bind, Except.bind,
      PlannedMethod.ofCode, ofCode_jumpBody]
    decide +kernel
  obtain ⟨plan, hplan, hne⟩ := exists_ok_of_any hplanned
  exact ⟨plan, hplan, by simpa using hne⟩

end ClassFile

end JvmCoverage
