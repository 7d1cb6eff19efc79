import JvmCoverage.Machine.Planning
import JvmCoverage.Proofs.Plan
import JvmCoverage.Proofs.SafeLayout

/-!
# Planning does not fault

The walk that numbers the blocks of a method finds a place for every block and every instruction
(`foldlM_numberNext`): blocks are numbered with their places, and the first instruction of a block
stands behind those of the blocks in front of it.  A class has at most `2 ^ 16 - 1` methods with at
most `2 ^ 16 - 1` blocks each, so that the numbers of its probes have 32 bits.
-/

namespace JvmCoverage.Machine

variable {m : Type → Type} [Monad m] [Faulting m] [LawfulMonad m]

/-- The arrays for a method plan. -/
def MethodPlan.of (plan : JvmCoverage.MethodPlan) : MethodPlan where
  method := plan.method
  blocks := plan.graph.blocks.toList.map Block.of
  blockProbes := plan.blockProbes.toList
  probeBefore := plan.layout.sites.toList.map Site.probe
  layout := .of plan.layout

/-- The arrays for a method plan with its records. -/
def PlannedMethod.of (planned : JvmCoverage.PlannedMethod) : PlannedMethod where
  plan := .of planned.plan
  probes := planned.probes
  branches := planned.branches

/-! ## Numbers -/

section Numbering

variable {instructions : List Instruction} {blocks : List BasicBlock}
  {choices : List (Option (List UInt16))}

/-- The records of the chosen blocks. -/
def recordsOf (method : Nat) (blocks : List BasicBlock) (choices : List (Option (List UInt16)))
    (numbers : List (Option Nat)) : List ProbeRecord :=
  (blocks.zip (choices.zip numbers)).filterMap fun
    | (b, some lines, some probe) =>
      some { probe, method, block := b.id, terminator := b.terminator, lines }
    | _ => none

omit [LawfulMonad m] in
theorem update_replicate {α : Type} (done : List α) (x y : α) (rest : Nat) :
  (update (done ++ .replicate (rest + 1) x) done.length y : m (List α))
    = pure (done ++ y :: .replicate rest x)
  := by
  rw [update_eq (by simp), List.set_append_right _ _ le_rfl, Nat.sub_self, List.replicate_succ,
    List.set_cons_zero]

/-- The numbering in front of `left` more blocks with `rest` instructions. -/
def numberingOf (next : Nat) (numbers probes : List (Option Nat)) (left rest : Nat)
    (records : List ProbeRecord) : Numbering :=
  ⟨next, numbers ++ .replicate left none, probes ++ .replicate rest none, records⟩

omit [LawfulMonad m] in
/-- A block that is not chosen is passed over. -/
theorem numberNext_none {b : BasicBlock} (hcount : 0 < b.count) (method next : Nat)
    (numbers probes : List (Option Nat)) (left rest : Nat) (records : List ProbeRecord) :
  (numberNext method (numberingOf next numbers probes (left + 1) (b.count + rest) records) (.of b)
      none : m Numbering)
    = pure (numberingOf next (numbers ++ [none]) (probes ++ Probe.spread b none) left rest records)
  := by
  have hspread : Probe.spread b none = .replicate b.count none := by
    rw [Probe.spread, ← List.replicate_succ, Nat.sub_add_cancel hcount]
  rw [numberNext, numberingOf, numberingOf, hspread, List.replicate_succ, List.replicate_add,
    List.append_assoc, List.append_assoc, List.singleton_append]

/-- A block that is chosen is given the next number. -/
theorem numberNext_some {b : BasicBlock} (hcount : 0 < b.count) (method : Nat) {next : Nat}
    (hnext : next + 1 < 2 ^ 32) {numbers probes : List (Option Nat)} (hid : b.id = numbers.length)
    (hfirst : b.first = probes.length) (left rest : Nat) (records : List ProbeRecord)
    (lines : List UInt16) :
  (numberNext method (numberingOf next numbers probes (left + 1) (b.count + rest) records) (.of b)
      (some lines) : m Numbering)
    = pure (numberingOf (next + 1) (numbers ++ [some next]) (probes ++ Probe.spread b (some next))
        left rest (records ++ [{
          probe := next, method, block := b.id, terminator := b.terminator, lines }]))
  := by
  have hblock : (update (numbers ++ .replicate (left + 1) none) b.id (some next)
      : m (List (Option Nat))) = pure (numbers ++ some next :: .replicate left none) := by
    rw [hid]
    apply update_replicate
  have hrest : b.count + rest = (b.count - 1 + rest) + 1 := by omega
  have hinsn : (update (probes ++ .replicate (b.count + rest) none) b.first (some next)
      : m (List (Option Nat)))
        = pure (probes ++ some next
          :: (.replicate (b.count - 1) none ++ .replicate rest none)) := by
    rw [hfirst, hrest, ← List.replicate_add]
    apply update_replicate
  rw [numberNext]
  simp only [numberingOf, add_eq hnext, pure_bind, Block.of, hblock, hinsn, Probe.spread,
    List.append_assoc, List.cons_append, List.nil_append]

/-- The walk writes the numbers behind those of the blocks in front. -/
theorem foldlM_numberNext (method next : Nat) {first place : Nat}
    (hlength : choices.length = blocks.length)
    (hids : ∀ (i : Nat) b, blocks[i]? = some b → b.id = place + i)
    (hplaced : PlacedFrom instructions first blocks) (hnext : next + blocks.length < 2 ^ 32)
    (numbers probes : List (Option Nat)) (hnumbers : numbers.length = place)
    (hprobes : probes.length = first) (records : List ProbeRecord) :
  (((blocks.map Block.of).zip choices).foldlM (fun numbering p => numberNext method numbering p.1 p.2)
      (numberingOf next numbers probes blocks.length (instructions.length - first) records)
      : m Numbering)
    = pure ⟨next + choices.reduceOption.length, numbers ++ Probe.numbersFrom next choices,
        probes ++ Probe.spreadAll (blocks.zip (Probe.numbersFrom next choices)),
        records ++ recordsOf method blocks choices (Probe.numbersFrom next choices)⟩
  := by
  induction blocks generalizing choices first place next numbers probes records with
  | nil =>
    obtain rfl := List.eq_nil_of_length_eq_zero hlength
    obtain rfl : first = instructions.length := hplaced
    simp [numberingOf, Probe.numbersFrom, Probe.spreadAll, recordsOf]
  | cons b blocks ih =>
    obtain ⟨choice, choices, rfl⟩ : ∃ choice choices', choices = choice :: choices' :=
      List.exists_cons_of_length_eq_add_one hlength
    obtain ⟨hfirst, hcount, -, hrest⟩ := hplaced
    have hid : b.id = place := hids 0 b rfl
    have hids' : ∀ (i : Nat) b, blocks[i]? = some b → b.id = (place + 1) + i := by
      intro i b hb
      rw [hids (i + 1) b (by simpa using hb)]
      omega
    have hle := hrest.length_le
    have hspace : instructions.length - first
        = b.count + (instructions.length - (first + b.count)) := by omega
    have hspread (number : Option Nat) : (Probe.spread b number).length = b.count := by
      rw [Probe.spread, List.length_cons, List.length_replicate, Nat.sub_add_cancel hcount]
    rw [List.length_cons] at hnext
    have hblocks (number : Option Nat) (next : Nat) (hnext : next + blocks.length < 2 ^ 32) :=
      ih next (Nat.succ.inj hlength) hids' hrest hnext (numbers ++ [number])
        (probes ++ Probe.spread b number) (by simp [hnumbers]) (by simp [hprobes, hspread])
    simp only [List.map_cons, List.zip_cons_cons, List.foldlM_cons, List.length_cons, hspace]
    cases choice with
    | none =>
      rw [numberNext_none hcount, pure_bind, hblocks none next (by omega)]
      simp [Probe.numbersFrom, Probe.spreadAll_cons, recordsOf, List.reduceOption_cons_of_none]
    | some lines =>
      rw [numberNext_some hcount method (by omega) (by omega) (by omega), pure_bind,
        hblocks (some next) (next + 1) (by omega)]
      simp [Probe.numbersFrom, Probe.spreadAll_cons, recordsOf, List.reduceOption_cons_of_some,
        Nat.add_assoc, Nat.add_comm 1]

/-- The numbers of the blocks of a method are given without a fault. -/
theorem number_eq {code : Code} (hcode : IsLaid code) (hne : code.instructions ≠ [])
    {method first : Nat} (hfirst : first + 65535 < 2 ^ 32)
    {choices : Array (Option (List UInt16))}
    (hsize : choices.size = (FlowGraph.ofCode code).blocks.size) :
  (number method first code.instructions.length
      ((FlowGraph.ofCode code).blocks.toList.map Block.of) choices.toList : m Numbering)
    = pure {
        next := first + choices.toList.reduceOption.length
        blockProbes := (Probe.number first choices).toList
        probeBefore := (JvmCoverage.MethodPlan.probesByInstruction (FlowGraph.ofCode code)
          (Probe.number first choices)).toList
        records := JvmCoverage.MethodPlan.records method (FlowGraph.ofCode code) choices
          (Probe.number first choices) }
  := by
  have hplaced := (graph_eq (m := m) hcode hne).2
  have hle := hplaced.length_le
  have hcount := hcode.count_le
  have hids : ∀ (i : Nat) b, (FlowGraph.ofCode code).blocks.toList[i]? = some b → b.id = 0 + i := by
    intro i b hb
    rw [Array.getElem?_toList] at hb
    rw [Nat.zero_add, FlowGraph.numbered_ofCode code i b hb]
  have hlength : choices.toList.length = (FlowGraph.ofCode code).blocks.toList.length := by
    simpa using hsize
  have h := foldlM_numberNext (m := m) method first hlength hids hplaced (by omega) [] [] rfl rfl []
  simp only [numberingOf, List.nil_append, Nat.sub_zero] at h
  rw [number, List.length_map, h, JvmCoverage.MethodPlan.probesByInstruction,
    JvmCoverage.MethodPlan.records, Probe.toList_number]
  rfl

end Numbering

/-! ## Branches -/

/-- Whether the edges of the block lead to blocks of a graph with `total` blocks. -/
def LeadsBelow (total : Nat) (b : BasicBlock) : Prop :=
  ∀ e ∈ b.successors, e.target < total

theorem leadsBelow_ofCode (code : Code) :
  ∀ b ∈ (FlowGraph.ofCode code).blocks.toList, LeadsBelow (FlowGraph.ofCode code).blocks.size b
  := by
  intro b hb e he
  rw [FlowGraph.ofCode] at hb ⊢
  simp only [Array.size_map, Array.toList_map, List.mem_map] at hb ⊢
  obtain ⟨b, -, rfl⟩ := hb
  have he := List.mem_of_find?_eq_some (FlowGraph.mem_firstEdges.mp he)
  simp only [List.mem_append, FlowGraph.jumpEdges, FlowGraph.fallthroughEdge,
    FlowGraph.exceptionEdges, FlowGraph.handlerBlocks, List.mem_map, List.mem_filterMap,
    List.mem_filter, Option.map_eq_some_iff, Prod.exists] at he
  rcases he with (⟨target, ⟨_, -, hfind⟩, rfl⟩ | hnext) | ⟨_, target, ⟨⟨_, -, _, hfind, heq⟩, -⟩, rfl⟩
  · exact Search.find?_lt hfind
  · split at hnext
    · rename_i hlt
      rw [Bool.and_eq_true, decide_eq_true_eq] at hlt
      obtain rfl := List.mem_singleton.mp hnext
      exact hlt.2
    · cases hnext
  · obtain ⟨-, rfl⟩ := Prod.mk.inj heq
    exact Search.find?_lt hfind

theorem outcomes_eq {blockProbes : Array (Option Nat)} {b : BasicBlock}
    (hleads : LeadsBelow blockProbes.size b) :
  (outcomes blockProbes.toList (.of b) : m (List Nat))
    = pure (JvmCoverage.MethodPlan.outcomes blockProbes b)
  := by
  have hitems : ((b.successors.filter (·.kind != .exception)).mapM fun e =>
      item blockProbes.toList e.target : m (List (Option Nat)))
        = pure ((b.successors.filter (·.kind != .exception)).map fun e =>
            JvmCoverage.MethodPlan.probeOf? blockProbes e.target) := by
    apply mapM_eq
    intro e he
    have hlt := hleads e (List.mem_of_mem_filter he)
    apply item_eq
    rw [Array.getElem?_toList, JvmCoverage.MethodPlan.probeOf?, Array.getElem?_eq_getElem hlt,
      Option.join_some]
  rw [outcomes]
  change (List.mapM _ (b.successors.filter _) >>= _) = _
  rw [hitems, pure_bind, List.reduceOption, List.filterMap_map, JvmCoverage.MethodPlan.outcomes]
  rfl

theorem branchSite_eq {method : Nat} {code : Code} {blockProbes : Array (Option Nat)}
    {b : BasicBlock} (hleads : LeadsBelow blockProbes.size b)
    (hlast : code.instructions[b.first + b.count - 1]? = some b.last) :
  (branchSite method code blockProbes.toList (.of b) : m (Option BranchSite))
    = pure (JvmCoverage.MethodPlan.branchSite method code blockProbes b)
  := by
  have hoffset : (code.instructions[(Block.of b).limitPlace - 1]?.map Instruction.offset).getD
      (Block.of b).start = b.last.offset := by
    change (code.instructions[b.first + b.count - 1]?.map Instruction.offset).getD b.start = _
    rw [hlast]
    rfl
  rw [branchSite, outcomes_eq hleads, pure_bind, JvmCoverage.MethodPlan.branchSite]
  simp only [hoffset]
  change (if b.terminator.isBranch = true then _ else _) = _
  cases b.terminator.isBranch with
  | false => rfl
  | true =>
    by_cases hfew : (JvmCoverage.MethodPlan.outcomes blockProbes b).length < 2
    · simp [hfew, Nat.not_le_of_lt hfew]
    · simp [hfew, Nat.le_of_not_lt hfew]

/-! ## Methods -/

theorem branchSites_eq {code : Code} (hcode : IsLaid code) (hne : code.instructions ≠ [])
    (granularity : Granularity) (method : Nat) {blockProbes : Array (Option Nat)}
    (hsize : blockProbes.size = (FlowGraph.ofCode code).blocks.size) :
  (branchSites granularity method code blockProbes.toList
      ((FlowGraph.ofCode code).blocks.toList.map Block.of) : m (List BranchSite))
    = pure (JvmCoverage.MethodPlan.branchSites granularity method code (FlowGraph.ofCode code)
        blockProbes)
  := by
  cases granularity with
  | line => rfl
  | basicBlock =>
    have hlast := (graph_eq (m := m) hcode hne).2.last
    have hsites : (((FlowGraph.ofCode code).blocks.toList.map Block.of).mapM
        (branchSite method code blockProbes.toList) : m (List (Option BranchSite)))
          = pure ((FlowGraph.ofCode code).blocks.toList.map
              (JvmCoverage.MethodPlan.branchSite method code blockProbes)) := by
      rw [List.mapM_map]
      apply mapM_eq
      intro b hb
      exact branchSite_eq (hsize ▸ leadsBelow_ofCode code b hb) (hlast b hb).2
    rw [branchSites, hsites, map_pure, List.reduceOption, List.filterMap_map]
    rfl

theorem checkCode_eq (pool : ConstantPool) (code : Code) (location : String) :
  checkCode pool code location
    = faultless (JvmCoverage.PlannedMethod.checkCode pool code location)
  := by
  have hlt : code.maxStack.toNat + Probe.operands < 2 ^ 32 := by
    have := code.maxStack.toNat_lt
    rw [Probe.operands]
    omega
  rw [checkCode, JvmCoverage.PlannedMethod.checkCode]
  cases code.opaqueNames pool with
  | cons name names => rfl
  | nil =>
    simp only [add_eq hlt, pure_bind]
    rw [add_eq (by omega)]
    split <;> rfl

theorem length_spreadAll_placed {instructions : List Instruction} {first : Nat}
    {blocks : List BasicBlock} (h : PlacedFrom instructions first blocks)
    {numbers : List (Option Nat)} (hlength : numbers.length = blocks.length) :
  first + (Probe.spreadAll (blocks.zip numbers)).length = instructions.length
  := by
  induction blocks generalizing first numbers with
  | nil => exact h
  | cons b blocks ih =>
    obtain ⟨-, hcount, -, hblocks⟩ := h
    cases numbers with
    | nil => simp at hlength
    | cons number numbers =>
      have hrest := @ih _ hblocks numbers (by simpa using hlength)
      rw [List.zip_cons_cons, Probe.spreadAll_cons]
      simp [Probe.spread]
      omega

theorem size_number (first : Nat) (choices : Array (Option (List UInt16))) :
  (Probe.number first choices).size = choices.size
  := by
  rw [← Array.length_toList, Probe.toList_number, Probe.length_numbersFrom, Array.length_toList]

section Planning

variable {code : Code} (hcode : IsLaid code) (hne : code.instructions ≠ [])

include hcode hne

/-- Every instruction has a place for the probe in front of it. -/
theorem toList_probesByInstruction {numbers : Array (Option Nat)}
    (hnumbers : numbers.size = (FlowGraph.ofCode code).blocks.size) :
  (JvmCoverage.MethodPlan.probesByInstruction (FlowGraph.ofCode code) numbers).toList
    = code.instructions.mapIdx fun i _ => JvmCoverage.MethodPlan.probeOf?
        (JvmCoverage.MethodPlan.probesByInstruction (FlowGraph.ofCode code) numbers) i
  := by
  have hplaced := (graph_eq (m := Except (Stop InstrumentError)) hcode hne).2
  have hlength : numbers.toList.length = (FlowGraph.ofCode code).blocks.toList.length := by
    simpa using hnumbers
  have hsize := length_spreadAll_placed hplaced hlength
  rw [Nat.zero_add] at hsize
  change (JvmCoverage.MethodPlan.probesByInstruction _ numbers).toList.length = _ at hsize
  rw [Array.length_toList] at hsize
  generalize JvmCoverage.MethodPlan.probesByInstruction _ numbers = probes at hsize
  apply List.ext_getElem (by simp [hsize])
  intro i hi _
  rw [Array.length_toList] at hi
  simp [JvmCoverage.MethodPlan.probeOf?, hi]

/-- A method gets at most `2 ^ 16 - 1` probes. -/
theorem length_probes_of_ofCode {policy : Policy} {pool : ConstantPool} {location : String}
    {method first : Nat} {planned : JvmCoverage.PlannedMethod}
    (h : JvmCoverage.PlannedMethod.ofCode policy pool location method first code = .ok planned) :
  planned.probes.length ≤ 65535
  := by
  have hblocks := (graph_eq (m := Except (Stop InstrumentError)) hcode hne).2.length_le
  have hcount := hcode.count_le
  obtain ⟨layout, -, hplanned⟩ := bind_eq_ok.mp (bind_eq_ok.mp h).choose_spec.2
  obtain rfl := Except.ok.inj hplanned
  dsimp only
  rw [JvmCoverage.MethodPlan.records]
  apply (List.length_filterMap_le _ _).trans
  rw [List.length_zip]
  omega

/-- Planning a method does not fault. -/
theorem planCode_eq {first : Nat} (hfirst : first + 65535 < 2 ^ 32) (policy : Policy)
    (pool : ConstantPool) (location : String) (method : Nat) :
  planCode policy pool location method first code
    = faultless ((JvmCoverage.PlannedMethod.ofCode policy pool location method first code).map .of)
  := by
  have hgraph := (graph_eq (m := Except (Stop InstrumentError)) hcode hne).1
  let g := FlowGraph.ofCode code
  let choices := Probe.choose policy.granularity g.blocks
  let numbers := Probe.number first choices
  let probes := JvmCoverage.MethodPlan.probesByInstruction g numbers
  have hchoices : choices.size = g.blocks.size := Probe.size_choose _ _
  have hnumbers : numbers.size = g.blocks.size := (size_number first choices).trans hchoices
  have hbefore : probes.toList
      = code.instructions.mapIdx fun i _ => JvmCoverage.MethodPlan.probeOf? probes i :=
    toList_probesByInstruction hcode hne hnumbers
  have hplain : (g.blocks.toList.map Block.of).map Block.toBasicBlock = g.blocks.toList := by
    rw [List.map_map]
    exact List.map_id _
  rw [planCode, checkCode_eq, JvmCoverage.PlannedMethod.ofCode]
  cases JvmCoverage.PlannedMethod.checkCode pool code location with
  | error e => rfl
  | ok _ =>
    have hflags : probes.toList.map Option.isSome
        = code.instructions.mapIdx fun i _ =>
            (JvmCoverage.MethodPlan.probeOf? probes i).isSome := by
      rw [hbefore]
      exact List.ext_getElem (by simp) (by simp)
    have hcompute := compute_eq hcode hflags location
    simp only [faultless_ok, pure_bind, hgraph]
    rw [hplain, Array.toArray_toList, number_eq hcode hne hfirst hchoices, pure_bind]
    simp only
    rw [hcompute]
    change _ = faultless (Except.map _ (JvmCoverage.Layout.compute code
      (JvmCoverage.MethodPlan.probeOf? probes) location >>= _))
    cases hlayout : JvmCoverage.Layout.compute code (JvmCoverage.MethodPlan.probeOf? probes)
        location with
    | error e => rfl
    | ok layout =>
      have hfor := JvmCoverage.Layout.isFor_of_compute hlayout
      simp only [Except.map, faultless_ok, pure_bind]
      rw [branchSites_eq hcode hne policy.granularity method hnumbers, pure_bind]
      congr 1
      simp only [PlannedMethod.of, MethodPlan.of, hfor.probes, ← hbefore]
      rfl

end Planning

/-! ## Annotations -/

theorem annotationTypesIn_eq {pool : ConstantPool} {attr : MethodAttribute}
    (hattr : attr.WellFormed pool) :
  annotationTypesIn pool attr = faultless (Method.annotationTypesIn pool attr)
  := by
  cases attr with
  | code nameIndex body => rfl
  | other raw =>
    have hlength : raw.info.length < 2 ^ 64 := by
      have := hattr.2
      omega
    rw [annotationTypesIn, Method.annotationTypesIn, faultless_bind]
    congr
    funext name
    split
    · rw [typeIndices_eq hlength, faultless_bind]
      congr
      funext indices
      exact mapM_faultless fun _ _ => rfl
    · rfl

theorem annotationTypes_eq {pool : ConstantPool} {m : Method} (hm : m.WellFormed pool) :
  annotationTypes pool m = faultless (m.annotationTypes pool)
  := by
  rw [annotationTypes, mapM_faultless fun attr hattr => annotationTypesIn_eq (hm.attributes attr hattr),
    Method.annotationTypes, faultless_map]
  rfl

/-! ## Classes -/

theorem eligible_eq {pool : ConstantPool} {m : Method} (hm : m.WellFormed pool)
    (policy : Policy) :
  eligible policy pool m = faultless (MethodOutcome.eligible policy pool m)
  := by
  rw [eligible, MethodOutcome.eligible]
  split
  · rfl
  cases m.code? with
  | none => rfl
  | some code =>
    simp only
    split
    · rfl
    split
    · rfl
    cases policy.skipAnnotation with
    | none => rfl
    | some skip =>
      simp only [annotationTypes_eq hm, mapError_faultless]
      cases m.annotationTypes pool with
      | error e => rfl
      | ok types =>
        simp only [Except.mapError, faultless_ok, pure_bind]
        split <;> rfl

/-- The plan of a method, or why it gets no probes. -/
def plannedOf (policy : Policy) (c : ClassFile) (index first : Nat) (m : Method) :
    Except MethodStatus JvmCoverage.PlannedMethod := do
  let code ← MethodOutcome.eligible policy c.pool m
  (JvmCoverage.PlannedMethod.ofCode policy c.pool (c.location m) index first code).mapError .ofError

theorem ofMethod_eq (policy : Policy) (c : ClassFile) (index first : Nat) (m : Method) :
  MethodOutcome.ofMethod policy c index first m
    = match plannedOf policy c index first m with
      | .ok planned => ⟨⟨m.name, m.descriptor, .instrumented⟩, some planned⟩
      | .error status => ⟨⟨m.name, m.descriptor, status⟩, none⟩
  := rfl

theorem planMethod_eq {c : ClassFile} {m : Method} (hm : m.WellFormed c.pool) {first : Nat}
    (hfirst : first + 65535 < 2 ^ 32) (policy : Policy) (index : Nat) :
  planMethod policy c index first m = faultless ((plannedOf policy c index first m).map .of)
  := by
  rw [planMethod, eligible_eq hm, plannedOf]
  cases heligible : MethodOutcome.eligible policy c.pool m with
  | error status => rfl
  | ok code =>
    have hcode := Method.wellFormed_code hm (MethodOutcome.eligible_eq_ok heligible)
    have hplan := planCode_eq (isLaid_of_wellFormed hcode) hcode.ne_nil hfirst policy c.pool
      (c.location m) index
    rw [faultless_ok, pure_bind, hplan, mapError_faultless]
    change _ = faultless (Except.map _ (Except.mapError _ _))
    cases JvmCoverage.PlannedMethod.ofCode policy c.pool (c.location m) index first code <;> rfl

theorem length_probes_le {c : ClassFile} {m : Method} (hm : m.WellFormed c.pool) (policy : Policy)
    (index first : Nat) :
  (MethodOutcome.ofMethod policy c index first m).probes.length ≤ 65535
  := by
  rw [MethodOutcome.probes]
  cases hplanned : (MethodOutcome.ofMethod policy c index first m).planned with
  | none => exact Nat.zero_le _
  | some planned =>
    obtain ⟨code, hcode, hof⟩ := MethodOutcome.exists_ofCode_of_planned hplanned
    have hwell := Method.wellFormed_code hm hcode
    exact length_probes_of_ofCode (isLaid_of_wellFormed hwell) hwell.ne_nil hof

/-- What is kept of the decisions about methods. -/
def Planning.of (outcomes : List MethodOutcome) : Planning where
  methods := outcomes.map MethodOutcome.record
  planned := (MethodOutcome.plans outcomes).map .of
  probes := outcomes.flatMap MethodOutcome.probes
  branches := outcomes.flatMap MethodOutcome.branches

theorem planNext_eq {c : ClassFile} {m : Method} (hm : m.WellFormed c.pool)
    (outcomes : List MethodOutcome)
    (hprobes : (outcomes.flatMap MethodOutcome.probes).length + 65535 < 2 ^ 32) (policy : Policy)
    (index : Nat) :
  planNext policy c (.of outcomes) m index
    = pure (.of (outcomes ++ [MethodOutcome.ofMethod policy c index
        (outcomes.flatMap MethodOutcome.probes).length m]))
  := by
  have hplan := planMethod_eq hm hprobes policy index
  have hcast : cast 32 (Planning.of outcomes).probes.length
      = (outcomes.flatMap MethodOutcome.probes).length := cast_eq (by
    change (outcomes.flatMap MethodOutcome.probes).length < 2 ^ 32
    omega)
  rw [planNext, hcast, hplan, attempt_faultless, pure_bind, ofMethod_eq]
  cases plannedOf policy c index (outcomes.flatMap MethodOutcome.probes).length m with
  | error status =>
    simp [Except.map, Planning.of, MethodOutcome.plans, MethodOutcome.probes,
      MethodOutcome.branches]
  | ok planned =>
    simp [Except.map, Planning.of, MethodOutcome.plans, MethodOutcome.probes,
      MethodOutcome.branches, PlannedMethod.of]

/-- Each method adds at most `2 ^ 16 - 1` probes. -/
theorem foldlM_planNext {c : ClassFile} (policy : Policy) {methods : List Method}
    (hmethods : ∀ m ∈ methods, m.WellFormed c.pool) (outcomes : List MethodOutcome)
    (hcount : outcomes.length + methods.length ≤ 65535)
    (hprobes : (outcomes.flatMap MethodOutcome.probes).length ≤ 65535 * outcomes.length) :
  (methods.zipIdx outcomes.length).foldlM (fun planning p => planNext policy c planning p.1 p.2)
      (.of outcomes)
    = pure (.of (outcomes ++ MethodOutcome.outcomesFrom policy c outcomes.length
        (outcomes.flatMap MethodOutcome.probes).length methods))
    ∧ ((outcomes ++ MethodOutcome.outcomesFrom policy c outcomes.length
        (outcomes.flatMap MethodOutcome.probes).length methods).flatMap MethodOutcome.probes).length
      ≤ 65535 * (outcomes.length + methods.length)
  := by
  induction methods generalizing outcomes with
  | nil =>
    rw [MethodOutcome.outcomesFrom, List.append_nil]
    exact ⟨rfl, hprobes⟩
  | cons m methods ih =>
    obtain ⟨hm, hmethods⟩ := List.forall_mem_cons.mp hmethods
    rw [List.length_cons] at hcount
    have hnext := planNext_eq hm outcomes (by omega) policy outcomes.length
    have hle := length_probes_le hm policy outcomes.length
      (outcomes.flatMap MethodOutcome.probes).length
    rw [List.zipIdx_cons, List.foldlM_cons, hnext, pure_bind, MethodOutcome.outcomesFrom]
    generalize MethodOutcome.ofMethod policy c outcomes.length
      (outcomes.flatMap MethodOutcome.probes).length m = outcome at hle ⊢
    have hprobes' : ((outcomes ++ [outcome]).flatMap MethodOutcome.probes).length
        ≤ 65535 * (outcomes ++ [outcome]).length := by
      rw [List.flatMap_append, List.flatMap_singleton, List.length_append, List.length_append,
        List.length_singleton, Nat.mul_add_one]
      exact Nat.add_le_add hprobes hle
    have hrest := ih hmethods (outcomes ++ [outcome]) (by simp; omega) hprobes'
    have hlength : (outcomes ++ [outcome]).length = outcomes.length + 1 := by simp
    have hfirst : ((outcomes ++ [outcome]).flatMap MethodOutcome.probes).length
        = (outcomes.flatMap MethodOutcome.probes).length + outcome.probes.length := by simp
    rw [hlength, hfirst, List.append_assoc, List.singleton_append] at hrest
    rw [List.length_cons, Nat.add_comm methods.length, ← Nat.add_assoc]
    exact hrest

/-- The plan of a class with its arrays. -/
def ClassPlan.of (plan : JvmCoverage.ClassPlan) : ClassPlan where
  methods := plan.methods
  planned := plan.planned.map .of
  probes := plan.probes
  branches := plan.branches
  className := plan.className
  sourceFile := plan.sourceFile
  bridge := plan.bridge

theorem neededSlots_eq {c : ClassFile} {probes : Nat} (hpool : c.pool.count ≤ 65535)
    (hprobes : probes < 2 ^ 32) :
  neededSlots c probes = pure (JvmCoverage.ClassPlan.neededSlots c probes)
  := by
  rw [neededSlots, add_eq (by omega), pure_bind, add_eq (by omega), pure_bind, add_eq (by omega)]
  rfl

/-- Planning a class does not fault. -/
theorem planClass_eq {c : ClassFile} (hc : c.WellFormed) (policy : Policy) :
  planClass policy c = faultless ((JvmCoverage.ClassPlan.ofClass policy c).map .of)
  := by
  obtain ⟨hplanning, hprobes⟩ := foldlM_planNext policy hc.methods []
    (by simpa using hc.methods_le) (by simp)
  simp only [List.length_nil, List.flatMap_nil, List.nil_append, Nat.zero_add] at hplanning hprobes
  have hmethods := hc.methods_le
  rw [planClass]
  change (List.foldlM _ (Planning.of []) _ >>= _) = _
  rw [hplanning, pure_bind, JvmCoverage.ClassPlan.ofClass, MethodOutcome.ofClass_eq]
  generalize MethodOutcome.outcomesFrom policy c 0 0 c.methods = outcomes at hprobes ⊢
  have hneeded : neededSlots c (outcomes.flatMap MethodOutcome.probes).length = pure _ :=
    neededSlots_eq hc.pool.count_le (by omega)
  change (neededSlots c (outcomes.flatMap MethodOutcome.probes).length >>= _) = _
  rw [hneeded, pure_bind]
  by_cases hfull : (!(outcomes.flatMap MethodOutcome.probes).isEmpty
      && decide (ConstantPool.maxSlots < JvmCoverage.ClassPlan.neededSlots c
        (outcomes.flatMap MethodOutcome.probes).length)) = true
  · exact (if_pos hfull).trans (by rw [if_pos hfull]; rfl)
  · exact (if_neg hfull).trans (by rw [if_neg hfull]; rfl)

end JvmCoverage.Machine
