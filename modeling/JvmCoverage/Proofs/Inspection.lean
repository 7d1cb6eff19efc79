import JvmCoverage.Command.Inspect
import JvmCoverage.Proofs.Bookkeeping
import JvmCoverage.Proofs.Stability

/-!
# An inspection predicts what instrumenting does

An inspection tells of a plan that is not carried out, and a summary of the record and the bytes
that are left when it is.  For every class that gets probes they agree on the status and the probes
of each method, and the length that the inspection gives for a method with probes is the length of
its code in what is written (`ClassInspection.foretells_ofBytes`).
-/

namespace JvmCoverage

/-! ## What an inspection foretells -/

namespace MethodInspection

/-- Whether the inspection tells of the method what the summary does. -/
structure Foretells (m : MethodInspection) (summary : MethodSummary) : Prop where
  record_eq : m.record = summary.record
  /-- As many blocks have a probe as there are probes in the method. -/
  probes_eq : m.blocks.countP (·.probe.isSome) = summary.probes

/-- Whether the inspection gives the length of the method as it is afterwards, if it gets probes. -/
structure TellsLength (m : MethodInspection) (after : Method) : Prop where
  name_eq : m.record.name = after.name
  descriptor_eq : m.record.descriptor = after.descriptor
  instrumented : m.record.status = .instrumented →
    ∃ code, after.code? = some code ∧ m.instrumentedLength = some code.length
  others : m.record.status ≠ .instrumented → m.instrumentedLength = none

end MethodInspection

/-- Whether the inspection tells of the class what the summary does. -/
structure ClassInspection.Foretells (inspection : ClassInspection)
    (summary : InstrumentSummary) : Prop where
  className_eq : inspection.className = summary.className
  probes_eq : inspection.probes = summary.probes
  methods : List.Forall₂ MethodInspection.Foretells inspection.methods summary.methods

/-! ## Methods with probes -/

/-- A method of a class with probes is called as before. -/
theorem ClassPlan.IsApplied.exists_method {plan : ClassPlan} {bridge : Bridge} {segment : UInt32}
    {c c' : ClassFile} (h : plan.IsApplied bridge segment c c') {i : Nat} {m' : Method}
    (hm' : c'.methods[i]? = some m') :
  ∃ m, c.methods[i]? = some m ∧ m'.name = m.name ∧ m'.descriptor = m.descriptor
  := by
  obtain hm | ⟨methodPlan, -, m, code, moved, -, hm, -, rfl, -⟩ :=
    h.moved.cases (by simpa using hm')
  · exact ⟨m', by simpa using hm, rfl, rfl⟩
  · exact ⟨m, by simpa using hm, rfl, rfl⟩

namespace MethodInspection

/-- As many blocks of a planned method have a probe as there are numbers. -/
theorem countP_blocksOf_some {plan : MethodPlan} (code : Option Code)
    (hsize : plan.blockProbes.size = plan.graph.blocks.size) :
  (blocksOf (some plan) code).countP (·.probe.isSome) = plan.numbers.length
  := by
  have hsnd : (plan.graph.blocks.toList.zip plan.blockProbes.toList).map Prod.snd
      = plan.blockProbes.toList := by
    apply List.map_snd_zip
    rw [Array.length_toList, Array.length_toList, hsize]
  rw [← MethodPlan.probeCount_eq, MethodPlan.probeCount, ← Array.countP_toList, ← hsnd, blocksOf,
    List.countP_map, List.countP_map]
  rfl

theorem countP_blocksOf_none (code : Option Code) :
  (blocksOf none code).countP (·.probe.isSome) = 0
  := by
  cases code with
  | none => rfl
  | some code => simp [blocksOf]

variable {policy : Policy} {c : ClassFile} {plan : ClassPlan} {i : Nat}

theorem mem_of_find?_planned {methodPlan : MethodPlan}
    (h : plan.planned.find? (·.method == i) = some methodPlan) :
  methodPlan ∈ plan.planned ∧ methodPlan.method = i
  := ⟨List.mem_of_find?_eq_some h, by simpa using List.find?_some h⟩

section Planned

variable (hplan : ClassPlan.ofClass policy c = .ok plan) (hc : c.WellFormed)

include hplan hc

/-- As many blocks of a method have a probe as there are records of the method. -/
theorem countP_blocks_of (record : MethodRecord) :
  (of c plan i record).blocks.countP (·.probe.isSome)
    = (plan.probes.filter (·.method == i)).length
  := by
  simp only [of]
  cases hfind : plan.planned.find? (·.method == i) with
  | none =>
    rw [countP_blocksOf_none, eq_comm, List.length_eq_zero_iff, List.filter_eq_nil_iff]
    intro p hp hmethod
    obtain ⟨methodPlan, hmem, hmethod⟩ :=
      ((ClassPlan.keepsBooks_of_ofClass hplan hc).owns_iff i).mpr ⟨p, hp, beq_iff_eq.mp hmethod⟩
    exact List.find?_eq_none.mp hfind methodPlan hmem (beq_iff_eq.mpr hmethod)
  | some methodPlan =>
    obtain ⟨planned, hgives, rfl⟩ :=
      (ClassPlan.mem_planned_iff hplan hc).mp (mem_of_find?_planned hfind)
    obtain ⟨m, -, hbooks⟩ := ClassPlan.exists_method_of_gives hc hgives
    obtain ⟨code, -, -, hsize⟩ := hbooks.body
    rw [countP_blocksOf_some _ hsize, ClassPlan.filter_probes hplan hc hgives, ← hbooks.numbers,
      List.length_map]

/-- The length that an inspection gives for a method is that of the method with its probes. -/
theorem tellsLength_of {c' : ClassFile} {segment : UInt32} {record : MethodRecord} {m' : Method}
    (happlied : plan.IsApplied policy.bridge segment c c')
    (hrecord : plan.methods[i]? = some record) (hm' : c'.methods[i]? = some m') :
  (of c plan i record).TellsLength m'
  := by
  have hbooks := ClassPlan.keepsBooks_of_ofClass hplan hc
  have hof := ClassPlan.isOf_of_ofClass hplan hc
  obtain ⟨m, hm, hname, hdescriptor⟩ := happlied.exists_method hm'
  have hnames := congrArg (·[i]?) hbooks.methods
  simp only [List.getElem?_map, hrecord, hm, Option.map_some, Option.some.injEq,
    Prod.mk.injEq] at hnames
  refine ⟨hnames.1.trans hname.symm, hnames.2.trans hdescriptor.symm, ?_, ?_⟩
  · intro hstatus
    simp only [of]
    cases hfind : plan.planned.find? (·.method == i) with
    | none =>
      obtain ⟨methodPlan, hmem, hmethod⟩ := (hbooks.planned_iff i record hrecord).mp hstatus
      exact absurd (beq_iff_eq.mpr hmethod) (List.find?_eq_none.mp hfind methodPlan hmem)
    | some methodPlan =>
      obtain ⟨hmem, rfl⟩ := mem_of_find?_planned hfind
      obtain ⟨_, code, moved, _, hm₀, hcode, hmapped, hcode', -, -, hmoved⟩ :=
        happlied.exists_moved hof hc hmem
      obtain rfl := Option.some.inj (hm'.symm.trans hmapped)
      obtain ⟨-, -, hlength⟩ := happlied.moved_wellFormed hof hc hmem hm₀ hcode hmoved
      exact ⟨moved, hcode', by rw [hlength, Option.map_some]⟩
  · intro hstatus
    simp only [of]
    rw [Option.map_eq_none_iff, List.find?_eq_none]
    intro methodPlan hmem hmethod
    exact hstatus ((hbooks.planned_iff i record hrecord).mpr
      ⟨methodPlan, hmem, beq_iff_eq.mp hmethod⟩)

end Planned

end MethodInspection

/-! ## Classes -/

theorem ClassPlan.className_of_ofClass {policy : Policy} {c : ClassFile} {plan : ClassPlan}
    (h : ofClass policy c = .ok plan) :
  plan.className = c.name
  := by
  simp only [ofClass] at h
  split at h
  · cases h
  · cases h
    rfl

/-- A class that gets probes is written with those of its plan, and remembered by the plan. -/
theorem Instrumented.exists_plan {policy : Policy} {bytes : List UInt8} {result : Instrumented}
    (hbridge : ClassPlan.BridgeFits policy.bridge) (h : ofBytes policy bytes = .ok result)
    (hchanged : result.changed) :
  ∃ c plan segment, ClassFile.read bytes = .ok c ∧ ClassPlan.ofClass policy c = .ok plan
    ∧ Agent.render policy plan c segment = .ok result.bytes
    ∧ result.record = some (plan.toRecord (.of c.name bytes))
  := by
  rw [ofBytes] at h
  split at h
  · cases h
  rename_i c hread
  have hattempt := @Agent.attempt_tryTransform (agentFor policy) hbridge c.name bytes
  split at h
  · cases h
  rename_i out agent htransform
  obtain rfl := Except.ok.inj h
  rw [htransform] at hattempt
  cases hattempt with
  | callsBridge log hread hcalls => cases hchanged
  | withoutProbes log hread hcalls hplan hempty => cases hchanged
  | @probed c' plan segment _ _ _ hread' _ hplan _ _ hrender =>
    obtain rfl := Except.ok.inj (hread.symm.trans hread')
    -- the agent has seen no other class
    exact ⟨c, plan, segment, hread, hplan, hrender, rfl⟩

namespace ClassInspection

variable {policy : Policy} {bytes : List UInt8} {c : ClassFile} {plan : ClassPlan}

/-- The inspection of a class with the given plan. -/
def ofPlan (c : ClassFile) (plan : ClassPlan) : ClassInspection where
  className := plan.className
  sourceFile := plan.sourceFile
  probes := plan.probeCount
  branchSites := plan.branches.length
  methods := plan.methods.mapIdx (MethodInspection.of c plan)

theorem of_eq_ok (hplan : ClassPlan.ofClass policy c = .ok plan) :
  of policy c = .ok (ofPlan c plan)
  := by
  rw [of, hplan]
  rfl

/-- A plan is inspected as the record of the class is summed up. -/
theorem foretells_ofPlan (hplan : ClassPlan.ofClass policy c = .ok plan) (hc : c.WellFormed)
    {result : Instrumented} (hrecord : result.record = some (plan.toRecord (.of c.name bytes)))
    (output : String) :
  (ofPlan c plan).Foretells (.of result output)
  := by
  refine ⟨?_, ?_, ?_⟩
  · rw [InstrumentSummary.of, hrecord]
    exact ClassPlan.className_of_ofClass hplan
  · rw [InstrumentSummary.of, hrecord]
    rfl
  · simp only [InstrumentSummary.of, hrecord, Option.map_some, Option.getD_some,
      InstrumentSummary.methodsOf, ofPlan, ClassPlan.toRecord]
    apply forall₂_of_getElem? (by simp)
    intro i m summary hm hsummary
    rw [List.getElem?_mapIdx, Option.map_eq_some_iff] at hm hsummary
    obtain ⟨record, hrecord, rfl⟩ := hm
    obtain ⟨_, hrecord', rfl⟩ := hsummary
    obtain rfl := Option.some.inj (hrecord.symm.trans hrecord')
    exact ⟨rfl, MethodInspection.countP_blocks_of hplan hc record⟩

/-- The lengths that an inspection gives are those of the class with its probes. -/
theorem tellsLength_ofPlan (hplan : ClassPlan.ofClass policy c = .ok plan) (hc : c.WellFormed)
    {c' : ClassFile} {segment : UInt32} (happlied : plan.IsApplied policy.bridge segment c c') :
  List.Forall₂ MethodInspection.TellsLength (ofPlan c plan).methods c'.methods
  := by
  have hlength := congrArg List.length (ClassPlan.keepsBooks_of_ofClass hplan hc).methods
  have hsize := happlied.moved.size
  rw [List.length_map, List.length_map] at hlength
  rw [List.size_toArray, List.size_toArray] at hsize
  apply forall₂_of_getElem? (by rw [ofPlan, List.length_mapIdx, hlength, hsize])
  intro i m m' hm hm'
  rw [ofPlan, List.getElem?_mapIdx, Option.map_eq_some_iff] at hm
  obtain ⟨record, hrecord, rfl⟩ := hm
  exact MethodInspection.tellsLength_of hplan hc happlied hrecord hm'

/-- An inspection of a class that gets probes foretells what the summary says of the class and the
lengths of its methods in what is written.  What is written can be read when that was checked, and
when the class had no more bytes than an array can hold. -/
theorem foretells_ofBytes {result : Instrumented} (hbridge : ClassPlan.BridgeFits policy.bridge)
    (h : Instrumented.ofBytes policy bytes = .ok result) (hchanged : result.changed)
    (output : String) :
  ∃ c inspection, ClassFile.read bytes = .ok c ∧ of policy c = .ok inspection
    ∧ inspection.Foretells (.of result output)
    ∧ (∀ out, ClassFile.read result.bytes = .ok out →
      List.Forall₂ MethodInspection.TellsLength inspection.methods out.methods)
    ∧ (policy.selfCheck ∨ bytes.length < 2 ^ 31 → ∃ out, ClassFile.read result.bytes = .ok out)
  := by
  obtain ⟨c, plan, segment, hread, hplan, hrender, hrecord⟩ :=
    Instrumented.exists_plan hbridge h hchanged
  obtain ⟨hc, hof⟩ := ClassPlan.isOf_of_read hread hplan
  refine ⟨c, ofPlan c plan, hread, of_eq_ok hplan, foretells_ofPlan hplan hc hrecord output, ?_,
    Agent.exists_read_of_render hread hplan hbridge hrender⟩
  intro out hout
  obtain ⟨c', -, hform, happlied, -⟩ :=
    Agent.exists_isApplied_of_render hread hplan hbridge hrender
  rw [← hform] at hout
  obtain ⟨-, rfl⟩ := (happlied.read_form_eq_ok hread hof hbridge).mp hout
  exact tellsLength_ofPlan hplan hc happlied

/-- What the inspection of the class with a jump foretells. -/
theorem foretells_jumpClass :
  ∃ result inspection out, Instrumented.ofBytes {} ClassFile.jumpClass.form = .ok result
    ∧ result.changed ∧ of {} ClassFile.jumpClass = .ok inspection
    ∧ inspection.Foretells (.of result "A.class") ∧ ClassFile.read result.bytes = .ok out
    ∧ List.Forall₂ MethodInspection.TellsLength inspection.methods out.methods
  := by
  have hread := ClassFile.read_form_jumpClass
  obtain ⟨out, agent, htransform⟩ := Agent.exists_tryTransform_jumpClass
  have hresult : Instrumented.ofBytes {} ClassFile.jumpClass.form
      = .ok ⟨out, true, agent.registry.records.head?⟩ := by
    have hagent : Instrumented.agentFor {} = Agent.single := rfl
    have hname : ClassFile.jumpClass.name = "A" := rfl
    simp only [Instrumented.ofBytes, hread, hname, hagent, htransform, Option.getD_some,
      Option.isSome_some]
  obtain ⟨c, inspection, hc, hof, hforetells, hlengths, hreadable⟩ :=
    foretells_ofBytes (by decide +kernel) hresult rfl "A.class"
  obtain rfl := Except.ok.inj (hread.symm.trans hc)
  obtain ⟨written, hwritten⟩ := hreadable (.inr (by decide +kernel))
  exact ⟨_, inspection, written, hresult, rfl, hof, hforetells, hwritten, hlengths written hwritten⟩

end ClassInspection

end JvmCoverage
