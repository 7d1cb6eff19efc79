import JvmCoverage.Proofs.Pieces
import JvmCoverage.Proofs.Tables

/-!
# Putting probes into a class

The room that probes need in the pool is reckoned when they are planned, and everything in a body
that was read can be moved, except for an object without its constructor run that a frame knows by
an offset at which no instruction stands: reading does not look at that offset.  So probes are put
into a class exactly when there is no such offset in the planned methods
(`ClassPlan.exists_apply_iff`).
-/

namespace JvmCoverage

open Text.Utf8 (encode)

/-! ## Bodies -/

namespace Layout

/-- Whether `moved` is the code with probes in front of its instructions. -/
structure IsMoved (layout : Layout) (pool : ConstantPool) (bridge : Bridge) (segment : UInt32)
    (code moved : Code) : Prop where
  pieces : layout.ArePieces pool bridge segment moved.instructions
  tables : layout.moveTables code = .ok (moved.handlers, moved.attributes)
  maxStack : moved.maxStack = code.maxStack + UInt16.ofNat Probe.operands
  maxLocals : moved.maxLocals = code.maxLocals

variable {layout : Layout} {pool later : ConstantPool} {bridge : Bridge} {segment : UInt32}
  {context : Probe.Context} {code moved : Code} {probeAt : Nat → Option Nat}

theorem IsMoved.mono {room : Nat} (h : layout.IsMoved pool bridge segment code moved)
    (hextends : pool.Extends later room) :
  layout.IsMoved later bridge segment code moved
  := ⟨h.pieces.mono hextends, h.tables, h.maxStack, h.maxLocals⟩

/-- A body is moved only with its tables. -/
theorem exists_tables_of_yields (h : (layout.moveCode context code).Yields pool moved later) :
  ∃ tables, layout.moveTables code = .ok tables
  := by
  obtain ⟨insns, middle, -, htables⟩ := PoolBuilder.yields_bind.mp h
  split at htables
  · rename_i handlers attributes heq
    exact ⟨_, heq⟩
  · exact absurd htables PoolBuilder.not_yields_throw

/-- A body whose tables can be moved is moved. -/
theorem adds_moveCode (hcontext : context.IsFor pool bridge segment)
    (hlayout : layout.IsFor code probeAt) {base : ConstantPool} (hcode : code.WellFormed base)
    (htables : ∃ tables, layout.moveTables code = .ok tables) :
  (layout.moveCode context code).Adds pool
    (Probe.pooled (layout.sites.toList.filterMap Site.probe)) fun moved later =>
      layout.IsMoved later bridge segment code moved ∧ (pool.WellFormed → later.WellFormed)
  := by
  obtain ⟨⟨handlers, attributes⟩, htables⟩ := htables
  rw [moveCode]
  simp only [htables]
  rw [← Nat.zero_add (Probe.pooled _)]
  apply (adds_moveInstructions hcontext hlayout hcode.instructions.tiles
    hcode.instructions.lands).bind
  rintro insns middle - ⟨hpieces, hwf⟩
  exact .pure ⟨⟨hpieces, htables, rfl, rfl⟩, hwf⟩

end Layout

/-! ## Methods -/

/-- Whether the plan is one of a method in `methods` with the given body. -/
structure MethodPlan.IsIn (plan : MethodPlan) (base : ConstantPool) (methods : Array Method)
    (m : Method) (code : Code) : Prop where
  method : methods[plan.method]? = some m
  body : m.code? = some code
  isOf : ∃ first, plan.IsOf code first
  wellFormed : code.WellFormed base

namespace ClassPlan

variable {className : String} {context : Probe.Context} {bridge : Bridge} {segment : UInt32}
  {base pool later : ConstantPool} {methods methods' : Array Method} {plan : MethodPlan}
  {plans : List MethodPlan} {m : Method} {code : Code}

theorem applyMethod_eq (h : plan.IsIn base methods m code) :
  applyMethod className context methods plan = (do
    let moved ← plan.layout.moveCode context code
    return methods.setIfInBounds plan.method (m.mapCode fun _ => moved))
  := by
  obtain ⟨first, hof⟩ := h.isOf
  rw [applyMethod, if_neg hof.probeCount_ne_zero, h.method]
  simp only [h.body]

/-- Methods in other places stay. -/
theorem isIn_set {plan' : MethodPlan} {m' : Method} {code' : Code} {new : Method}
    (hne : plan.method ≠ plan'.method) :
  plan'.IsIn base (methods.setIfInBounds plan.method new) m' code'
    ↔ plan'.IsIn base methods m' code'
  := by
  constructor
  · intro h
    refine ⟨?_, h.body, h.isOf, h.wellFormed⟩
    rw [← h.method, Array.getElem?_setIfInBounds_ne hne]
  · intro h
    refine ⟨?_, h.body, h.isOf, h.wellFormed⟩
    rw [← h.method, Array.getElem?_setIfInBounds_ne hne]

/-- Methods get probes only when the tables of each can be moved. -/
theorem exists_tables_of_foldlM
    (h : (plans.foldlM (applyMethod className context) methods).Yields pool methods' later)
    (hordered : plans.Pairwise fun a b => a.method < b.method)
    (hplans : ∀ plan ∈ plans, ∃ m code, plan.IsIn base methods m code) :
  ∀ plan ∈ plans, ∀ m code, plan.IsIn base methods m code →
    ∃ tables, plan.layout.moveTables code = .ok tables
  := by
  induction plans generalizing methods pool with
  | nil => simp
  | cons plan plans ih =>
    obtain ⟨hlt, hordered⟩ := List.pairwise_cons.mp hordered
    obtain ⟨⟨m, code, hin⟩, hplans⟩ := List.forall_mem_cons.mp hplans
    rw [List.foldlM_cons, PoolBuilder.yields_bind] at h
    obtain ⟨middle, between, happly, hrest⟩ := h
    rw [applyMethod_eq hin, PoolBuilder.yields_bind] at happly
    obtain ⟨moved, _, hmove, hset⟩ := happly
    obtain ⟨rfl, rfl⟩ := PoolBuilder.yields_pure.mp hset
    rw [List.forall_mem_cons]
    constructor
    · intro m' code' hin'
      obtain rfl := Option.some.inj (hin.method.symm.trans hin'.method)
      obtain rfl := Option.some.inj (hin.body.symm.trans hin'.body)
      apply Layout.exists_tables_of_yields hmove
    · intro plan' hplan' m' code' hin'
      refine ih hrest hordered ?_ plan' hplan' m' code' ((isIn_set (hlt plan' hplan').ne).mpr hin')
      intro plan' hplan'
      obtain ⟨m', code', hin'⟩ := hplans plan' hplan'
      exact ⟨m', code', (isIn_set (hlt plan' hplan').ne).mpr hin'⟩

/-- Whether `methods'` are the methods with the probes of the plans. -/
structure AreMoved (plans : List MethodPlan) (pool : ConstantPool) (bridge : Bridge)
    (segment : UInt32) (methods methods' : Array Method) : Prop where
  size : methods'.size = methods.size
  others : ∀ i : Nat, (∀ plan ∈ plans, plan.method ≠ i) → methods'[i]? = methods[i]?
  planned : ∀ plan ∈ plans, ∃ m code moved, methods[plan.method]? = some m
    ∧ m.code? = some code ∧ methods'[plan.method]? = some (m.mapCode fun _ => moved)
    ∧ plan.layout.IsMoved pool bridge segment code moved

/-- A method whose tables can be moved gets its probes. -/
theorem adds_applyMethod (hcontext : context.IsFor pool bridge segment)
    (hin : plan.IsIn base methods m code)
    (htables : ∃ tables, plan.layout.moveTables code = .ok tables) :
  (applyMethod className context methods plan).Adds pool (Probe.pooled plan.numbers)
    fun methods' later =>
      (∃ moved, methods' = methods.setIfInBounds plan.method (m.mapCode fun _ => moved)
        ∧ plan.layout.IsMoved later bridge segment code moved)
      ∧ (pool.WellFormed → later.WellFormed)
  := by
  obtain ⟨first, hof⟩ := hin.isOf
  rw [applyMethod_eq hin, ← hof.numbers_sites, ← Nat.zero_add (Probe.pooled _)]
  apply (Layout.adds_moveCode hcontext hof.layout hin.wellFormed htables).bind
  rintro moved middle - ⟨hmoved, hwf⟩
  exact .pure ⟨⟨moved, rfl, hmoved⟩, hwf⟩

/-- Methods with the probes of some plans in which one more method had got its probes are methods
with the probes of all these plans. -/
theorem AreMoved.cons {moved : Code}
    (h : AreMoved plans later bridge segment
      (methods.setIfInBounds plan.method (m.mapCode fun _ => moved)) methods')
    (hlt : ∀ plan' ∈ plans, plan.method < plan'.method) (hin : plan.IsIn base methods m code)
    (hmoved : plan.layout.IsMoved later bridge segment code moved) :
  AreMoved (plan :: plans) later bridge segment methods methods'
  where
    size := by
      rw [h.size, Array.size_setIfInBounds]
    others := by
      intro i hi
      obtain ⟨hne, hothers⟩ := List.forall_mem_cons.mp hi
      rw [h.others i hothers, Array.getElem?_setIfInBounds_ne hne]
    planned := by
      rw [List.forall_mem_cons]
      constructor
      · refine ⟨m, code, moved, hin.method, hin.body, ?_, hmoved⟩
        have hsize := (Array.getElem?_eq_some_iff.mp hin.method).1
        rw [h.others plan.method fun plan' hplan' => (hlt plan' hplan').ne',
          Array.getElem?_setIfInBounds_self_of_lt hsize]
      · intro plan' hplan'
        obtain ⟨m', code', moved', hm', hcode', hmoved', hisMoved⟩ := h.planned plan' hplan'
        rw [Array.getElem?_setIfInBounds_ne (hlt plan' hplan').ne] at hm'
        exact ⟨m', code', moved', hm', hcode', hmoved', hisMoved⟩

/-- Methods whose tables can be moved get their probes. -/
theorem adds_foldlM (hcontext : context.IsFor pool bridge segment)
    (hordered : plans.Pairwise fun a b => a.method < b.method)
    (hplans : ∀ plan ∈ plans, ∃ m code, plan.IsIn base methods m code
      ∧ ∃ tables, plan.layout.moveTables code = .ok tables) :
  PoolBuilder.Adds (plans.foldlM (applyMethod className context) methods) pool
    (Probe.pooled (plans.flatMap MethodPlan.numbers)) fun methods' later =>
      AreMoved plans later bridge segment methods methods' ∧ (pool.WellFormed → later.WellFormed)
  := by
  induction plans generalizing methods pool with
  | nil => exact .pure ⟨⟨rfl, fun _ _ => rfl, by simp⟩, id⟩
  | cons plan plans ih =>
    obtain ⟨hlt, hordered⟩ := List.pairwise_cons.mp hordered
    obtain ⟨⟨m, code, hin, htables⟩, hplans⟩ := List.forall_mem_cons.mp hplans
    have hroom : Probe.pooled ((plan :: plans).flatMap MethodPlan.numbers)
        = Probe.pooled (plans.flatMap MethodPlan.numbers) + Probe.pooled plan.numbers := by
      rw [List.flatMap_cons, Probe.pooled_append, Nat.add_comm]
    rw [hroom, List.foldlM_cons]
    apply (adds_applyMethod hcontext hin htables).bind
    rintro _ middle hextends ⟨⟨moved, rfl, hmoved⟩, hmiddle⟩
    have hplansSet : ∀ plan' ∈ plans, ∃ m' code',
        plan'.IsIn base (methods.setIfInBounds plan.method (m.mapCode fun _ => moved)) m' code'
          ∧ ∃ tables, plan'.layout.moveTables code' = .ok tables := by
      intro plan' hplan'
      obtain ⟨m', code', hin', htables'⟩ := hplans plan' hplan'
      exact ⟨m', code', (isIn_set (hlt plan' hplan').ne).mpr hin', htables'⟩
    apply (ih (hcontext.mono hextends) hordered hplansSet).imp le_rfl
    rintro methods' later hextends' ⟨hareMoved, hlater⟩
    exact ⟨hareMoved.cons hlt hin (hmoved.mono hextends'), fun hpool => hlater (hmiddle hpool)⟩

/-! ## Classes -/

/-- Whether the texts of the bridge fit into pool entries. -/
def BridgeFits (bridge : Bridge) : Prop :=
  (encode bridge.owner).length ≤ 65535 ∧ (encode bridge.name).length ≤ 65535
    ∧ (encode bridge.descriptor).length ≤ 65535

instance (bridge : Bridge) : Decidable (BridgeFits bridge) := by
  rw [BridgeFits]
  infer_instance

/-- What all probes share takes at most seven slots. -/
theorem adds_context (bridge : Bridge) (segment : UInt32) :
  (addContext bridge segment).Adds pool 7 fun context later =>
    context.IsFor later bridge segment ∧ (pool.WellFormed → BridgeFits bridge → later.WellFormed)
  := by
  rw [addContext]
  apply (PoolBuilder.adds_methodRef bridge.owner bridge.name bridge.descriptor).bind
  rintro method middle - ⟨⟨c, hget, hmethod⟩, hmiddle⟩
  apply (PoolBuilder.adds_integer segment.toInt32).bind
  rintro number later hextends ⟨hnumber, hlater⟩
  refine .pure ⟨⟨.inl ⟨number, rfl, hnumber⟩, ?_⟩, ?_⟩
  · exact ⟨method, c, rfl, hextends.get? hget, hextends.isMethodRef hmethod⟩
  · rintro hpool ⟨howner, hname, hdescriptor⟩
    apply hlater (hmiddle hpool howner hname hdescriptor)

variable {classPlan : ClassPlan} {c : ClassFile}

/-- Probes numbered from 0 on need no more room than is planned for. -/
theorem room_le (n : Nat) :
  c.pool.count + (Probe.pooled (List.range n) + 7) ≤ neededSlots c n
  := by
  rw [Probe.pooled_range, neededSlots, PoolBuilder.worstCase]
  omega

theorem isIn_of_plans (hplan : classPlan.IsOf bridge c) (hc : c.WellFormed)
    {methodPlan : MethodPlan} (hmem : methodPlan ∈ classPlan.planned) :
  ∃ m code, methodPlan.IsIn c.pool c.methods.toArray m code
  := by
  obtain ⟨m, first, hm, code, hcode, hof⟩ := hplan.methods methodPlan hmem
  have hwf := hc.methods m (List.mem_of_getElem? hm)
  exact ⟨m, code, by simpa using hm, hcode, ⟨first, hof⟩, Method.wellFormed_code hwf hcode⟩

/-- A class whose tables can be moved gets its probes. -/
theorem adds_applyMethods (hplan : classPlan.IsOf bridge c) (hc : c.WellFormed)
    (htables : ∀ methodPlan ∈ classPlan.planned, ∀ m code,
      methodPlan.IsIn c.pool c.methods.toArray m code →
        ∃ tables, methodPlan.layout.moveTables code = .ok tables) :
  (classPlan.applyMethods segment c.methods.toArray).Adds c.pool
    (Probe.pooled (List.range classPlan.probeCount) + 7) fun methods' later =>
      AreMoved classPlan.planned later bridge segment c.methods.toArray methods'
        ∧ (c.pool.WellFormed → BridgeFits bridge → later.WellFormed)
  := by
  rw [applyMethods]
  rw [hplan.bridge_eq]
  apply (adds_context bridge segment).bind
  rintro context middle - ⟨hcontext, hmiddle⟩
  have hplans : ∀ methodPlan ∈ classPlan.planned, ∃ m code,
      methodPlan.IsIn c.pool c.methods.toArray m code
        ∧ ∃ tables, methodPlan.layout.moveTables code = .ok tables := by
    intro methodPlan hmem
    obtain ⟨m, code, hin⟩ := isIn_of_plans hplan hc hmem
    exact ⟨m, code, hin, htables methodPlan hmem m code hin⟩
  rw [← hplan.numbers]
  apply (adds_foldlM hcontext hplan.ordered hplans).imp le_rfl
  rintro methods' later - ⟨hareMoved, hlater⟩
  exact ⟨hareMoved, fun hpool hfits => hlater (hmiddle hpool hfits)⟩

theorem addTo_eq_ok {α : Type} {additions : PoolBuilder α} {a : α} :
  ClassBuilder.addTo pool additions = .ok (a, later) ↔ additions.Yields pool a later
  := by
  unfold ClassBuilder.addTo PoolBuilder.Yields
  split
  · rename_i a' pool' heq
    constructor
    · intro h
      obtain ⟨rfl, rfl⟩ := Prod.mk.inj (Except.ok.inj h)
      apply heq
    · intro h
      obtain ⟨ha, rfl⟩ := Prod.mk.inj (heq.symm.trans h)
      rw [Except.ok.inj ha]
  · rename_i e pool' heq
    constructor
    · intro h
      cases h
    · intro h
      cases (Prod.mk.inj (heq.symm.trans h)).1

/-- Probes are put into a class by putting them into its methods. -/
theorem apply_eq_ok {c' : ClassFile} :
  classPlan.apply segment c = .ok c' ↔ (classPlan.isEmpty ∧ c' = c)
    ∨ (classPlan.isEmpty = false ∧ ∃ methods' later,
      (classPlan.applyMethods segment c.methods.toArray).Yields c.pool methods' later
        ∧ c' = { c with pool := later, methods := methods'.toList })
  := by
  rw [apply]
  split
  · rename_i hempty
    simp [hempty, eq_comm]
  · rename_i hne
    rw [Bool.not_eq_true] at hne
    simp only [hne, bind_eq_ok, pure_eq_ok, Prod.exists, addTo_eq_ok, Bool.false_eq_true,
      false_and, false_or, true_and]
    constructor
    · rintro ⟨methods', later, hyields, rfl⟩
      exact ⟨methods', later, hyields, rfl⟩
    · rintro ⟨methods', later, hyields, rfl⟩
      exact ⟨methods', later, hyields, rfl⟩

/-- Whether `c'` is the class with the probes of the plan. -/
structure IsApplied (classPlan : ClassPlan) (bridge : Bridge) (segment : UInt32)
    (c c' : ClassFile) : Prop where
  eq : c' = { c with pool := c'.pool, methods := c'.methods }
  extends_pool : ∃ room, c.pool.Extends c'.pool room
  moved : AreMoved classPlan.planned c'.pool bridge segment c.methods.toArray c'.methods.toArray
  pool_wellFormed : BridgeFits bridge → c'.pool.WellFormed

/-- What putting probes into a class gives, and when it succeeds. -/
theorem apply_spec (hplan : classPlan.IsOf bridge c) (hc : c.WellFormed) :
  (∀ c', classPlan.apply segment c = .ok c' → classPlan.IsApplied bridge segment c c')
    ∧ ((∃ c', classPlan.apply segment c = .ok c') ↔ ∀ methodPlan ∈ classPlan.planned, ∀ m code,
      methodPlan.IsIn c.pool c.methods.toArray m code →
        ∃ tables, methodPlan.layout.moveTables code = .ok tables)
  := by
  cases hempty : classPlan.isEmpty with
  | true =>
    have hnil := hplan.isEmpty_iff.mp hempty
    simp only [apply_eq_ok, hempty, hnil]
    constructor
    · rintro c' (⟨-, rfl⟩ | ⟨habsurd, -⟩)
      · exact ⟨rfl, ⟨0, .refl _⟩, ⟨rfl, fun _ _ => rfl, by simp [hnil]⟩, fun _ => hc.pool⟩
      · cases habsurd
    · simp
  | false =>
    have hroom := (room_le classPlan.probeCount).trans (hplan.room hempty)
    have htables : (∃ c', classPlan.apply segment c = .ok c') →
        ∀ methodPlan ∈ classPlan.planned, ∀ m code,
          methodPlan.IsIn c.pool c.methods.toArray m code →
            ∃ tables, methodPlan.layout.moveTables code = .ok tables := by
      rintro ⟨c', happly⟩
      rcases apply_eq_ok.mp happly with ⟨habsurd, -⟩ | ⟨-, methods', later, hyields, -⟩
      · rw [hempty] at habsurd
        cases habsurd
      obtain ⟨context, middle, -, hfold⟩ := PoolBuilder.yields_bind.mp hyields
      apply exists_tables_of_foldlM hfold hplan.ordered fun methodPlan hmem =>
        isIn_of_plans hplan hc hmem
    constructor
    · intro c' happly
      have hadds : (classPlan.applyMethods segment c.methods.toArray).Adds c.pool _ _ :=
        adds_applyMethods hplan hc (htables ⟨c', happly⟩)
      obtain ⟨methods', later, hyields, hextends, hareMoved, hwf⟩ := hadds hroom
      rcases apply_eq_ok.mp happly with ⟨habsurd, -⟩ | ⟨-, methods'', later', hyields', rfl⟩
      · rw [hempty] at habsurd
        cases habsurd
      obtain ⟨rfl, rfl⟩ := hyields.unique hyields'
      exact ⟨rfl, ⟨_, hextends⟩, hareMoved, hwf hc.pool⟩
    · refine ⟨htables, fun htables => ?_⟩
      have hadds : (classPlan.applyMethods segment c.methods.toArray).Adds c.pool _ _ :=
        adds_applyMethods hplan hc htables
      obtain ⟨methods', later, hyields, -⟩ := hadds hroom
      exact ⟨_, apply_eq_ok.mpr (.inr ⟨hempty, methods', later, hyields, rfl⟩)⟩

/-- Probes are put into a well-formed class exactly when every object without its constructor run
in the frames of a planned method stands for an instruction of that method. -/
theorem IsOf.exists_apply_iff_newOffsets (hplan : classPlan.IsOf bridge c) (hc : c.WellFormed)
    (segment : UInt32) :
  (∃ c', classPlan.apply segment c = .ok c')
    ↔ ∀ methodPlan ∈ classPlan.planned, ∀ m code, c.methods[methodPlan.method]? = some m →
      m.code? = some code → ∀ offset ∈ code.newOffsets,
        offset ∈ code.instructions.map Instruction.offset
  := by
  rw [(apply_spec hplan hc).2]
  apply forall₂_congr
  intro methodPlan hmem
  obtain ⟨m, code, hin⟩ := isIn_of_plans hplan hc hmem
  obtain ⟨first, hmethod⟩ := hin.isOf
  have hiff := Layout.exists_moveTables_iff hmethod.layout hin.wellFormed.instructions.tiles
    hin.wellFormed hmethod.movable
  constructor
  · intro htables m' code' hm' hcode'
    obtain rfl := Option.some.inj (hin.method.symm.trans (by simpa using hm'))
    obtain rfl := Option.some.inj (hin.body.symm.trans hcode')
    apply hiff.mp (htables m code hin)
  · intro hoffsets m' code' hin'
    obtain rfl := Option.some.inj (hin.method.symm.trans hin'.method)
    obtain rfl := Option.some.inj (hin.body.symm.trans hin'.body)
    apply hiff.mpr (hoffsets m code (by simpa using hin.method) hin.body)

/-- Probes are put into a class that was read exactly when every object without its constructor
run in the frames of a planned method stands for an instruction of that method. -/
theorem exists_apply_iff {bytes : List UInt8} {policy : Policy}
    (hread : ClassFile.read bytes = .ok c) (hplan : ofClass policy c = .ok classPlan)
    (segment : UInt32) :
  (∃ c', classPlan.apply segment c = .ok c')
    ↔ ∀ methodPlan ∈ classPlan.planned, ∀ m code, c.methods[methodPlan.method]? = some m →
      m.code? = some code → ∀ offset ∈ code.newOffsets,
        offset ∈ code.instructions.map Instruction.offset
  := by
  have hc := (ClassFile.wellFormed_of_read hread).1
  apply (isOf_of_ofClass hplan hc).exists_apply_iff_newOffsets hc segment

theorem newOffsets_jumpClass {m : Method} {code : Code} (hm : m ∈ ClassFile.jumpClass.methods)
    (hcode : m.code? = some code) :
  code.newOffsets = []
  := by
  obtain rfl := List.mem_singleton.mp hm
  obtain rfl : ClassFile.jumpBody = code := Option.some.inj hcode
  rfl

theorem exists_apply_jumpClass :
  ∃ plan, ofClass {} ClassFile.jumpClass = .ok plan ∧ plan.planned ≠ []
    ∧ ∃ c', plan.apply 0 ClassFile.jumpClass = .ok c'
  := by
  have hread := ClassFile.read_form_jumpClass
  obtain ⟨plan, hplan, hne⟩ := ClassFile.exists_plan_jumpClass
  refine ⟨plan, hplan, hne, (exists_apply_iff hread hplan 0).mpr ?_⟩
  intro methodPlan _ m code hm hcode offset hoffset
  rw [newOffsets_jumpClass (List.mem_of_getElem? hm) hcode] at hoffset
  cases hoffset

/-- The class with a jump gets its probes. -/
theorem exists_probed_jumpClass :
  ∃ plan c', ofClass {} ClassFile.jumpClass = .ok plan ∧ plan.planned ≠ []
    ∧ plan.apply 0 ClassFile.jumpClass = .ok c'
  := by
  obtain ⟨plan, hplan, hne⟩ := ClassFile.exists_plan_jumpClass
  have hof := isOf_of_ofClass hplan ClassFile.wellFormed_jumpClass
  have happly : ∃ c', plan.apply 0 ClassFile.jumpClass = .ok c' := by
    apply (hof.exists_apply_iff_newOffsets ClassFile.wellFormed_jumpClass 0).mpr
    intro methodPlan _ m code hm hcode offset hoffset
    rw [newOffsets_jumpClass (List.mem_of_getElem? hm) hcode] at hoffset
    cases hoffset
  obtain ⟨c', happly⟩ := happly
  exact ⟨plan, c', hplan, hne, happly⟩

/-! ## An object that no instruction makes -/

/-- A body with a frame that knows an object by an offset behind the code. -/
def strayBody : Code where
  maxStack := 0
  maxLocals := 0
  instructions := [⟨0, .methodReturn 0xb1⟩]
  handlers := []
  attributes := [.stackMap 6 [⟨0, .full [.uninitialized 1] []⟩]]

/-- A class with two methods, of which the first has the body `strayBody` and the second the same
instructions without frames. -/
def strayClass : ClassFile :=
  { ClassFile.jumpClass with
    pool := ⟨ClassFile.jumpClass.pool.entries.push (.utf8 [103])⟩
    methods := [⟨9, 3, 4, "f", "()V", [.code 5 strayBody]⟩,
      ⟨9, 7, 4, "g", "()V", [.code 5 { strayBody with attributes := [] }]⟩] }

theorem wellFormed_strayBody {attributes : List CodeAttribute}
    (hle : attributes.length ≤ 65535)
    (hattributes : ∀ attr ∈ attributes,
      attr.WellFormed strayClass.pool (Code.boundaries strayBody.instructions 1)) :
  Code.WellFormed strayClass.pool { strayBody with attributes }
  where
    instructions := by
      change CodeArray.WellFormed strayBody.instructions 1
      decide +kernel
    handlers_le := Nat.zero_le _
    handlers := by simp [strayBody]
    attributes_le := hle
    attributes := hattributes

theorem wellFormed_strayClass :
  strayClass.WellFormed
  := {
    ClassFile.wellFormed_jumpClass with
    pool := ⟨⟨strayClass.pool.entries.toList.tail, by decide, by decide +kernel⟩, by decide,
      by decide +kernel⟩
    name := by decide +kernel
    fields := by simp [strayClass, ClassFile.jumpClass]
    methods_le := by decide
    methods := by
      have hframe : (CodeAttribute.stackMap 6 [⟨0, .full [.uninitialized 1] []⟩]).WellFormed
          strayClass.pool (Code.boundaries strayBody.instructions 1) := by
        refine ⟨Code.stackMapTable, rfl, rfl, ⟨by simp [Frame.Ordered], by decide, ?_⟩, ?_⟩
        · simp [Frame.gaps, Frame.gap, FrameShape.Valid]
        · simp [Code.isStart_boundaries, strayBody]
      simp only [strayClass, List.forall_mem_cons, List.not_mem_nil, false_implies, implies_true,
        and_true]
      constructor
      · exact Method.wellFormed_of_body (by decide +kernel) (by decide +kernel) rfl rfl
          (wellFormed_strayBody (by decide) (by simpa using hframe))
      · exact Method.wellFormed_of_body (by decide +kernel) (by decide +kernel) rfl rfl
          (wellFormed_strayBody (by decide) (by simp))
    attributes := by simp [strayClass, ClassFile.jumpClass] }

theorem read_form_strayClass :
  ClassFile.read strayClass.form = .ok strayClass
  := (ClassFile.read_form_iff wellFormed_strayClass).mpr
    (ClassFile.lengthsFit_of_forms (by decide +kernel))

/-- The error that putting probes into a class ends in. -/
def error? (plan : ClassPlan) (segment : UInt32) (c : ClassFile) : Option InstrumentError :=
  match plan.apply segment c with
  | .ok _ => none
  | .error e => some e

theorem error?_eq_some {e : InstrumentError} :
  classPlan.error? segment c = some e ↔ classPlan.apply segment c = .error e
  := by
  rw [error?]
  cases classPlan.apply segment c <;> simp

/-- A class that was read and planned may get no probes, for the sake of one frame. -/
theorem apply_strayClass :
  ClassFile.read strayClass.form = .ok strayClass
    ∧ ∃ plan, ofClass {} strayClass = .ok plan
      ∧ plan.apply 0 strayClass = .error (.encode (.offBoundary .newObject 1))
  := by
  use read_form_strayClass
  have hfails : (ofClass {} strayClass).toOption.any fun plan =>
      plan.error? 0 strayClass = some (.encode (.offBoundary .newObject 1)) := by
    decide +kernel
  obtain ⟨plan, hplan, herror⟩ := exists_ok_of_any hfails
  exact ⟨plan, hplan, error?_eq_some.mp (of_decide_eq_true herror)⟩

end ClassPlan

end JvmCoverage
