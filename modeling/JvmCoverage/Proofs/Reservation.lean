import JvmCoverage.Proofs.Insertion

/-!
# The room that a plan reserves

A plan is made only if the pool has room for everything that its probes may need.  So no addition
for them finds the pool full, also when a frame breaks the work off in the middle
(`ClassPlan.keepsReservation_of_read`).
-/

namespace JvmCoverage

namespace PoolBuilder

variable {α β : Type} {pool : ConstantPool} {b : PoolBuilder α} {room room' : Nat}

/-- Whether the additions `b`, if `pool` has `room` more slots, take no more than these, and fail
only over the code. -/
def Reserves (b : PoolBuilder α) (pool : ConstantPool) (room : Nat) : Prop :=
  pool.count + room ≤ ConstantPool.maxSlots →
    pool.Extends (b.run.run pool).2 room
      ∧ ∀ e, (b.run.run pool).1 = .error e → ∃ fault, e = .encode fault

theorem reserves_pure (a : α) (pool : ConstantPool) :
  Reserves (pure a) pool 0
  := by
  refine fun _ => ⟨.refl pool, fun e he => ?_⟩
  cases he

theorem reserves_throw (fault : EncodeFault) (pool : ConstantPool) :
  Reserves (throw (.encode fault) : PoolBuilder α) pool 0
  := fun _ => ⟨.refl pool, fun _ h => ⟨fault, (Except.error.inj h).symm⟩⟩

theorem Adds.reserves {post : α → ConstantPool → Prop} (h : b.Adds pool room post) :
  b.Reserves pool room
  := by
  intro hroom
  obtain ⟨a, later, hb, hextends, -⟩ := h hroom
  rw [Yields] at hb
  rw [hb]
  refine ⟨hextends, fun e he => ?_⟩
  cases he

/-- What is added after something else has room behind it. -/
theorem Reserves.bind {f : α → PoolBuilder β} (h : b.Reserves pool room)
    (h' : ∀ a middle, b.Yields pool a middle → pool.Extends middle room →
      (f a).Reserves middle room') :
  (b >>= f).Reserves pool (room' + room)
  := by
  intro hroom
  obtain ⟨hextends, herror⟩ := h (by omega)
  rw [run_bind]
  cases hb : b.run.run pool with
  | mk result middle =>
    rw [hb] at hextends herror
    have hle : middle.count ≤ pool.count + room := hextends.2
    cases result with
    | error e =>
      obtain ⟨fault, rfl⟩ := herror e rfl
      exact ⟨hextends.mono (Nat.le_add_left _ _), fun e he => ⟨fault, (Except.error.inj he).symm⟩⟩
    | ok a =>
      obtain ⟨hextends', herror'⟩ := h' a middle hb hextends (by omega)
      exact ⟨hextends.trans hextends', herror'⟩

/-- What is added after something that succeeds may rely on what that gives. -/
theorem Adds.bind_reserves {f : α → PoolBuilder β} {post : α → ConstantPool → Prop}
    (h : b.Adds pool room post)
    (h' : ∀ a middle, pool.Extends middle room → post a middle → (f a).Reserves middle room') :
  (b >>= f).Reserves pool (room' + room)
  := by
  intro hroom
  obtain ⟨a, middle, hb, hextends, hpost⟩ := h (by omega)
  refine h.reserves.bind (fun a' middle' hb' _ => ?_) hroom
  obtain ⟨rfl, rfl⟩ := hb.unique hb'
  exact h' a middle hextends hpost

end PoolBuilder

/-! ## Bodies and methods -/

open PoolBuilder

variable {layout : Layout} {base pool : ConstantPool} {bridge : Bridge} {segment : UInt32}
  {context : Probe.Context} {code : Code} {probeAt : Nat → Option Nat}

/-- A body takes the entries of its probes, whether its tables can be moved or not. -/
theorem Layout.reserves_moveCode (hcontext : context.IsFor pool bridge segment)
    (hlayout : layout.IsFor code probeAt) (hcode : code.WellFormed base) :
  (layout.moveCode context code).Reserves pool
    (Probe.pooled (layout.sites.toList.filterMap Site.probe))
  := by
  rw [moveCode, ← Nat.zero_add (Probe.pooled _)]
  apply (adds_moveInstructions hcontext hlayout hcode.instructions.tiles
    hcode.instructions.lands).bind_reserves
  rintro insns middle - -
  split
  · apply reserves_pure
  · apply reserves_throw

namespace ClassPlan

variable {className : String} {methods methods' : Array Method} {plan : MethodPlan}
  {plans : List MethodPlan} {m : Method}

theorem reserves_applyMethod (hcontext : context.IsFor pool bridge segment)
    (hin : plan.IsIn base methods m code) :
  (applyMethod className context methods plan).Reserves pool (Probe.pooled plan.numbers)
  := by
  obtain ⟨first, hof⟩ := hin.isOf
  rw [applyMethod_eq hin, ← hof.numbers_sites, ← Nat.zero_add (Probe.pooled _)]
  apply (Layout.reserves_moveCode hcontext hof.layout hin.wellFormed).bind
  rintro moved middle - -
  apply reserves_pure

/-- A method with probes takes the place of the method without. -/
theorem eq_set_of_applyMethod {later : ConstantPool} (hin : plan.IsIn base methods m code)
    (h : (applyMethod className context methods plan).Yields pool methods' later) :
  ∃ m', methods' = methods.setIfInBounds plan.method m'
  := by
  rw [applyMethod_eq hin] at h
  obtain ⟨moved, _, -, hset⟩ := yields_bind.mp h
  exact ⟨_, (yields_pure.mp hset).1.symm⟩

theorem reserves_foldlM (hcontext : context.IsFor pool bridge segment)
    (hordered : plans.Pairwise fun a b => a.method < b.method)
    (hplans : ∀ plan ∈ plans, ∃ m code, plan.IsIn base methods m code) :
  Reserves (plans.foldlM (applyMethod className context) methods) pool
    (Probe.pooled (plans.flatMap MethodPlan.numbers))
  := by
  induction plans generalizing methods pool with
  | nil => exact reserves_pure methods pool
  | cons plan plans ih =>
    obtain ⟨hlt, hordered⟩ := List.pairwise_cons.mp hordered
    obtain ⟨⟨m, code, hin⟩, hplans⟩ := List.forall_mem_cons.mp hplans
    rw [List.flatMap_cons, Probe.pooled_append, Nat.add_comm, List.foldlM_cons]
    apply (reserves_applyMethod hcontext hin).bind
    intro methods' middle hyields hextends
    obtain ⟨m', rfl⟩ := eq_set_of_applyMethod hin hyields
    apply ih (hcontext.mono hextends) hordered
    intro plan' hplan'
    obtain ⟨m', code', hin'⟩ := hplans plan' hplan'
    exact ⟨m', code', (isIn_set (hlt plan' hplan').ne).mpr hin'⟩

/-! ## Classes -/

variable {classPlan : ClassPlan} {c c' : ClassFile}

theorem reserves_applyMethods (hplan : classPlan.IsOf bridge c) (hc : c.WellFormed)
    (segment : UInt32) :
  (classPlan.applyMethods segment c.methods.toArray).Reserves c.pool
    (Probe.pooled (List.range classPlan.probeCount) + 7)
  := by
  rw [applyMethods, hplan.bridge_eq, ← hplan.numbers]
  apply (adds_context bridge segment).bind_reserves
  rintro context middle - ⟨hcontext, -⟩
  exact reserves_foldlM hcontext hplan.ordered fun _ hmem => isIn_of_plans hplan hc hmem

/-- Probes are kept out of a class by an addition to its pool or by its code. -/
theorem exists_run_of_apply {e : InstrumentError} (h : classPlan.apply segment c = .error e) :
  classPlan.isEmpty = false ∧ ∃ later,
    (classPlan.applyMethods segment c.methods.toArray).run.run c.pool = (.error e, later)
  := by
  rw [apply] at h
  split at h
  · cases h
  rename_i hne
  refine ⟨eq_false_of_ne_true hne, ?_⟩
  cases hrun : (classPlan.applyMethods segment c.methods.toArray).run.run c.pool with
  | mk result later =>
    rw [ClassBuilder.addTo, hrun] at h
    cases result with
    | error e' => exact ⟨later, congrArg (·, later) (congrArg Except.error (Except.error.inj h))⟩
    | ok methods => cases h

/-- Whether the pool of `c` has room for everything that the probes of a plan need. -/
structure KeepsReservation (classPlan : ClassPlan) (segment : UInt32) (c : ClassFile) : Prop where
  /-- Probes that cannot be put in are kept out by the code, not by the pool. -/
  encode : ∀ e, classPlan.apply segment c = .error e → ∃ fault, e = .encode fault
  /-- The additions for the probes take no more than was reserved, even if they are broken off. -/
  additions : classPlan.isEmpty = false → ∀ result later,
    (classPlan.applyMethods segment c.methods.toArray).run.run c.pool = (result, later) →
      (∀ e, result = .error e → ∃ fault, e = .encode fault)
      ∧ later.count ≤ c.pool.count + (7 + (classPlan.probeCount - 32768)) ∧ later.count ≤ 65535
  /-- The class with the probes has a pool that is not too long. -/
  pool : ∀ c', classPlan.apply segment c = .ok c' →
    c'.pool.count ≤ c.pool.count + (7 + (classPlan.probeCount - 32768)) ∧ c'.pool.count ≤ 65535

/-- The room that a plan reserves is enough, whatever segment its probes count in. -/
theorem keepsReservation_of_read {bytes : List UInt8} {policy : Policy}
    (hread : ClassFile.read bytes = .ok c) (hplan : ofClass policy c = .ok classPlan)
    (segment : UInt32) :
  classPlan.KeepsReservation segment c
  := by
  have hc := (ClassFile.wellFormed_of_read hread).1
  have hof := isOf_of_ofClass hplan hc
  have hadditions (hempty : classPlan.isEmpty = false) (result) (later : ConstantPool)
      (hrun : (classPlan.applyMethods segment c.methods.toArray).run.run c.pool
        = (result, later)) :
      (∀ e, result = .error e → ∃ fault, e = .encode fault)
        ∧ later.count ≤ c.pool.count + (7 + (classPlan.probeCount - 32768))
        ∧ later.count ≤ 65535 := by
    have hroom := (room_le classPlan.probeCount).trans (hof.room hempty)
    obtain ⟨hextends, herror⟩ := reserves_applyMethods hof hc segment hroom
    rw [hrun] at hextends herror
    have hle : later.count ≤ _ := hextends.2
    have hlimit := hle.trans hroom
    rw [Probe.pooled_range, Nat.add_comm _ 7] at hle
    exact ⟨herror, hle, hlimit⟩
  refine ⟨?_, hadditions, ?_⟩
  · intro e happly
    obtain ⟨hne, later, hrun⟩ := exists_run_of_apply happly
    exact (hadditions hne _ later hrun).1 e rfl
  · intro c' happly
    rcases apply_eq_ok.mp happly with ⟨-, rfl⟩ | ⟨hne, methods, later, hyields, rfl⟩
    · exact ⟨Nat.le_add_right _ _, hc.pool.count_le⟩
    · exact (hadditions hne _ later hyields).2

theorem keepsReservation_jumpClass :
  ClassFile.read ClassFile.jumpClass.form = .ok ClassFile.jumpClass
    ∧ ∃ plan, ofClass {} ClassFile.jumpClass = .ok plan ∧ plan.planned ≠ []
      ∧ plan.KeepsReservation 7 ClassFile.jumpClass
  := by
  obtain ⟨plan, hplan, hne⟩ := ClassFile.exists_plan_jumpClass
  exact ⟨ClassFile.read_form_jumpClass, plan, hplan, hne,
    keepsReservation_of_read ClassFile.read_form_jumpClass hplan 7⟩

end ClassPlan

end JvmCoverage
