import JvmCoverage.Machine.Agent
import JvmCoverage.Proofs.Agreement
import JvmCoverage.Proofs.Counters
import JvmCoverage.Proofs.Growth
import JvmCoverage.Proofs.SafeInsertion
import JvmCoverage.Proofs.SafeWriting

/-!
# The agent does not fault

An agent on a machine *represents* one with a store when they have seen the same.  It *follows* a
call of that agent when it answers what that agent answers, represents it afterwards, and does not
fault.  Every stage of instrumenting a class is shown to be the one of the agent with a store, so
that this holds whatever the agent was asked for before and whatever the bytes are
(`tryTransform_ne_fault`).  Numbers of segments are compared for tables whose slots all have
numbers of 32 bits; that there is no fault does not depend on it.
-/

namespace JvmCoverage.Machine

/-! ## Rendering -/

theorem render_eq (policy : Policy) (plan : JvmCoverage.ClassPlan) (c : ClassFile)
    (segment : UInt32) :
  JvmCoverage.Agent.render policy plan c segment.toNat
    = plan.apply segment c >>= fun probed => probed.toBytes >>= fun bytes =>
      if policy.selfCheck then ClassFile.check bytes >>= fun _ => pure bytes else pure bytes
  := by
  rw [JvmCoverage.Agent.render, UInt32.ofNat_toNat]

/-- Rendering a class that is not too long does not fault. -/
theorem render_of {plan : JvmCoverage.ClassPlan} {c : ClassFile} {bridge : Bridge}
    (hplan : plan.IsOf bridge c) (hc : c.WellFormed)
    (hsize : c.form.length + bridge.size < 2 ^ 63) (policy : Policy) (segment : UInt32) :
  Agent.render policy (.of plan) c segment
    = faultless (JvmCoverage.Agent.render policy plan c segment.toNat)
  := by
  rw [Agent.render, apply_eq hplan hc, render_eq]
  cases happly : plan.apply segment c with
  | error e => rfl
  | ok probed =>
    have hlength := JvmCoverage.ClassPlan.length_of_apply hplan hc happly
    have happlied := (JvmCoverage.ClassPlan.apply_spec hplan hc).1 probed happly
    have hmethods := happlied.wellFormed_methods hplan hc
    have hbytes := ClassFile.toBytes_of_methods hmethods
    rw [faultless_bind, faultless_ok, pure_bind, pure_bind, encode_eq hmethods (by omega), hbytes,
      faultless_bind, faultless_ok, pure_bind, pure_bind, selfCheck_eq (by omega)]
    split
    · rw [faultless_bind]
      rfl
    · rfl

/-! ## Counters -/

section Counting

variable {t : SlotTable} {identity : ClassIdentity}

/-- Whether no more slots are filled than there are, and these are counted in 64 bits. -/
structure IsSound (t : SlotTable) : Prop where
  allocated_le : t.allocated ≤ t.capacity
  capacity_lt : t.capacity < 2 ^ 63

theorem fillSlot_eq (h : IsSound t) (hroom : t.allocated < t.capacity) (probes : Nat) :
  (fillSlot identity probes t).run.run t
    = (pure (t.slots[t.allocated]?.join.getD ⟨.ofNat t.allocated, .fresh identity probes⟩),
        { slots := t.slots.setIfInBounds t.allocated
            (t.slots[t.allocated]?.join.getD ⟨.ofNat t.allocated, .fresh identity probes⟩)
          allocated := t.allocated + 1
          index := t.index.insert identity (.ofNat t.allocated) })
  := by
  have hcapacity := h.capacity_lt
  obtain ⟨slot, hslot⟩ : ∃ slot, t.slots[t.allocated]? = some slot :=
    ⟨_, Array.getElem?_eq_getElem hroom⟩
  have hitem : (item t.slots.toList t.allocated : Allocator (Option Slot)) = pure slot :=
    item_eq (by rw [Array.getElem?_toList, hslot])
  have hadd : (add 64 t.allocated 1 : Allocator Nat) = pure (t.allocated + 1) :=
    add_eq (by omega)
  rw [fillSlot, hitem, hadd, hslot]
  rfl

theorem allocate_eq (h : IsSound t) (probes : Nat) :
  (allocate identity probes).run.run t
    = (faultless (t.allocate identity probes).1, (t.allocate identity probes).2)
  := by
  have hcapacity := h.capacity_lt
  have hget : (get : Allocator SlotTable).run.run t = (.ok t, t) := rfl
  rw [allocate, run_bind, hget, SlotTable.allocate]
  dsimp only
  cases t.index[identity]?.bind t.slot? with
  | some slot =>
    by_cases hsame : slot.segment.counts.size = probes
    · simp only [if_pos hsame]
      rfl
    · simp only [if_neg hsame]
      rfl
  | none =>
    by_cases hfull : t.capacity ≤ t.allocated
    · have hadd : (add 64 t.allocated 1 : Allocator Nat) = pure (t.allocated + 1) :=
        add_eq (by have := h.allocated_le; omega)
      simp only [if_pos hfull, hadd]
      rfl
    · simp only [if_neg hfull]
      exact fillSlot_eq h (Nat.lt_of_not_le hfull) probes

theorem IsSound.allocate (h : IsSound t) (identity : ClassIdentity) (probes : Nat) :
  IsSound (t.allocate identity probes).2
    ∧ (t.allocate identity probes).2.capacity = t.capacity
  := by
  rw [SlotTable.allocate]
  split
  · dsimp only
    split <;> exact ⟨h, rfl⟩
  · split
    · exact ⟨h, rfl⟩
    · rename_i hroom
      have hcapacity := h.capacity_lt
      simp only [SlotTable.capacity] at hroom hcapacity
      refine ⟨⟨?_, ?_⟩, ?_⟩ <;> simp only [SlotTable.capacity, Array.size_setIfInBounds]
      · omega
      · exact hcapacity

theorem IsSound.after (h : IsSound t) (call : CounterCall) :
  IsSound (CounterTable.after t call) ∧ (CounterTable.after t call).capacity = t.capacity
  := by
  have hresized : ∀ {slots : Array (Option Slot)}, slots.size = t.slots.size →
      IsSound { t with slots } ∧ ({ t with slots } : SlotTable).capacity = t.capacity :=
    fun hsize => ⟨⟨h.allocated_le.trans hsize.ge, hsize.trans_lt h.capacity_lt⟩, hsize⟩
  cases call with
  | allocate identity probes => exact h.allocate identity probes
  | hit slot probe => exact hresized Array.size_modify
  | resetSegment slot => exact hresized Array.size_modify
  | reset => exact hresized Array.size_mapIdx

/-- A table and the store that it represents give a class the same segment. -/
theorem allocate_of_represents {store : Store} (h : t.Represents store)
    (hbound : store.capacity < 2 ^ 32) (identity : ClassIdentity) (probes : Nat) :
  (∃ e, store.allocate identity probes = .error e ∧ t.allocate identity probes = (.error e, t))
    ∨ ∃ slot later, store.allocate identity probes = .ok (slot.number.toNat, later)
      ∧ (t.allocate identity probes).1 = .ok slot ∧ (t.allocate identity probes).2.Represents later
  := by
  have hsize := h.size_le
  cases hindex : store.indexOf? identity with
  | some k =>
    obtain ⟨counts, hs⟩ := Store.exists_of_indexOf? hindex
    have hk : (UInt32.ofNat k).toNat = k :=
      UInt32.toNat_ofNat_of_lt' (h.lt_of_getElem? hbound.le hs)
    rw [h.allocate_placed hbound.le hindex hs, Store.allocate, hindex]
    simp only [hs, Option.map_some, Option.getD_some]
    by_cases hsame : counts.size = probes
    · rw [if_pos hsame, if_pos hsame]
      exact .inr ⟨⟨.ofNat k, ⟨identity, counts⟩⟩, store, by rw [hk], rfl, h⟩
    · rw [if_neg hsame, if_neg hsame]
      exact .inl ⟨_, rfl, rfl⟩
  | none =>
    rw [Store.allocate, hindex]
    dsimp only
    by_cases hfull : store.capacity ≤ store.size
    · rw [h.allocate_full probes hindex hfull, if_pos hfull]
      exact .inl ⟨_, rfl, rfl⟩
    · obtain ⟨hslot, hlater⟩ := h.allocate_new probes hindex (Nat.lt_of_not_le hfull)
      have hnumber : (UInt32.ofNat store.size).toNat = store.size :=
        UInt32.toNat_ofNat_of_lt' (hsize.trans_lt hbound)
      rw [if_neg hfull]
      exact .inr ⟨_, _, by rw [hnumber]; rfl, hslot, hlater⟩

theorem toNat_nextNumber {store : Store} (h : t.Represents store)
    (hbound : store.capacity < 2 ^ 32) :
  (nextNumber t).toNat = store.size
  := by
  have hlt : t.allocated < 2 ^ 32 := by
    rw [h.allocated_eq]
    exact h.size_le.trans_lt hbound
  rw [nextNumber, if_pos hlt, UInt32.toNat_ofNat_of_lt' hlt, h.allocated_eq]

theorem identityOf_eq (name : String) (bytes : List UInt8) :
  identityOf name bytes = pure (.of name bytes)
  := by
  have hlength : (Sha256.hash bytes).length = 32 := by
    simp [Sha256.hash, Bytes.length_field32]
  rw [identityOf, slice_eq (Nat.zero_le 8) (by omega), pure_bind, List.drop_zero,
    fill_eq (by rw [List.length_take, hlength]; rfl), pure_bind, ClassIdentity.of]

end Counting

/-! ## Emitting -/

section Emitting

variable {plan : JvmCoverage.ClassPlan} {c : ClassFile} {bridge : Bridge} {t : SlotTable}

/-- A class gets probes without a fault, and the same ones whether its counters are in slots or
not. -/
theorem emit_of (hplan : plan.IsOf bridge c) (hc : c.WellFormed)
    (hsize : c.form.length + bridge.size < 2 ^ 63) (ht : IsSound t) (policy : Policy)
    (identity : ClassIdentity) :
  ∃ outcome later, Agent.emit policy (.of plan) c identity t = (faultless outcome, later)
    ∧ IsSound later ∧ later.capacity = t.capacity
    ∧ ∀ store, t.Represents store → store.capacity < 2 ^ 32 →
      (JvmCoverage.Agent.emit policy plan c identity store).1 = outcome
        ∧ later.Represents (JvmCoverage.Agent.emit policy plan c identity store).2
  := by
  have hrender := render_of hplan hc hsize policy
  rw [Agent.emit, hrender]
  cases hbytes : JvmCoverage.Agent.render policy plan c (nextNumber t).toNat with
  | error e =>
    refine ⟨.error e, t, rfl, ht, rfl, ?_⟩
    intro store hstore hbound
    rw [toNat_nextNumber hstore hbound] at hbytes
    rw [JvmCoverage.Agent.emit]
    simp only [hbytes, hstore, and_self]
  | ok bytes =>
    have hallocate : (allocate identity (ClassPlan.of plan).probes.length).run.run t = _ :=
      allocate_eq ht plan.probeCount
    obtain ⟨hsound, hcapacity⟩ := ht.allocate identity plan.probeCount
    have hstores := fun store (hstore : t.Represents store) hbound =>
      allocate_of_represents hstore hbound identity plan.probeCount
    simp only [faultless_ok, pure, Except.pure, hallocate]
    generalize t.allocate identity plan.probeCount = result at hsound hcapacity hstores
    obtain ⟨result, later⟩ := result
    cases result with
    | error e =>
      refine ⟨.error e, later, rfl, hsound, hcapacity, ?_⟩
      intro store hstore hbound
      obtain ⟨e', hfails, hsame⟩ | ⟨slot, store', -, hslot, -⟩ := hstores store hstore hbound
      · obtain ⟨herror, rfl⟩ := Prod.mk.inj hsame
        obtain rfl := Except.error.inj herror
        rw [toNat_nextNumber hstore hbound] at hbytes
        rw [JvmCoverage.Agent.emit]
        simp only [hbytes, hfails, hstore, and_self]
      · cases hslot
    | ok slot =>
      refine ⟨if slot.number = nextNumber t then .ok bytes
        else JvmCoverage.Agent.render policy plan c slot.number.toNat, later, ?_, hsound, hcapacity, ?_⟩
      · rw [apply_ite faultless]
        simp only [faultless_ok, pure, Except.pure, hrender]
        split <;> rfl
      · intro store hstore hbound
        obtain ⟨e, -, hfails⟩ | ⟨slot', store', hgives, hslot, hlater⟩ := hstores store hstore hbound
        · cases (Prod.mk.inj hfails).1
        · obtain rfl := Except.ok.inj hslot
          have hnumber : slot.number.toNat = store.size ↔ slot.number = nextNumber t := by
            rw [← toNat_nextNumber hstore hbound, UInt32.toNat_inj]
          rw [toNat_nextNumber hstore hbound] at hbytes
          rw [JvmCoverage.Agent.emit]
          simp only [hbytes, hgives, hnumber]
          split <;> exact ⟨rfl, hlater⟩

end Emitting

/-! ## Agents -/

namespace Agent

/-- Whether the agents have seen the same, the first with its counters in slots. -/
structure Represents (agent : Agent) (model : JvmCoverage.Agent) : Prop where
  policy_eq : agent.policy = model.policy
  filter_eq : agent.filter = model.filter
  table : agent.table.Represents model.store
  registry_eq : agent.registry = model.registry
  log_eq : agent.log = model.log
  capacity_lt : model.store.capacity < 2 ^ 32

/-- Whether a diagnostic tells the kind of failure when it is about a whole class. -/
def IsExplained (d : Diagnostic) : Prop :=
  d.action = .skipClass → d.kind.isSome

/-- Whether `later` has the policy of `agent`, sound counters, and no more diagnostics than those
that tell the kind of a failure. -/
structure Continues (agent later : Agent) : Prop where
  policy_eq : later.policy = agent.policy
  sound : IsSound later.table
  explained : ∀ d ∈ later.log, d ∈ agent.log ∨ IsExplained d

/-- Whether a call of an agent does not fault, and answers what it does for the agents that it
represents. -/
def Follows {α : Type} (agent : Agent) (call : Agent → Checked InstrumentError α × Agent)
    (call' : JvmCoverage.Agent → Except InstrumentError α × JvmCoverage.Agent) : Prop :=
  ∃ outcome later, call agent = (faultless outcome, later) ∧ agent.Continues later
    ∧ ∀ model, agent.Represents model →
      (call' model).1 = outcome ∧ later.Represents (call' model).2

section Calls

variable {agent : Agent} {model : JvmCoverage.Agent}

theorem Represents.record (h : agent.Represents model) (d : Diagnostic) :
  (agent.record d).Represents (model.record d)
  := { h with log_eq := congrArg (Array.push · d) h.log_eq }

theorem Represents.noteName (h : agent.Represents model) (className : String) (c : ClassFile) :
  (agent.noteName className c).Represents (model.noteName className c)
  := by
  unfold Agent.noteName JvmCoverage.Agent.noteName
  split
  · exact h
  · exact h.record _

theorem Represents.foldl_record (h : agent.Represents model) (ds : List Diagnostic) :
  (ds.foldl (fun agent d => agent.record d) agent).Represents
    (ds.foldl (fun model d => model.record d) model)
  := by
  induction ds generalizing agent model with
  | nil => exact h
  | cons d ds ih => exact ih (h.record d)

theorem Represents.insert (h : agent.Represents model) (r : ClassRecord) :
  { agent with registry := agent.registry.insert r }.Represents
    { model with registry := model.registry.insert r }
  := { h with registry_eq := congrArg (Registry.insert r) h.registry_eq }

theorem Represents.withTable (h : agent.Represents model) {table : SlotTable} {store : Store}
    (htable : table.Represents store) (hcapacity : table.capacity = agent.table.capacity) :
  { agent with table }.Represents { model with store }
  := {
    h with
    table := htable
    capacity_lt := by
      have hbound := h.capacity_lt
      rwa [← h.table.capacity_eq, ← hcapacity, htable.capacity_eq] at hbound }

theorem Continues.refl (hagent : IsSound agent.table) :
  agent.Continues agent
  := ⟨rfl, hagent, fun _ => .inl⟩

theorem Continues.trans {noted later : Agent} (h : agent.Continues noted)
    (h' : noted.Continues later) :
  agent.Continues later
  where
    policy_eq := h'.policy_eq.trans h.policy_eq
    sound := h'.sound
    explained d hd := (h'.explained d hd).elim (h.explained d) .inr

theorem Continues.record {later : Agent} (h : agent.Continues later) {d : Diagnostic}
    (hd : IsExplained d) :
  agent.Continues (later.record d)
  where
    policy_eq := h.policy_eq
    sound := h.sound
    explained d' hd' := (Array.mem_push.mp hd').elim (h.explained d') fun heq => .inr (heq ▸ hd)

theorem Continues.foldl_record {later : Agent} (h : agent.Continues later) {ds : List Diagnostic}
    (hds : ∀ d ∈ ds, IsExplained d) :
  agent.Continues (ds.foldl (fun agent d => agent.record d) later)
  := by
  induction ds generalizing later with
  | nil => exact h
  | cons d ds ih =>
    obtain ⟨hd, hds⟩ := List.forall_mem_cons.mp hds
    exact ih (h.record hd) hds

theorem isExplained_warn (className message : String) :
  IsExplained (.warn className message)
  := nofun

theorem continues_noteName (hagent : IsSound agent.table) (className : String) (c : ClassFile) :
  agent.Continues (agent.noteName className c)
  := by
  unfold noteName
  split
  · exact .refl hagent
  · exact (Continues.refl hagent).record (isExplained_warn _ _)

theorem continues_noteFailures (hagent : IsSound agent.table) (plan : ClassPlan) :
  agent.Continues (agent.noteFailures plan)
  := by
  apply (Continues.refl hagent).foldl_record
  intro d hd
  obtain ⟨m, -, hfailure⟩ := List.mem_filterMap.mp hd
  unfold JvmCoverage.Agent.failure? at hfailure
  split at hfailure
  · obtain rfl := Option.some.inj hfailure
    nofun
  · cases hfailure

variable {plan : JvmCoverage.ClassPlan} {c : ClassFile}

/-- Carrying out a plan of a class that is not too long does not fault. -/
theorem follows_carryOut (hplan : plan.IsOf agent.policy.bridge c) (hc : c.WellFormed)
    (hsize : c.form.length + agent.policy.bridge.size < 2 ^ 63) (hagent : IsSound agent.table)
    (identity : ClassIdentity) :
  agent.Follows (carryOut (.of plan) c identity) (JvmCoverage.Agent.carryOut plan c identity)
  := by
  have hnoted : ∀ model, agent.Represents model →
      (agent.noteFailures (.of plan)).Represents (model.noteFailures plan) :=
    fun _ h => h.foldl_record _
  have hcontinues := continues_noteFailures hagent (.of plan)
  rw [← hcontinues.policy_eq] at hplan hsize
  simp only [Follows, carryOut, JvmCoverage.Agent.carryOut]
  generalize agent.noteFailures (.of plan) = noted at hplan hsize hnoted hcontinues
  by_cases hempty : plan.isEmpty
  · have hprobes : (ClassPlan.of plan).probes.isEmpty := hempty
    simp only [if_pos hempty, if_pos hprobes]
    exact ⟨.ok none, _, rfl, { hcontinues with },
      fun model hmodel => ⟨rfl, (hnoted model hmodel).insert _⟩⟩
  · have hprobes : ¬ (ClassPlan.of plan).probes.isEmpty := hempty
    obtain ⟨outcome, later, hemit, hsound, hcapacity, hstores⟩ :=
      emit_of hplan hc hsize hcontinues.sound noted.policy identity
    simp only [if_neg hempty, if_neg hprobes, hemit]
    have hmodels : ∀ model, agent.Represents model → ∃ store, later.Represents store
        ∧ JvmCoverage.Agent.emit (model.noteFailures plan).policy plan c identity
          (model.noteFailures plan).store = (outcome, store) := by
      intro model hmodel
      have h := hnoted model hmodel
      obtain ⟨hanswer, hlater⟩ := hstores _ h.table h.capacity_lt
      rw [← h.policy_eq]
      exact ⟨_, hlater, Prod.ext hanswer rfl⟩
    cases outcome with
    | error e =>
      refine ⟨.error e, _, rfl, { hcontinues with sound := hsound }, ?_⟩
      intro model hmodel
      obtain ⟨store, hlater, hemit'⟩ := hmodels model hmodel
      rw [hemit']
      exact ⟨rfl, (hnoted model hmodel).withTable hlater hcapacity⟩
    | ok bytes =>
      refine ⟨.ok (some bytes), _, rfl, { hcontinues with sound := hsound }, ?_⟩
      intro model hmodel
      obtain ⟨store, hlater, hemit'⟩ := hmodels model hmodel
      rw [hemit']
      exact ⟨rfl, ((hnoted model hmodel).withTable hlater hcapacity).insert _⟩

theorem prepare_eq (hc : c.WellFormed) (policy : Policy) (bytes : List UInt8) :
  prepare policy c bytes
    = faultless ((JvmCoverage.ClassPlan.ofClass policy c).map fun plan =>
        (.of c.name bytes, .of plan))
  := by
  rw [prepare, identityOf_eq, pure_bind, planClass_eq hc]
  cases JvmCoverage.ClassPlan.ofClass policy c <;> rfl

/-- Instrumenting a class that was read does not fault. -/
theorem follows_instrument (hc : c.WellFormed)
    (hsize : c.form.length + agent.policy.bridge.size < 2 ^ 63) (hagent : IsSound agent.table)
    (className : String) (bytes : List UInt8) :
  agent.Follows (instrument className c bytes) (JvmCoverage.Agent.instrument className c bytes)
  := by
  have hcontinues := continues_noteName hagent className c
  have hnoted : ∀ model, agent.Represents model →
      (agent.noteName className c).Represents (model.noteName className c) :=
    fun _ h => h.noteName className c
  rw [← hcontinues.policy_eq] at hsize
  simp only [Follows, instrument, JvmCoverage.Agent.instrument]
  generalize agent.noteName className c = noted at hsize hnoted hcontinues
  by_cases hcalls : JvmCoverage.Agent.callsBridge noted.policy.bridge c
  · rw [if_pos hcalls]
    refine ⟨.ok none, _, rfl, hcontinues.record (isExplained_warn _ _), ?_⟩
    intro model hmodel
    have h := hnoted model hmodel
    rw [← h.policy_eq, if_pos hcalls]
    exact ⟨rfl, h.record _⟩
  · rw [if_neg hcalls, prepare_eq hc]
    cases hplan : JvmCoverage.ClassPlan.ofClass noted.policy c with
    | error e =>
      refine ⟨.error e, noted, rfl, hcontinues, ?_⟩
      intro model hmodel
      have h := hnoted model hmodel
      rw [← h.policy_eq, if_neg hcalls, hplan]
      exact ⟨rfl, h⟩
    | ok plan =>
      obtain ⟨outcome, later, hcarried, hcontinues', hmodels⟩ :=
        follows_carryOut (JvmCoverage.ClassPlan.isOf_of_ofClass hplan hc) hc hsize
          hcontinues.sound (.of c.name bytes)
      refine ⟨outcome, later, hcarried, hcontinues.trans hcontinues', ?_⟩
      intro model hmodel
      have h := hnoted model hmodel
      rw [← h.policy_eq, if_neg hcalls, hplan]
      exact hmodels _ h

/-- Instrumenting any bytes does not fault. -/
theorem follows_tryTransform (hagent : IsSound agent.table) (className : String)
    {bytes : List UInt8} (hsize : bytes.length + agent.policy.bridge.size < 2 ^ 63) :
  agent.Follows (tryTransform className bytes) (JvmCoverage.Agent.tryTransform className bytes)
  := by
  simp only [Follows, tryTransform, JvmCoverage.Agent.tryTransform,
    read_eq (show bytes.length < 2 ^ 64 by omega), mapError_faultless]
  cases hread : ClassFile.read bytes with
  | error e => exact ⟨.error (.decode e), agent, rfl, .refl hagent, fun _ hmodel => ⟨rfl, hmodel⟩⟩
  | ok c =>
    obtain ⟨hc, hle⟩ := ClassFile.wellFormed_of_read hread
    exact follows_instrument hc (by omega) hagent className bytes

/-- Whatever the bytes are, the answer is that of the agents that this one represents. -/
theorem transform_of (hagent : IsSound agent.table) (className : String)
    {bytes : List UInt8} (hsize : bytes.length + agent.policy.bridge.size < 2 ^ 63) :
  agent.Continues (agent.transform className bytes).2
    ∧ ∀ model, agent.Represents model →
      (model.transform className bytes).1 = (agent.transform className bytes).1
        ∧ (agent.transform className bytes).2.Represents (model.transform className bytes).2
  := by
  obtain ⟨outcome, later, hanswer, hcontinues, hmodels⟩ :=
    follows_tryTransform hagent className hsize
  have hcalls : ∀ model, agent.Represents model → ∃ model', later.Represents model'
      ∧ model.tryTransform className bytes = (outcome, model') := fun model hmodel =>
    have h := hmodels model hmodel
    ⟨_, h.2, Prod.ext h.1 rfl⟩
  simp only [transform, JvmCoverage.Agent.transform, hanswer]
  by_cases haccepts : agent.filter.accepts className
  · rw [if_pos haccepts]
    cases outcome with
    | error e =>
      refine ⟨hcontinues.record fun _ => rfl, ?_⟩
      intro model hmodel
      obtain ⟨model', hlater, hanswer'⟩ := hcalls model hmodel
      rw [← hmodel.filter_eq, if_pos haccepts, hanswer']
      exact ⟨rfl, hlater.record _⟩
    | ok out =>
      refine ⟨hcontinues, ?_⟩
      intro model hmodel
      obtain ⟨model', hlater, hanswer'⟩ := hcalls model hmodel
      rw [← hmodel.filter_eq, if_pos haccepts, hanswer']
      exact ⟨rfl, hlater⟩
  · rw [if_neg haccepts]
    refine ⟨.refl hagent, ?_⟩
    intro model hmodel
    rw [← hmodel.filter_eq, if_neg haccepts]
    exact ⟨rfl, hmodel⟩

end Calls

/-! ## Runs -/

/-- What is asked of an agent, or of the counters that it shares. -/
inductive Request where
  | transform (className : String) (bytes : List UInt8)
  | tryTransform (className : String) (bytes : List UInt8)
  | count (call : CounterCall)
  | reset

/-- Whether the bytes of a request and the texts of the bridge are in memory together. -/
def Request.Fits (bridge : Bridge) : Request → Prop
  | .transform _ bytes => bytes.length + bridge.size < 2 ^ 63
  | .tryTransform _ bytes => bytes.length + bridge.size < 2 ^ 63
  | .count _ => True
  | .reset => True

/-- What a request leaves behind of an agent with a store. -/
def Request.change (model : JvmCoverage.Agent) : Request → JvmCoverage.Agent
  | .transform className bytes => (model.transform className bytes).2
  | .tryTransform className bytes => (model.tryTransform className bytes).2
  | .count call => { model with store := CounterTable.after model.store call }
  | .reset => model.reset

/-- The agent after a request. -/
def after (agent : Agent) : Request → Agent
  | .transform className bytes => (agent.transform className bytes).2
  | .tryTransform className bytes => (agent.tryTransform className bytes).2
  | .count call => { agent with table := CounterTable.after agent.table call }
  | .reset => { agent with table := agent.table.reset, log := #[] }

/-- The agent after several requests. -/
def run (agent : Agent) (requests : List Request) : Agent := requests.foldl after agent

/-- An agent with counters of its own that was asked for nothing yet. -/
def fresh (policy : Policy) (filter : ClassFilter) (capacity : Nat) : Agent :=
  { policy, filter, table := .withCapacity capacity }

section Runs

variable {agent : Agent}

/-- A request is served soundly, and like by the agents that this one represents. -/
theorem after_of (hagent : IsSound agent.table) {request : Request}
    (hfits : request.Fits agent.policy.bridge) :
  agent.Continues (agent.after request)
    ∧ ∀ model, agent.Represents model → (agent.after request).Represents (request.change model)
  := by
  cases request with
  | transform className bytes =>
    obtain ⟨hcontinues, hmodels⟩ := transform_of hagent className hfits
    exact ⟨hcontinues, fun model hmodel => (hmodels model hmodel).2⟩
  | tryTransform className bytes =>
    obtain ⟨outcome, later, hanswer, hcontinues, hmodels⟩ :=
      follows_tryTransform hagent className hfits
    rw [after, hanswer]
    exact ⟨hcontinues, fun model hmodel => (hmodels model hmodel).2⟩
  | count call =>
    obtain ⟨hsound, hcapacity⟩ := hagent.after call
    refine ⟨⟨rfl, hsound, fun _ => .inl⟩, ?_⟩
    intro model hmodel
    exact hmodel.withTable (hmodel.table.after hmodel.capacity_lt.le call) hcapacity
  | reset =>
    obtain ⟨hsound, hcapacity⟩ := hagent.after .reset
    refine ⟨⟨rfl, hsound, nofun⟩, ?_⟩
    intro model hmodel
    exact { hmodel.withTable hmodel.table.reset hcapacity with log_eq := rfl }

/-- The same for several requests. -/
theorem run_of (hagent : IsSound agent.table) {requests : List Request}
    (hfits : ∀ request ∈ requests, request.Fits agent.policy.bridge) :
  agent.Continues (agent.run requests)
    ∧ ∀ model, agent.Represents model →
      (agent.run requests).Represents (requests.foldl Request.change model)
  := by
  induction requests generalizing agent with
  | nil => exact ⟨.refl hagent, fun model hmodel => hmodel⟩
  | cons request requests ih =>
    obtain ⟨hrequest, hrequests⟩ := List.forall_mem_cons.mp hfits
    obtain ⟨hcontinues, hmodels⟩ := after_of hagent hrequest
    obtain ⟨hcontinues', hmodels'⟩ := ih hcontinues.sound (by rwa [hcontinues.policy_eq])
    exact ⟨hcontinues.trans hcontinues', fun model hmodel => hmodels' _ (hmodels model hmodel)⟩

theorem isSound_withCapacity {capacity : Nat} (h : capacity < 2 ^ 63) :
  IsSound (.withCapacity capacity)
  where
    allocated_le := Nat.zero_le _
    capacity_lt := by
      rwa [(SlotTable.represents_withCapacity capacity).capacity_eq]

theorem represents_fresh (policy : Policy) (filter : ClassFilter) {capacity : Nat}
    (h : capacity < 2 ^ 32) :
  (fresh policy filter capacity).Represents (JvmCoverage.Agent.fresh policy filter capacity)
  where
    policy_eq := rfl
    filter_eq := rfl
    table := SlotTable.represents_withCapacity capacity
    registry_eq := rfl
    log_eq := rfl
    capacity_lt := h

/-- No bytes make an agent fault, whatever it was asked for before: it answers, and so does the
agent with a store, with the same bytes and diagnostics.  A class is never skipped for a failure
of no kind, which is how a fault would be recorded.  The offsets of frames come as close to the
end of their 32 bits as `2 ^ 16`, and no closer. -/
theorem tryTransform_ne_fault (policy : Policy) (filter : ClassFilter) {capacity : Nat}
    (hcapacity : capacity < 2 ^ 63) {requests : List Request}
    (hrequests : ∀ request ∈ requests, request.Fits policy.bridge) (className : String)
    {bytes : List UInt8} (hbytes : bytes.length + policy.bridge.size < 2 ^ 63) :
  (∀ fault, (((fresh policy filter capacity).run requests).tryTransform className bytes).1
      ≠ .error (.fault fault))
    ∧ (∀ d ∈ (((fresh policy filter capacity).run requests).transform className bytes).2.log,
      IsExplained d)
    ∧ (capacity < 2 ^ 32 → ∃ model,
      model = requests.foldl Request.change (.fresh policy filter capacity)
        ∧ (((fresh policy filter capacity).run requests).tryTransform className bytes).1
          = faultless (model.tryTransform className bytes).1
        ∧ (((fresh policy filter capacity).run requests).transform className bytes).1
          = (model.transform className bytes).1
        ∧ (((fresh policy filter capacity).run requests).transform className bytes).2.Represents
          (model.transform className bytes).2)
    ∧ (∀ payload : List UInt8, payload.length < 2 ^ 64 →
      (∀ fault, readFrameTable payload ≠ .error (.fault fault))
        ∧ ∀ frames, readFrameTable payload = .ok frames →
          ∀ frame ∈ frames, frame.offset + 2 ^ 16 ≤ 2 ^ 32 - 1)
    ∧ ∃ payload frames, readFrameTable payload = .ok frames ∧ frames.length = 65535
      ∧ ∃ frame ∈ frames, frame.offset + 2 ^ 16 = 2 ^ 32 - 1
  := by
  have hfresh : IsSound (fresh policy filter capacity).table := isSound_withCapacity hcapacity
  obtain ⟨hcontinues, hmodels⟩ := run_of hfresh hrequests
  generalize (fresh policy filter capacity).run requests = agent at hcontinues hmodels
  have hbytes' : bytes.length + agent.policy.bridge.size < 2 ^ 63 := by
    rwa [hcontinues.policy_eq]
  obtain ⟨outcome, later, hanswer, -, hanswers⟩ :=
    follows_tryTransform hcontinues.sound className hbytes'
  obtain ⟨hcontinues', hmodels'⟩ := transform_of hcontinues.sound className hbytes'
  refine ⟨?_, ?_, ?_, ?_, ?_⟩
  · rw [hanswer]
    exact faultless_ne_fault outcome
  · exact fun d hd => ((hcontinues.trans hcontinues').explained d hd).elim nofun id
  · intro hroom
    have hmodel := hmodels _ (represents_fresh policy filter hroom)
    obtain ⟨houtcome, -⟩ := hanswers _ hmodel
    obtain ⟨hout, hlater⟩ := hmodels' _ hmodel
    refine ⟨_, rfl, ?_, hout.symm, hlater⟩
    rw [hanswer, houtcome]
  · intro payload hlength
    refine ⟨?_, fun frames hread frame => offset_le_of_readFrameTable hlength hread⟩
    rw [readFrameTable_eq hlength]
    exact faultless_ne_fault _
  · obtain ⟨hread, hlast⟩ := readFrameTable_farFrames
    exact ⟨_, _, hread, length_farFrames 65535, hlast⟩

/-- An agent that has instrumented a class instruments it again. -/
theorem tryTransform_ne_fault_jumpClass :
  (ClassFile.jumpClass.form.length + ({} : Policy).bridge.size < 2 ^ 63)
    ∧ ∀ fault, (((fresh {} .all 1).run [.transform "A" ClassFile.jumpClass.form]).tryTransform "A"
      ClassFile.jumpClass.form).1 ≠ .error (.fault fault)
  := by
  have hsize : ClassFile.jumpClass.form.length + ({} : Policy).bridge.size < 2 ^ 63 := by
    decide +kernel
  refine ⟨hsize, (tryTransform_ne_fault {} .all (by decide) ?_ "A" hsize).1⟩
  intro request hrequest
  obtain rfl := List.mem_singleton.mp hrequest
  exact hsize

end Runs

end Agent

end JvmCoverage.Machine
