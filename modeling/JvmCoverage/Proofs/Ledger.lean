import JvmCoverage.Proofs.Bookkeeping
import JvmCoverage.Proofs.Stability
import JvmCoverage.Proofs.Totals

/-!
# The ledger of an agent

An agent keeps counters and records, and writes to them at different moments of an attempt.  What
comes of an attempt is still told by the class alone: it has a record, or it has none
(`Agent.recordOf?`), and the record is entered with its counters or not at all
(`Agent.ledger_after`).  So counters and records agree after every call (`Ledger.Sound.run`).
-/

namespace JvmCoverage

/-- The counters and records of an agent. -/
structure Ledger where
  store : Store
  registry : Registry

namespace Ledger

/-- The ledger after a class with the given record.  A class with probes is entered only when it
gets counters. -/
def enter (r : ClassRecord) (ledger : Ledger) : Ledger :=
  if r.probeCount = 0 then { ledger with registry := ledger.registry.insert r }
  else
    match ledger.store.allocate r.identity r.probeCount with
    | .error _ => ledger
    | .ok (_, store) => ⟨store, ledger.registry.insert r⟩

/-- The report on the classes in the ledger. -/
def report (ledger : Ledger) : CoverageReport :=
  .aggregate ledger.registry.records ledger.store.segments.toList

end Ledger

/-! ## Attempts -/

namespace Agent

/-- The record of a class that has nothing to instrument or can be rendered. -/
def recordOf? (policy : Policy) (bytes : List UInt8) : Option ClassRecord :=
  match ClassFile.read bytes with
  | .error _ => none
  | .ok c =>
    if callsBridge policy.bridge c then none
    else
      match ClassPlan.ofClass policy c with
      | .error _ => none
      | .ok plan =>
        if plan.isEmpty || (render policy plan c 0).toOption.isSome then
          some (plan.toRecord (.of c.name bytes))
        else none

variable {policy : Policy} {bytes : List UInt8} {r : ClassRecord} {agent agent' : Agent}

theorem recordOf?_eq_some :
  recordOf? policy bytes = some r
    ↔ ∃ c plan, ClassFile.read bytes = .ok c ∧ callsBridge policy.bridge c = false
      ∧ ClassPlan.ofClass policy c = .ok plan
      ∧ (plan.isEmpty ∨ ∃ out, render policy plan c 0 = .ok out)
      ∧ plan.toRecord (.of c.name bytes) = r
  := by
  have hrendered : ∀ x : Except InstrumentError (List UInt8),
      x.toOption.isSome ↔ ∃ out, x = .ok out := by
    intro x
    cases x <;> simp [Except.toOption]
  rw [recordOf?]
  cases ClassFile.read bytes with
  | error e => simp
  | ok c =>
    cases hcalls : callsBridge policy.bridge c with
    | true => simp [hcalls]
    | false =>
      cases hplan : ClassPlan.ofClass policy c with
      | error e => simp [hcalls, hplan]
      | ok plan =>
        simp only [hcalls, hplan, Bool.false_eq_true, if_false, Option.ite_none_right_eq_some,
          Bool.or_eq_true, hrendered, Option.some.injEq]
        constructor
        · rintro ⟨hcan, heq⟩
          exact ⟨c, plan, rfl, hcalls, hplan, hcan, heq⟩
        · rintro ⟨_, _, hread, -, hplan', hcan, heq⟩
          obtain rfl := Except.ok.inj hread
          obtain rfl := Except.ok.inj (hplan.symm.trans hplan')
          exact ⟨hcan, heq⟩

/-- A class without probes is entered at once. -/
theorem exists_tryTransform_of_isEmpty {c : ClassFile} {plan : ClassPlan}
    (hread : ClassFile.read bytes = .ok c) (hcalls : callsBridge agent.policy.bridge c = false)
    (hplan : ClassPlan.ofClass agent.policy c = .ok plan) (hempty : plan.isEmpty)
    (className : String) :
  (agent.tryTransform className bytes).1 = .ok none
  := by
  obtain ⟨log, hlog⟩ := exists_noteName className c agent
  obtain ⟨log', hlog'⟩ := exists_noteFailures plan { agent with log }
  simp only [tryTransform, hread, instrument, hlog, hcalls, hplan, carryOut, hlog', hempty]
  rfl

/-- The counters and records of the agent. -/
def ledger (agent : Agent) : Ledger := ⟨agent.store, agent.registry⟩

/-- A plan without probes makes a record without probes. -/
theorem probeCount_eq_zero_iff {plan : ClassPlan} {identity : ClassIdentity} :
  (plan.toRecord identity).probeCount = 0 ↔ plan.isEmpty
  := by
  rw [ClassPlan.isEmpty, List.isEmpty_iff_length_eq_zero]
  rfl

theorem probeCount_pos {plan : ClassPlan} (h : plan.isEmpty = false) (identity : ClassIdentity) :
  0 < (plan.toRecord identity).probeCount
  := by
  apply Nat.pos_of_ne_zero
  rw [ne_eq, probeCount_eq_zero_iff, h]
  decide

/-- A class that could have a record fails only for want of counters. -/
theorem enter_of_error (hbridge : ClassPlan.BridgeFits agent.policy.bridge) {className : String}
    {e : InstrumentError} (h : (agent.tryTransform className bytes).1 = .error e)
    (hr : recordOf? agent.policy bytes = some r) :
  agent.ledger.enter r = agent.ledger
  := by
  obtain ⟨c, plan, hread, hcalls, hplan, hcan, rfl⟩ := recordOf?_eq_some.mp hr
  rw [Ledger.enter]
  split
  · rename_i hzero
    rw [exists_tryTransform_of_isEmpty hread hcalls hplan (probeCount_eq_zero_iff.mp hzero)] at h
    cases h
  · rename_i hne
    rw [probeCount_eq_zero_iff] at hne
    split
    · rfl
    · rename_i segment store hallocate
      obtain ⟨out, hout⟩ := hcan.resolve_left hne
      obtain ⟨out', hout'⟩ := exists_render hread hplan hbridge hout segment
      obtain ⟨log, hdone⟩ := exists_tryTransform_of_render hbridge hread hcalls hplan
        (Bool.eq_false_iff.mpr hne) hallocate hout' className
      rw [hdone] at h
      cases h

/-- An attempt enters the record of its class. -/
theorem ledger_tryTransform (hbridge : ClassPlan.BridgeFits agent.policy.bridge)
    (className : String) (bytes : List UInt8) :
  (agent.tryTransform className bytes).2.ledger
      = (recordOf? agent.policy bytes).elim agent.ledger agent.ledger.enter
    ∧ (agent.tryTransform className bytes).2.policy = agent.policy
    ∧ (agent.tryTransform className bytes).2.filter = agent.filter
  := by
  have hattempt := attempt_tryTransform hbridge className bytes
  generalize hdone : agent.tryTransform className bytes = done at hattempt ⊢
  obtain ⟨result, agent'⟩ := done
  cases hattempt with
  | failed e log =>
    refine ⟨?_, rfl, rfl⟩
    cases hr : recordOf? agent.policy bytes with
    | none => rfl
    | some r => exact (enter_of_error hbridge (congrArg Prod.fst hdone) hr).symm
  | callsBridge log hread hcalls =>
    refine ⟨?_, rfl, rfl⟩
    rw [recordOf?, hread]
    simp only [hcalls]
    rfl
  | withoutProbes log hread hcalls hplan hempty =>
    refine ⟨?_, rfl, rfl⟩
    rw [recordOf?_eq_some.mpr ⟨_, _, hread, hcalls, hplan, .inl hempty, rfl⟩, Option.elim_some,
      Ledger.enter, if_pos (probeCount_eq_zero_iff.mpr hempty)]
    rfl
  | @probed c plan segment store out log hread hcalls hplan hempty hallocate hrender =>
    refine ⟨?_, rfl, rfl⟩
    have hout := exists_render hread hplan hbridge hrender 0
    rw [recordOf?_eq_some.mpr ⟨_, _, hread, hcalls, hplan, .inr hout, rfl⟩, Option.elim_some,
      Ledger.enter, if_neg (probeCount_pos hempty _).ne']
    change _ = match agent.store.allocate (.of c.name bytes) plan.probeCount with
      | .error _ => _
      | .ok (_, store) => _
    rw [hallocate]
    rfl

/-! ## Calls -/

/-- The bytes of the class that a call hands over. -/
def Call.bytes? : Call → Option (List UInt8)
  | .transform _ bytes | .tryTransform _ bytes => some bytes
  | _ => none

/-- The bytes of the class that a call hands over, if the filter lets it pass. -/
def Call.accepted? (filter : ClassFilter) : Call → Option (List UInt8)
  | .transform className bytes => if filter.accepts className then some bytes else none
  | .tryTransform _ bytes => some bytes
  | _ => none

/-- The record of the class that a call hands over. -/
def Call.record? (policy : Policy) (filter : ClassFilter) (call : Call) : Option ClassRecord :=
  (call.accepted? filter).bind (recordOf? policy)

end Agent

/-- The ledger after a call. -/
def Ledger.after (policy : Policy) (filter : ClassFilter) (ledger : Ledger) (call : Agent.Call) :
    Ledger :=
  match call with
  | .transform _ _ | .tryTransform _ _ =>
    (call.record? policy filter).elim ledger ledger.enter
  | .hit segment probe => { ledger with store := ledger.store.hit segment probe }
  | .resetSegment segment => { ledger with store := ledger.store.resetSegment segment }
  | .reset => { ledger with store := ledger.store.reset }
  | .snapshot | .drain => ledger

namespace Agent

variable {agent : Agent}

/-- A call changes the ledger by the record of its class or by a count. -/
theorem ledger_after (hbridge : ClassPlan.BridgeFits agent.policy.bridge) (call : Call) :
  (agent.after call).ledger = agent.ledger.after agent.policy agent.filter call
    ∧ (agent.after call).policy = agent.policy ∧ (agent.after call).filter = agent.filter
  := by
  cases call with
  | transform className bytes =>
    have htry := ledger_tryTransform hbridge className bytes
    rw [Agent.after, transform, Ledger.after, Call.record?, Call.accepted?]
    by_cases haccepts : agent.filter.accepts className
    · rw [if_pos haccepts, if_pos haccepts, Option.bind_some]
      -- a failure is recorded, which only makes the log longer
      split
      · rename_i heq
        rw [heq] at htry
        apply htry
      · rename_i heq
        rw [heq] at htry
        apply htry
    · rw [if_neg haccepts, if_neg haccepts]
      exact ⟨rfl, rfl, rfl⟩
  | tryTransform className bytes => apply ledger_tryTransform hbridge className bytes
  | hit segment probe => exact ⟨rfl, rfl, rfl⟩
  | snapshot => exact ⟨rfl, rfl, rfl⟩
  | drain => exact ⟨rfl, rfl, rfl⟩
  | resetSegment segment => exact ⟨rfl, rfl, rfl⟩
  | reset => exact ⟨rfl, rfl, rfl⟩

/-- Calls change the ledger one after the other. -/
theorem ledger_run (hbridge : ClassPlan.BridgeFits agent.policy.bridge) (calls : List Call) :
  (agent.run calls).ledger = calls.foldl (Ledger.after agent.policy agent.filter) agent.ledger
  := by
  induction calls generalizing agent with
  | nil => rfl
  | cons call calls ih =>
    obtain ⟨hledger, hpolicy, hfilter⟩ := ledger_after hbridge call
    rw [← hpolicy] at hbridge
    have hrest := ih hbridge
    rw [hpolicy, hfilter, hledger] at hrest
    apply hrest

end Agent

/-! ## What a ledger keeps -/

/-- Looking up a class after a record has come. -/
theorem Registry.get?_insert (registry : Registry) (r : ClassRecord) (identity : ClassIdentity) :
  (registry.insert r).get? identity
    = if identity = r.identity then some ((registry.get? identity).getD r)
      else registry.get? identity
  := by
  rw [insert, Ordered.insertNew]
  split
  · rename_i hsome
    obtain ⟨old, hold⟩ := Option.isSome_iff_exists.mp hsome
    split
    · rename_i heq
      rw [get?, heq, hold]
      rfl
    · rfl
  · rename_i hnone
    rw [Bool.not_eq_true, Option.isSome_eq_false_iff, Option.isNone_iff_eq_none] at hnone
    split
    · rename_i heq
      rw [get?, get?, heq, Ordered.lookup_insert_self, hnone]
      rfl
    · rename_i hne
      rw [get?, get?, Ordered.lookup_insert_other _ _ _ hne]

namespace Ledger

variable {known : ClassRecord → Prop} {ledger : Ledger} {r : ClassRecord}

/-- Whether the ledger has counters for the classes that have records with probes, as many as there
are probes, and for no other class. -/
structure Sound (known : ClassRecord → Prop) (ledger : Ledger) : Prop where
  ascending : Ordered.Ascending ClassIdentity.precedes ledger.registry.entries
  known : ∀ identity r, ledger.registry.get? identity = some r → r.identity = identity ∧ known r
  distinct : (ledger.store.outlines.toList.map Prod.fst).Nodup
  outlined : ∀ identity probes, (identity, probes) ∈ ledger.store.outlines
    ↔ 0 < probes ∧ ∃ r, ledger.registry.get? identity = some r ∧ r.probeCount = probes

/-- Whether an identity tells the record. -/
def Coherent (known : ClassRecord → Prop) : Prop :=
  ∀ r r', known r → known r' → r.identity = r'.identity → r = r'

theorem sound_empty (known : ClassRecord → Prop) (capacity : Nat) :
  Sound known ⟨{ capacity }, {}⟩
  where
    ascending := .nil
    known := by
      intro identity r h
      cases h
    distinct := by simp [Store.outlines]
    outlined := by simp [Store.outlines, Registry.get?, Ordered.lookup]

/-- Counting keeps a ledger sound. -/
theorem Sound.of_outlines (h : ledger.Sound known) {store : Store}
    (heq : store.outlines = ledger.store.outlines) :
  Sound known ⟨store, ledger.registry⟩
  where
    ascending := h.ascending
    known := h.known
    distinct := by
      rw [heq]
      apply h.distinct
    outlined := by
      rw [heq]
      apply h.outlined

section Entering

variable (h : ledger.Sound known) (hcoherent : Coherent known) (hr : known r)

include h hcoherent hr

/-- The record of a class is the one that comes again. -/
theorem Sound.get?_insert (identity : ClassIdentity) :
  (ledger.registry.insert r).get? identity
    = if identity = r.identity then some r else ledger.registry.get? identity
  := by
  rw [Registry.get?_insert]
  split
  · rename_i heq
    cases hget : ledger.registry.get? identity with
    | none => rfl
    | some old =>
      obtain ⟨hold, hknown⟩ := h.known identity old hget
      rw [hcoherent old r hknown hr (hold.trans heq), Option.getD_some]
  · rfl

/-- A record keeps the ledger sound when the store has the counters for it. -/
theorem Sound.insert {store : Store} (hdistinct : (store.outlines.toList.map Prod.fst).Nodup)
    (hsame : ∀ identity probes, identity ≠ r.identity →
      ((identity, probes) ∈ store.outlines ↔ (identity, probes) ∈ ledger.store.outlines))
    (hself : ∀ probes, (r.identity, probes) ∈ store.outlines ↔ 0 < probes ∧ r.probeCount = probes) :
  Sound known ⟨store, ledger.registry.insert r⟩
  where
    ascending := by
      dsimp only
      rw [Registry.insert, Ordered.insertNew]
      split
      · apply h.ascending
      · apply h.ascending.insert ClassIdentity.isOrder_precedes
    known := by
      intro identity r' hget
      rw [h.get?_insert hcoherent hr] at hget
      split at hget
      · rename_i heq
        obtain rfl := Option.some.inj hget
        exact ⟨heq.symm, hr⟩
      · apply h.known identity r' hget
    distinct := hdistinct
    outlined := by
      intro identity probes
      rw [h.get?_insert hcoherent hr]
      split
      · rename_i heq
        rw [heq, hself]
        simp
      · rename_i hne
        rw [hsame identity probes hne, h.outlined]

/-- A class without probes has no counters. -/
theorem Sound.not_mem_outlines (hzero : r.probeCount = 0) (probes : Nat) :
  (r.identity, probes) ∉ ledger.store.outlines
  := by
  rw [h.outlined]
  rintro ⟨hpos, old, hget, rfl⟩
  obtain ⟨hold, hknown⟩ := h.known _ old hget
  rw [hcoherent old r hknown hr hold, hzero] at hpos
  cases hpos

/-- A class that comes keeps the ledger sound. -/
theorem Sound.enter :
  (ledger.enter r).Sound known
  := by
  rw [Ledger.enter]
  split
  · rename_i hzero
    apply h.insert hcoherent hr h.distinct fun _ _ _ => Iff.rfl
    intro probes
    rw [hzero]
    constructor
    · exact fun hmem => absurd hmem (h.not_mem_outlines hcoherent hr hzero probes)
    · rintro ⟨hpos, rfl⟩
      cases hpos
  · rename_i hne
    split
    · apply h
    · rename_i segment store hallocate
      rcases Store.allocate_eq_ok.mp hallocate with ⟨hholds, rfl⟩ | ⟨hnone, -, -, rfl⟩
      · -- the counters were there, and so was the record
        have hmem := Array.mem_of_getElem? (Store.holds_iff.mp hholds).2
        obtain ⟨-, old, hget, -⟩ := (h.outlined _ _).mp hmem
        obtain ⟨hold, hknown⟩ := h.known _ old hget
        obtain rfl := hcoherent old r hknown hr hold
        apply h.insert hcoherent hr h.distinct fun _ _ _ => Iff.rfl
        intro probes
        rw [h.outlined, hget]
        simp
      · have hnew : ∀ probes, (r.identity, probes) ∉ ledger.store.outlines := by
          intro probes hmem
          obtain ⟨s, hs, heq⟩ := Array.mem_map.mp hmem
          have hother := Array.findIdx?_eq_none_iff.mp hnone s hs
          rw [(Prod.mk.inj heq).1] at hother
          simp at hother
        apply h.insert hcoherent hr
        · rw [Store.outlines_added, Array.toList_push, List.map_append, List.nodup_append]
          refine ⟨h.distinct, List.nodup_singleton _, ?_⟩
          rintro identity hidentity _ hself rfl
          obtain rfl := List.mem_singleton.mp hself
          obtain ⟨⟨_, probes⟩, hmem, rfl⟩ := List.mem_map.mp hidentity
          apply hnew probes (Array.mem_toList_iff.mp hmem)
        · intro identity probes hne
          rw [Store.outlines_added, Array.mem_push]
          simp [hne]
        · intro probes
          rw [Store.outlines_added, Array.mem_push]
          simp only [hnew, false_or, Prod.mk.injEq, true_and]
          constructor
          · rintro rfl
            exact ⟨Nat.pos_of_ne_zero hne, rfl⟩
          · exact fun h => h.2.symm

end Entering

section Calls

variable {policy : Policy} {filter : ClassFilter}

/-- A call keeps the ledger sound. -/
theorem Sound.after (h : ledger.Sound known) (hcoherent : Coherent known) {call : Agent.Call}
    (hcall : ∀ r, call.record? policy filter = some r → known r) :
  (ledger.after policy filter call).Sound known
  := by
  have hentered :
      ((call.record? policy filter).elim ledger ledger.enter).Sound known := by
    cases hr : call.record? policy filter with
    | none => apply h
    | some r => apply h.enter hcoherent (hcall r hr)
  cases call with
  | transform className bytes => apply hentered
  | tryTransform className bytes => apply hentered
  | hit segment probe => apply h.of_outlines (Store.outlines_hit _ _ _)
  | snapshot => apply h
  | drain => apply h
  | resetSegment segment => apply h.of_outlines (Store.outlines_resetSegment _ _)
  | reset => apply h.of_outlines (Store.outlines_reset _)

/-- Calls keep the ledger sound. -/
theorem Sound.run (h : ledger.Sound known) (hcoherent : Coherent known)
    {calls : List Agent.Call}
    (hcalls : ∀ call ∈ calls, ∀ r, call.record? policy filter = some r → known r) :
  (calls.foldl (Ledger.after policy filter) ledger).Sound known
  := by
  induction calls generalizing ledger with
  | nil => apply h
  | cons call calls ih =>
    obtain ⟨hcall, hcalls⟩ := List.forall_mem_cons.mp hcalls
    apply ih (h.after hcoherent hcall) hcalls

end Calls

end Ledger

end JvmCoverage
