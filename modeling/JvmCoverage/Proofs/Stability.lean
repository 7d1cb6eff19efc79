import JvmCoverage.Proofs.Interning
import JvmCoverage.Proofs.Transform

/-!
# Instrumenting a class again

Segments are never given up and records are never replaced, whatever an agent is asked for.  A class
that got its probes once therefore gets the same probes whenever it is seen again, and the class
with probes is left as it is (`Agent.answers_run`).
-/

namespace JvmCoverage

open Text.Utf8 (encode)

/-! ## What counters and records keep -/

namespace Store

variable {store later : Store} {identity other : ClassIdentity} {segment probes : Nat}

/-- The classes of the segments with their numbers of counters. -/
def outlines (store : Store) : Array (ClassIdentity × Nat) :=
  store.segments.map fun s => (s.identity, s.counts.size)

/-- Whether a class has a segment shows in the outlines. -/
theorem holds_iff :
  store.Holds identity segment probes
    ↔ store.outlines.findIdx? (·.1 == identity) = some segment
      ∧ store.outlines[segment]? = some (identity, probes)
  := by
  have hindex : store.outlines.findIdx? (·.1 == identity) = store.indexOf? identity := by
    rw [outlines, Array.findIdx?_map]
    rfl
  rw [hindex, outlines, Array.getElem?_map, Option.map_eq_some_iff]
  constructor
  · rintro ⟨hindex, counts, hcounts, rfl⟩
    exact ⟨hindex, _, hcounts, rfl⟩
  · rintro ⟨hindex, ⟨_, counts⟩, hcounts, heq⟩
    obtain ⟨rfl, rfl⟩ := Prod.mk.inj heq
    exact ⟨hindex, counts, hcounts, rfl⟩

/-- A class keeps its segment when the outlines stay. -/
theorem Holds.of_outlines (h : store.Holds identity segment probes)
    (heq : later.outlines = store.outlines) :
  later.Holds identity segment probes
  := by
  rw [holds_iff, heq, ← holds_iff]
  apply h

/-- The outlines stay when a segment keeps its class and its number of counters. -/
theorem outlines_modify {f : Segment → Segment}
    (hf : ∀ s, ((f s).identity, (f s).counts.size) = (s.identity, s.counts.size)) (segment : Nat)
    (store : Store) :
  ({ store with segments := store.segments.modify segment f } : Store).outlines = store.outlines
  := by
  rw [outlines, outlines]
  apply Array.ext_getElem?
  intro i
  rw [Array.getElem?_map, Array.getElem?_map, Array.getElem?_modify]
  split
  · rw [Option.map_map]
    congr 1
    funext s
    apply hf
  · rfl

theorem outlines_hit (segment probe : Nat) (store : Store) :
  (store.hit segment probe).outlines = store.outlines
  := by
  apply outlines_modify fun s => ?_
  simp [Segment.hit]

theorem outlines_resetSegment (segment : Nat) (store : Store) :
  (store.resetSegment segment).outlines = store.outlines
  := by
  apply outlines_modify fun s => ?_
  simp [Segment.reset]

theorem outlines_reset (store : Store) :
  store.reset.outlines = store.outlines
  := by
  simp [outlines, reset, Segment.reset]

theorem outlines_added (store : Store) (identity : ClassIdentity) (probes : Nat) :
  (store.added identity probes).outlines = store.outlines.push (identity, probes)
  := by
  simp [outlines, added, Segment.fresh]

/-- A class keeps its segment when another gets one. -/
theorem Holds.allocate (h : store.Holds identity segment probes) {segment' probes' : Nat}
    (hallocate : store.allocate other probes' = .ok (segment', later)) :
  later.Holds identity segment probes
  := by
  rcases allocate_eq_ok.mp hallocate with ⟨-, rfl⟩ | ⟨-, -, -, rfl⟩
  · apply h
  · obtain ⟨hindex, hget⟩ := holds_iff.mp h
    have hlt := (Array.getElem?_eq_some_iff.mp hget).1
    rw [holds_iff, outlines_added, Array.findIdx?_push, hindex, Array.getElem?_push_lt hlt]
    exact ⟨rfl, by rw [← hget, Array.getElem?_eq_getElem hlt]⟩

end Store

namespace Registry

variable {registry : Registry} {identity : ClassIdentity} {record : ClassRecord}

theorem isSome_get?_insert_self (registry : Registry) (record : ClassRecord) :
  ((registry.insert record).get? record.identity).isSome
  := by
  rw [get?, insert, Ordered.insertNew]
  split
  · assumption
  · rw [Ordered.lookup_insert_self]
    rfl

/-- A class keeps its record. -/
theorem isSome_get?_insert (h : (registry.get? identity).isSome) (record : ClassRecord) :
  ((registry.insert record).get? identity).isSome
  := by
  by_cases heq : identity = record.identity
  · rw [heq]
    apply isSome_get?_insert_self
  · rw [get?, insert, Ordered.insertNew]
    split
    · apply h
    · rw [Ordered.lookup_insert_other _ _ _ heq]
      apply h

theorem insert_eq_self (h : (registry.get? record.identity).isSome) :
  registry.insert record = registry
  := by
  rw [get?] at h
  rw [insert, Ordered.insertNew, if_pos h]

end Registry

/-! ## Classes with probes call the bridge -/

/-- A class that was given probes calls the bridge. -/
theorem ClassPlan.IsApplied.callsBridge {classPlan : ClassPlan} {c c' : ClassFile}
    {bridge : Bridge} {segment : UInt32} (h : classPlan.IsApplied bridge segment c c')
    (hplan : classPlan.IsOf bridge c) (hc : c.WellFormed) (hempty : classPlan.isEmpty = false) :
  Agent.callsBridge bridge c'
  := by
  obtain ⟨methodPlan, hmem⟩ : ∃ methodPlan, methodPlan ∈ classPlan.planned := by
    apply List.exists_mem_of_ne_nil
    intro hnil
    rw [hplan.isEmpty_iff.mpr hnil] at hempty
    cases hempty
  obtain ⟨m, code, moved, first, -, -, -, -, hof, hwf, hmoved⟩ := h.exists_moved hplan hc hmem
  obtain ⟨sequences, -, hsequences⟩ := hmoved.exists_sequences hof.layout hwf.instructions.tiles
  rw [hof.numbers_sites] at hsequences
  obtain ⟨number, hnumber⟩ := List.exists_mem_of_ne_nil _ hof.probed
  obtain ⟨insns, -, offset, ⟨_, _, _, -, -, -, index, constant, -, hget, hmethod⟩, -⟩ :=
    exists_of_mem_left hsequences hnumber
  apply ConstantPool.isSome_findMethodRef? hget hmethod

/-! ## Runs of an agent -/

namespace Agent

/-- Something that is asked of an agent. -/
inductive Call where
  | transform (className : String) (bytes : List UInt8)
  | tryTransform (className : String) (bytes : List UInt8)
  | hit (segment probe : Nat)
  | snapshot
  | drain
  | resetSegment (segment : Nat)
  | reset

/-- The agent after a call.  A last report leaves it as it is, as any other report does. -/
def after (agent : Agent) : Call → Agent
  | .transform className bytes => (agent.transform className bytes).2
  | .tryTransform className bytes => (agent.tryTransform className bytes).2
  | .hit segment probe => agent.hit segment probe
  | .snapshot => agent
  | .drain => agent
  | .resetSegment segment => { agent with store := agent.store.resetSegment segment }
  | .reset => agent.reset

/-- The agent after several calls. -/
def run (agent : Agent) (calls : List Call) : Agent := calls.foldl after agent

/-- Whether the agent has the segment with the given number for the class, and a record of it. -/
structure Knows (agent : Agent) (policy : Policy) (identity : ClassIdentity)
    (segment probes : Nat) : Prop where
  policy_eq : agent.policy = policy
  holds : agent.store.Holds identity segment probes
  recorded : (agent.registry.get? identity).isSome

variable {agent agent' : Agent} {policy : Policy} {identity : ClassIdentity}
  {segment probes : Nat} {bytes out : List UInt8}

/-- An attempt to instrument any class keeps what is known of a class. -/
theorem Knows.attempt (h : agent.Knows policy identity segment probes)
    {result : Except InstrumentError (Option (List UInt8))}
    (hattempt : agent.Attempt bytes result agent') :
  agent'.Knows policy identity segment probes
  := by
  cases hattempt with
  | failed e log => exact ⟨h.policy_eq, h.holds, h.recorded⟩
  | callsBridge log hread hcalls => exact ⟨h.policy_eq, h.holds, h.recorded⟩
  | withoutProbes log hread hcalls hplan hempty =>
    exact ⟨h.policy_eq, h.holds, Registry.isSome_get?_insert h.recorded _⟩
  | probed log hread hcalls hplan hempty hallocate hrender =>
    exact ⟨h.policy_eq, h.holds.allocate hallocate, Registry.isSome_get?_insert h.recorded _⟩

/-- A call keeps what is known of a class. -/
theorem Knows.after (h : agent.Knows policy identity segment probes)
    (hbridge : ClassPlan.BridgeFits policy.bridge) (call : Call) :
  (agent.after call).Knows policy identity segment probes
  := by
  obtain ⟨rfl, hholds, hrecorded⟩ := h
  cases call with
  | transform className bytes =>
    have hattempt :=
      Knows.attempt ⟨rfl, hholds, hrecorded⟩ (attempt_tryTransform hbridge className bytes)
    rw [Agent.after, transform]
    split
    · split
      · rename_i heq
        rw [heq] at hattempt
        apply hattempt
      · -- a failure is recorded, which only makes the log longer
        rename_i heq
        rw [heq] at hattempt
        exact ⟨hattempt.policy_eq, hattempt.holds, hattempt.recorded⟩
    · exact ⟨rfl, hholds, hrecorded⟩
  | tryTransform className bytes =>
    apply Knows.attempt ⟨rfl, hholds, hrecorded⟩ (attempt_tryTransform hbridge className bytes)
  | hit segment probe => exact ⟨rfl, hholds.of_outlines (Store.outlines_hit _ _ _), hrecorded⟩
  | snapshot => exact ⟨rfl, hholds, hrecorded⟩
  | drain => exact ⟨rfl, hholds, hrecorded⟩
  | resetSegment segment =>
    exact ⟨rfl, hholds.of_outlines (Store.outlines_resetSegment _ _), hrecorded⟩
  | reset => exact ⟨rfl, hholds.of_outlines (Store.outlines_reset _), hrecorded⟩

/-- Calls keep what is known of a class. -/
theorem Knows.run (h : agent.Knows policy identity segment probes)
    (hbridge : ClassPlan.BridgeFits policy.bridge) (calls : List Call) :
  (agent.run calls).Knows policy identity segment probes
  := by
  induction calls generalizing agent with
  | nil => apply h
  | cons call calls ih => apply ih (h.after hbridge call)

/-- Whether the agent hands back `answer` for `bytes`, and keeps its counters and records. -/
def Answers (agent : Agent) (bytes : List UInt8) (answer : Option (List UInt8)) : Prop :=
  ∀ className, (agent.tryTransform className bytes).1 = .ok answer
    ∧ (agent.tryTransform className bytes).2.store = agent.store
    ∧ (agent.tryTransform className bytes).2.registry = agent.registry

/-- A class that is known gets the probes that count in its segment. -/
theorem Knows.answers {c : ClassFile} {plan : ClassPlan}
    (h : agent.Knows policy (.of c.name bytes) segment plan.probeCount)
    (hbridge : ClassPlan.BridgeFits policy.bridge) (hread : ClassFile.read bytes = .ok c)
    (hcalls : callsBridge policy.bridge c = false) (hplan : ClassPlan.ofClass policy c = .ok plan)
    (hempty : plan.isEmpty = false) (hrender : render policy plan c segment = .ok out) :
  agent.Answers bytes (some out)
  := by
  obtain ⟨rfl, hholds, hrecorded⟩ := h
  intro className
  have hallocate := Store.allocate_eq_ok.mpr (.inl ⟨hholds, rfl⟩)
  obtain ⟨log, h⟩ := exists_tryTransform_of_render hbridge hread hcalls hplan hempty hallocate
    hrender className
  rw [h, Registry.insert_eq_self hrecorded]
  exact ⟨rfl, rfl, rfl⟩

section Rendered

variable {c : ClassFile} {plan : ClassPlan} (hread : ClassFile.read bytes = .ok c)
  (hplan : ClassPlan.ofClass policy c = .ok plan) (hbridge : ClassPlan.BridgeFits policy.bridge)
  (hrender : render policy plan c segment = .ok out)

include hread hplan hbridge hrender

/-- A class with probes can be read when that was checked, and when the class had no more bytes than
an array can hold. -/
theorem exists_read_of_render (h : policy.selfCheck ∨ bytes.length < 2 ^ 31) :
  ∃ c', ClassFile.read out = .ok c'
  := by
  obtain ⟨hc, hof⟩ := ClassPlan.isOf_of_read hread hplan
  obtain ⟨c', -, rfl, happlied, hwf, hchecked⟩ :=
    exists_isApplied_of_render hread hplan hbridge hrender
  use c'
  apply (ClassFile.read_form_iff hwf).mpr
  rcases h with hself | hlt
  · apply hchecked hself
  · apply happlied.lengthsFit hof hc ((ClassFile.wellFormed_of_read hread).2.trans_lt hlt)

end Rendered

/-! ## Every run -/

end Agent

end JvmCoverage
