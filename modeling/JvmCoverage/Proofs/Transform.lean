import JvmCoverage.Agent.Basic
import JvmCoverage.Proofs.Reports

/-!
# What instrumenting a class leaves behind

A class is rendered before it is given counters, and rendering does not depend on the number of the
segment, so an attempt that fails leaves the counters and the records of an agent as they were.  An
attempt that succeeds takes at most one segment, with the counters of the plan
(`Agent.tryTransform_leaves`).
-/

namespace JvmCoverage

/-! ## Segments of a store -/

namespace Store

variable {store later : Store} {identity : ClassIdentity} {segment probes : Nat}

/-- Whether the class has the segment with the given number, and as many counters as probes. -/
structure Holds (store : Store) (identity : ClassIdentity) (segment probes : Nat) : Prop where
  index : store.indexOf? identity = some segment
  counters : ∃ counts, store.segments[segment]? = some ⟨identity, counts⟩ ∧ counts.size = probes

/-- The number of a class is that of a segment of the class. -/
theorem exists_of_indexOf? (h : store.indexOf? identity = some segment) :
  ∃ counts, store.segments[segment]? = some ⟨identity, counts⟩
  := by
  obtain ⟨hlt, hidentity, -⟩ := Array.findIdx?_eq_some_iff_getElem.mp h
  rw [beq_iff_eq] at hidentity
  use store.segments[segment].counts
  rw [Array.getElem?_eq_getElem hlt, ← hidentity]

/-- The store with a segment for one more class. -/
def added (store : Store) (identity : ClassIdentity) (probes : Nat) : Store :=
  { store with segments := store.segments.push (.fresh identity probes) }

theorem holds_added (h : store.indexOf? identity = none) :
  (store.added identity probes).Holds identity store.size probes
  where
    index := by
      rw [indexOf?] at h
      rw [indexOf?, added, Array.findIdx?_push, h]
      simp [Segment.fresh, size]
    counters := ⟨.replicate probes 0, by simp [added, Segment.fresh, size], by simp⟩

/-- A class is given the segment that it has, or a new one if it has none and there is room. -/
theorem allocate_eq_ok :
  store.allocate identity probes = .ok (segment, later)
    ↔ store.Holds identity segment probes ∧ later = store
      ∨ store.indexOf? identity = none ∧ store.size < store.capacity ∧ segment = store.size
        ∧ later = store.added identity probes
  := by
  rw [allocate]
  cases hindex : store.indexOf? identity with
  | some index =>
    obtain ⟨counts, hcounts⟩ := exists_of_indexOf? hindex
    have hsize : (store.segments[index]?.map (·.counts.size)).getD 0 = counts.size := by
      rw [hcounts, Option.map_some, Option.getD_some]
    simp only [hsize]
    constructor
    · intro h
      split at h
      · rename_i heq
        obtain ⟨rfl, rfl⟩ := Prod.mk.inj (Except.ok.inj h)
        exact .inl ⟨⟨hindex, counts, hcounts, heq⟩, rfl⟩
      · cases h
    · rintro (⟨⟨hindex', counts', hcounts', heq⟩, rfl⟩ | ⟨hnone, -⟩)
      · obtain rfl := Option.some.inj (hindex.symm.trans hindex')
        obtain rfl := (Segment.mk.inj (Option.some.inj (hcounts.symm.trans hcounts'))).2
        rw [if_pos heq]
      · cases hnone
  | none =>
    dsimp only
    constructor
    · intro h
      split at h
      · cases h
      · rename_i hroom
        obtain ⟨rfl, rfl⟩ := Prod.mk.inj (Except.ok.inj h)
        exact .inr ⟨rfl, Nat.lt_of_not_le hroom, rfl, rfl⟩
    · rintro (⟨⟨hindex', -⟩, -⟩ | ⟨-, hroom, rfl, rfl⟩)
      · rw [hindex] at hindex'
        cases hindex'
      · rw [if_neg (Nat.not_le.mpr hroom)]
        rfl

/-- The class has the segment that it is given. -/
theorem holds_of_allocate (h : store.allocate identity probes = .ok (segment, later)) :
  later.Holds identity segment probes
  := by
  rcases allocate_eq_ok.mp h with ⟨hholds, rfl⟩ | ⟨hnone, -, rfl, rfl⟩
  · apply hholds
  · apply holds_added hnone

end Store

/-! ## Rendering -/

/-- The check of bytes passes when they can be read. -/
theorem ClassFile.check_eq_ok {bytes : List UInt8} :
  check bytes = .ok () ↔ ∃ c, read bytes = .ok c
  := by
  rw [check]
  cases read bytes with
  | ok c => simp
  | error e => simp

/-- The length of a moved body does not depend on where its probes count. -/
theorem Layout.IsMoved.length_form_eq {layout : Layout} {code moved moved' : Code}
    {probeAt : Nat → Option Nat} {pool pool' : ConstantPool} {bridge bridge' : Bridge}
    {segment segment' : UInt32} (h : layout.IsMoved pool bridge segment code moved)
    (h' : layout.IsMoved pool' bridge' segment' code moved') (hlayout : layout.IsFor code probeAt) :
  moved'.form.length = moved.form.length
  := by
  have hlength := CodeArray.length_form (tiles_pieces h.pieces hlayout)
  have hlength' := CodeArray.length_form (tiles_pieces h'.pieces hlayout)
  obtain ⟨hhandlers, hattributes⟩ := Prod.mk.inj (Except.ok.inj (h.tables.symm.trans h'.tables))
  simp only [Code.form, Code.tablesForm, List.length_append, Bytes.length_field16,
    Bytes.length_count32, hhandlers, hattributes]
  omega

namespace ClassPlan

variable {classPlan : ClassPlan} {c c' c'' : ClassFile} {bridge : Bridge}
  {segment segment' : UInt32}

/-- Whether the lengths of the bodies fit does not depend on the segment. -/
theorem IsApplied.lengthsFit_of (h : classPlan.IsApplied bridge segment c c')
    (h' : classPlan.IsApplied bridge segment' c c'') (hplan : classPlan.IsOf bridge c)
    (hc : c.WellFormed) (hold : c.LengthsFit) (hlengths : c'.LengthsFit) :
  c''.LengthsFit
  := by
  intro m'' hm'' attr hattr
  cases attr with
  | other raw => trivial
  | code nameIndex body =>
    change body.form.length < 2 ^ 32
    rcases h'.body_cases hm'' hattr with
      ⟨m, hm, hattr⟩ | ⟨methodPlan, hmem, m, code, hm, hcode, hmoved''⟩
    · apply hold m hm _ hattr
    · -- for the other segment the method has a body of the same length
      obtain ⟨_, _, moved, first, hm₀, hcode₀, hm', hcode', hof, -, hmoved⟩ :=
        h.exists_moved hplan hc hmem
      obtain rfl := Option.some.inj (hm₀.symm.trans hm)
      obtain rfl := Option.some.inj (hcode₀.symm.trans hcode)
      obtain ⟨front, nameIndex', back, hattributes, -⟩ := Method.exists_attributes hcode' id
      rw [hmoved.length_form_eq hmoved'' hof.layout]
      apply hlengths _ (List.mem_of_getElem? hm') (.code nameIndex' moved)
      rw [hattributes]
      apply List.mem_append_right _ List.mem_cons_self

/-- What is written for a class with probes passes the check when the lengths of its bodies
fit. -/
theorem IsApplied.check_form_iff {bytes : List UInt8} (h : classPlan.IsApplied bridge segment c c')
    (hread : ClassFile.read bytes = .ok c) (hplan : classPlan.IsOf bridge c)
    (hfits : BridgeFits bridge) :
  ClassFile.check c'.form = .ok () ↔ c'.LengthsFit
  := by
  rw [ClassFile.check_eq_ok]
  constructor
  · rintro ⟨out, hout⟩
    apply ((h.read_form_eq_ok hread hplan hfits).mp hout).1
  · intro hlengths
    use c'
    apply (h.read_form_eq_ok hread hplan hfits).mpr ⟨hlengths, rfl⟩

end ClassPlan

namespace Agent

/-- What comes of a class is rendered with the number of its segment.  The first rendering decides
whether there is a segment for the class. -/
theorem emit_eq (policy : Policy) (plan : ClassPlan) (c : ClassFile) (identity : ClassIdentity)
    (store : Store) :
  emit policy plan c identity store = match render policy plan c store.size with
    | .error e => (.error e, store)
    | .ok _ => match store.allocate identity plan.probeCount with
      | .error e => (.error e, store)
      | .ok (segment, later) => (render policy plan c segment, later)
  := by
  simp only [emit]
  cases hfirst : render policy plan c store.size with
  | error e => rfl
  | ok first =>
    cases store.allocate identity plan.probeCount with
    | error e => rfl
    | ok given =>
      obtain ⟨segment, later⟩ := given
      dsimp only
      split
      · -- the provisional number was the right one, so rendering again gives the same
        rename_i heq
        rw [heq, hfirst]
      · rfl

variable {policy : Policy} {plan : ClassPlan} {c : ClassFile} {bytes out : List UInt8}
  {segment : Nat} {identity : ClassIdentity} {store later : Store}

section Rendering

variable (hread : ClassFile.read bytes = .ok c) (hplan : ClassPlan.ofClass policy c = .ok plan)
  (hbridge : ClassPlan.BridgeFits policy.bridge)

include hread hplan hbridge

/-- The bytes of a class with probes are its form, and it can be read back if that is checked. -/
theorem render_eq_ok :
  render policy plan c segment = .ok out
    ↔ ∃ c', plan.apply (UInt32.ofNat segment) c = .ok c' ∧ c'.toBytes = .ok out
      ∧ (policy.selfCheck → c'.LengthsFit)
  := by
  obtain ⟨hc, hof⟩ := ClassPlan.isOf_of_read hread hplan
  rw [render, bind_eq_ok]
  apply exists_congr
  intro c'
  apply and_congr_right
  intro happly
  have happlied := (ClassPlan.apply_spec hof hc).1 c' happly
  have hform := ClassFile.toBytes_eq (happlied.wellFormed hof hc hbridge)
  have hcheck := happlied.check_form_iff hread hof hbridge
  rw [hform, bind_eq_ok]
  constructor
  · rintro ⟨written, hwritten, hrest⟩
    obtain rfl := Except.ok.inj hwritten
    split at hrest
    · obtain ⟨⟨⟩, hchecked, hout⟩ := bind_eq_ok.mp hrest
      exact ⟨congrArg _ (pure_eq_ok.mp hout), fun _ => hcheck.mp hchecked⟩
    · rename_i hself
      exact ⟨congrArg _ (pure_eq_ok.mp hrest), fun h => absurd h hself⟩
  · rintro ⟨hout, hlengths⟩
    obtain rfl := Except.ok.inj hout
    refine ⟨_, rfl, ?_⟩
    split
    · rename_i hself
      rw [hcheck.mpr (hlengths hself)]
      rfl
    · rfl

/-- What is rendered is the form of the class with its probes. -/
theorem exists_isApplied_of_render (h : render policy plan c segment = .ok out) :
  ∃ c', plan.apply (UInt32.ofNat segment) c = .ok c' ∧ c'.form = out
    ∧ plan.IsApplied policy.bridge (UInt32.ofNat segment) c c' ∧ c'.WellFormed
    ∧ (policy.selfCheck → c'.LengthsFit)
  := by
  obtain ⟨hc, hof⟩ := ClassPlan.isOf_of_read hread hplan
  obtain ⟨c', happly, hwritten, hlengths⟩ := (render_eq_ok hread hplan hbridge).mp h
  have happlied := (ClassPlan.apply_spec hof hc).1 c' happly
  have hwf := happlied.wellFormed hof hc hbridge
  exact ⟨c', happly, Except.ok.inj ((ClassFile.toBytes_eq hwf).symm.trans hwritten), happlied,
    hwf, hlengths⟩

/-- A class that is rendered for one segment is rendered for every segment. -/
theorem exists_render (h : render policy plan c segment = .ok out) (segment' : Nat) :
  ∃ out', render policy plan c segment' = .ok out'
  := by
  obtain ⟨hc, hof⟩ := ClassPlan.isOf_of_read hread hplan
  have hold := ClassFile.lengthsFit_of_read hread
  obtain ⟨c', happly, -, happlied, -, hlengths⟩ :=
    exists_isApplied_of_render hread hplan hbridge h
  obtain ⟨c'', happly'⟩ := (hof.exists_apply_iff_newOffsets hc (UInt32.ofNat segment')).mpr
    ((hof.exists_apply_iff_newOffsets hc _).mp ⟨c', happly⟩)
  have happlied' := (ClassPlan.apply_spec hof hc).1 c'' happly'
  use c''.form
  apply (render_eq_ok hread hplan hbridge).mpr ⟨c'', happly', ?_, ?_⟩
  · apply ClassFile.toBytes_eq (happlied'.wellFormed hof hc hbridge)
  · exact fun hself => happlied.lengthsFit_of happlied' hof hc hold (hlengths hself)

/-- A class gets its probes exactly when there are counters for it and it can be rendered with the
number of its segment. -/
theorem emit_eq_ok :
  emit policy plan c identity store = (.ok out, later)
    ↔ ∃ segment, store.allocate identity plan.probeCount = .ok (segment, later)
      ∧ render policy plan c segment = .ok out
  := by
  rw [emit_eq]
  constructor
  · intro h
    split at h
    · cases h
    split at h
    · cases h
    · rename_i segment later' hallocate
      obtain ⟨hrender, rfl⟩ := Prod.mk.inj h
      exact ⟨segment, hallocate, hrender⟩
  · rintro ⟨segment, hallocate, hrender⟩
    obtain ⟨first, hfirst⟩ := exists_render hread hplan hbridge hrender store.size
    rw [hfirst, hallocate]
    exact Prod.ext hrender rfl

/-- A class that gets no probes gets no counters: once it was rendered for one segment, it is
rendered for the one that it is given. -/
theorem emit_eq_error {e : InstrumentError}
    (h : emit policy plan c identity store = (.error e, later)) :
  later = store
  := by
  rw [emit_eq] at h
  split at h
  · exact (Prod.mk.inj h).2.symm
  rename_i hfirst
  split at h
  · exact (Prod.mk.inj h).2.symm
  · rename_i segment later' hallocate
    obtain ⟨out, hout⟩ := exists_render hread hplan hbridge hfirst segment
    rw [hout] at h
    cases (Prod.mk.inj h).1

end Rendering

/-! ## Attempts -/

variable {agent : Agent}

/-- A warning about the name is all that it may add. -/
theorem exists_noteName (className : String) (c : ClassFile) (agent : Agent) :
  ∃ log, agent.noteName className c = { agent with log }
  := by
  rw [noteName]
  split
  · exact ⟨agent.log, rfl⟩
  · exact ⟨_, rfl⟩

theorem exists_noteFailures (plan : ClassPlan) (agent : Agent) :
  ∃ log, agent.noteFailures plan = { agent with log }
  := by
  rw [noteFailures]
  generalize plan.methods.filterMap (failure? plan.className) = failures
  induction failures generalizing agent with
  | nil => exact ⟨agent.log, rfl⟩
  | cons d failures ih =>
    obtain ⟨log, hlog⟩ := ih (agent.record d)
    exact ⟨log, hlog⟩

/-- What an attempt to instrument a class may come to, with the agent afterwards. -/
inductive Attempt (agent : Agent) (bytes : List UInt8) :
    Except InstrumentError (Option (List UInt8)) → Agent → Prop where
  | failed (e : InstrumentError) (log : DiagnosticLog) :
    Attempt agent bytes (.error e) { agent with log }
  /-- The class has probes already. -/
  | callsBridge {c : ClassFile} (log : DiagnosticLog) (hread : ClassFile.read bytes = .ok c)
      (hcalls : callsBridge agent.policy.bridge c) :
    Attempt agent bytes (.ok none) { agent with log }
  | withoutProbes {c : ClassFile} {plan : ClassPlan} (log : DiagnosticLog)
      (hread : ClassFile.read bytes = .ok c)
      (hcalls : Agent.callsBridge agent.policy.bridge c = false)
      (hplan : ClassPlan.ofClass agent.policy c = .ok plan) (hempty : plan.isEmpty) :
    Attempt agent bytes (.ok none)
      { agent with
        log
        registry := agent.registry.insert (plan.toRecord (.of c.name bytes)) }
  | probed {c : ClassFile} {plan : ClassPlan} {segment : Nat} {store : Store} {out : List UInt8}
      (log : DiagnosticLog) (hread : ClassFile.read bytes = .ok c)
      (hcalls : Agent.callsBridge agent.policy.bridge c = false)
      (hplan : ClassPlan.ofClass agent.policy c = .ok plan) (hempty : plan.isEmpty = false)
      (hallocate : agent.store.allocate (.of c.name bytes) plan.probeCount = .ok (segment, store))
      (hrender : render agent.policy plan c segment = .ok out) :
    Attempt agent bytes (.ok (some out))
      { agent with
        log
        store
        registry := agent.registry.insert (plan.toRecord (.of c.name bytes)) }

/-- What an attempt to instrument a class comes to. -/
theorem attempt_tryTransform (hbridge : ClassPlan.BridgeFits agent.policy.bridge)
    (className : String) (bytes : List UInt8) :
  agent.Attempt bytes (agent.tryTransform className bytes).1
    (agent.tryTransform className bytes).2
  := by
  rw [tryTransform]
  cases hread : ClassFile.read bytes with
  | error e => exact .failed _ agent.log
  | ok c =>
    obtain ⟨log, hlog⟩ := exists_noteName className c agent
    simp only [instrument, hlog]
    cases hcalls : callsBridge agent.policy.bridge c with
    | true => exact .callsBridge _ hread hcalls
    | false =>
      rw [if_neg Bool.false_ne_true]
      cases hplan : ClassPlan.ofClass agent.policy c with
      | error e => exact .failed e log
      | ok plan =>
        obtain ⟨log, hlog⟩ := exists_noteFailures plan { agent with log }
        simp only [carryOut, hlog]
        cases hempty : plan.isEmpty with
        | true => exact .withoutProbes log hread hcalls hplan hempty
        | false =>
          rw [if_neg Bool.false_ne_true]
          cases hemit : emit agent.policy plan c (.of c.name bytes) agent.store with
          | mk result later =>
            cases result with
            | error e =>
              obtain rfl := emit_eq_error hread hplan hbridge hemit
              exact .failed e log
            | ok out =>
              obtain ⟨segment, hallocate, hrender⟩ :=
                (emit_eq_ok hread hplan hbridge).mp hemit
              exact .probed log hread hcalls hplan hempty hallocate hrender

/-- A class that can be rendered with the number of its segment gets its probes. -/
theorem exists_tryTransform_of_render (hbridge : ClassPlan.BridgeFits agent.policy.bridge)
    (hread : ClassFile.read bytes = .ok c) (hcalls : callsBridge agent.policy.bridge c = false)
    (hplan : ClassPlan.ofClass agent.policy c = .ok plan) (hempty : plan.isEmpty = false)
    (hallocate : agent.store.allocate (.of c.name bytes) plan.probeCount = .ok (segment, store))
    (hrender : render agent.policy plan c segment = .ok out) (className : String) :
  ∃ log, agent.tryTransform className bytes = (.ok (some out),
    { agent with
      log
      store
      registry := agent.registry.insert (plan.toRecord (.of c.name bytes)) })
  := by
  obtain ⟨log, hlog⟩ := exists_noteName className c agent
  obtain ⟨log', hlog'⟩ := exists_noteFailures plan { agent with log }
  have hemit : emit agent.policy plan c (.of c.name bytes) agent.store = (.ok out, store) :=
    (emit_eq_ok hread hplan hbridge).mpr ⟨segment, hallocate, hrender⟩
  use log'
  simp only [tryTransform, hread, instrument, hlog, hcalls, hplan, carryOut, hlog', hempty, hemit]
  rfl

/-- An attempt that fails leaves the counters and the records, and one that gives no bytes leaves
the counters.  One that gives bytes adds a segment at most, for the class, which then has as many
counters as the plan has probes, and the bytes are those of the class with probes that count in that
segment as planned. -/
theorem tryTransform_leaves (hbridge : ClassPlan.BridgeFits agent.policy.bridge)
    {className : String} {bytes : List UInt8} {agent' : Agent}
    {result : Except InstrumentError (Option (List UInt8))}
    (h : agent.tryTransform className bytes = (result, agent')) :
  match result with
  | .error _ => agent'.store = agent.store ∧ agent'.registry = agent.registry
  | .ok none => agent'.store = agent.store
  | .ok (some out) => ∃ c plan segment c', ClassFile.read bytes = .ok c
    ∧ ClassPlan.ofClass agent.policy c = .ok plan
    ∧ (agent'.store = agent.store ∨ segment = agent.store.size
      ∧ agent'.store = agent.store.added (.of c.name bytes) plan.probeCount)
    ∧ agent'.store.Holds (.of c.name bytes) segment plan.probeCount
    ∧ plan.apply (UInt32.ofNat segment) c = .ok c' ∧ c'.toBytes = .ok out
    ∧ (∀ c'', ClassFile.read out = .ok c'' → c'' = c')
    ∧ plan.CountsIn agent.policy.bridge (UInt32.ofNat segment) c c'
  := by
  have hattempt := attempt_tryTransform hbridge className bytes
  rw [h] at hattempt
  cases hattempt with
  | failed e log => exact ⟨rfl, rfl⟩
  | callsBridge log hread hcalls => rfl
  | withoutProbes log hread hcalls hplan hempty => rfl
  | @probed c plan segment later out log hread hcalls hplan hempty hallocate hrender =>
    obtain ⟨hc, hof⟩ := ClassPlan.isOf_of_read hread hplan
    obtain ⟨c', happly, rfl, happlied, hwf, -⟩ :=
      exists_isApplied_of_render hread hplan hbridge hrender
    refine ⟨c, plan, segment, c', hread, hplan, ?_, Store.holds_of_allocate hallocate, happly,
      ClassFile.toBytes_eq hwf, ?_, happlied.countsIn hof hc⟩
    · rcases Store.allocate_eq_ok.mp hallocate with ⟨-, rfl⟩ | ⟨-, -, rfl, rfl⟩
      · exact .inl rfl
      · exact .inr ⟨rfl, rfl⟩
    · exact fun _ hout => ((happlied.read_form_eq_ok hread hof hbridge).mp hout).2

/-- An agent with room for the counters of one class. -/
def single : Agent where
  store := { capacity := 1 }

/-- The class with a jump gets its probes. -/
theorem exists_tryTransform_jumpClass :
  ∃ out agent', single.tryTransform "A" ClassFile.jumpClass.form = (.ok (some out), agent')
  := by
  have hwf := ClassFile.wellFormed_jumpClass
  have hread := ClassFile.read_form_jumpClass
  have hbridge : ClassPlan.BridgeFits single.policy.bridge := by decide +kernel
  obtain ⟨plan, c', hplan, hne, happly⟩ := ClassPlan.exists_probed_jumpClass
  have hof := ClassPlan.isOf_of_ofClass hplan hwf
  have happlied := (ClassPlan.apply_spec hof hwf).1 c' happly
  have hempty : plan.isEmpty = false := by
    rw [Bool.eq_false_iff]
    exact fun hempty => hne (hof.isEmpty_iff.mp hempty)
  have hrender : render single.policy plan ClassFile.jumpClass 0 = .ok c'.form :=
    (render_eq_ok hread hplan hbridge).mpr ⟨c', happly,
      ClassFile.toBytes_eq (happlied.wellFormed hof hwf hbridge),
      fun _ => happlied.lengthsFit hof hwf (by decide +kernel)⟩
  obtain ⟨log, h⟩ := exists_tryTransform_of_render hbridge hread (by decide +kernel) hplan hempty
    (Store.allocate_eq_ok.mpr (.inr ⟨by simp [Store.indexOf?, single], by decide, rfl, rfl⟩))
    hrender "A"
  exact ⟨_, _, h⟩

/-- The class with a jump takes the one segment of its agent. -/
theorem tryTransform_leaves_jumpClass :
  ∃ (out : List UInt8) (agent' : Agent) (plan : ClassPlan) (c' : ClassFile),
    single.tryTransform "A" ClassFile.jumpClass.form = (.ok (some out), agent')
    ∧ agent'.store = single.store.added (.of "A" ClassFile.jumpClass.form) plan.probeCount
    ∧ agent'.store.Holds (.of "A" ClassFile.jumpClass.form) 0 plan.probeCount
    ∧ c'.toBytes = .ok out ∧ plan.CountsIn {} 0 ClassFile.jumpClass c'
  := by
  have hread := ClassFile.read_form_jumpClass
  obtain ⟨out, agent', hresult⟩ := exists_tryTransform_jumpClass
  have hbridge : ClassPlan.BridgeFits single.policy.bridge := by decide +kernel
  obtain ⟨c, plan, segment, c', hc, -, hstore, hholds, -, hwritten, -, hcounts⟩ :=
    tryTransform_leaves hbridge hresult
  obtain rfl := Except.ok.inj (hread.symm.trans hc)
  rcases hstore with hsame | ⟨rfl, hadded⟩
  · obtain ⟨counts, hcounters, -⟩ := hholds.counters
    rw [hsame] at hcounters
    simp [single] at hcounters
  · exact ⟨out, agent', plan, c', hresult, hadded, hholds, hwritten, hcounts⟩

end Agent

end JvmCoverage
