import JvmCoverage.Machine.Insertion
import JvmCoverage.Proofs.Probed
import JvmCoverage.Proofs.SafePlanning

/-!
# Putting probes into a class does not fault

An editor of a pool *follows* a builder when it does what the builder does on every pool that is
not too large, and such a pool stays so.  The tables of a body are gone through with a layout that
has a place for each of its instructions.
-/

namespace JvmCoverage.Machine

/-! ## Following a builder -/

namespace Editor

/-- The editor does what the builder does. -/
def Follows {α : Type} (x : Editor α) (y : PoolBuilder α) : Prop :=
  ∀ pool : ConstantPool, pool.count ≤ ConstantPool.maxSlots →
    x.run.run pool = (faultless (y.run.run pool).1, (y.run.run pool).2)
      ∧ (y.run.run pool).2.count ≤ ConstantPool.maxSlots

/-- The builder that leaves the pool alone and answers with the outcome. -/
def answer {α : Type} : Except EncodeFault α → PoolBuilder α
  | .ok a => pure a
  | .error fault => throw (.encode fault)

section Combinators

variable {α β : Type} {x : Editor α} {y : PoolBuilder α}

theorem follows_pure (a : α) :
  Follows (pure a) (pure a)
  := fun _ hpool => ⟨rfl, hpool⟩

theorem follows_throw (e : InstrumentError) :
  Follows (throw (.error e) : Editor α) (throw e)
  := fun _ hpool => ⟨rfl, hpool⟩

/-- What comes next may rely on what the builder has added. -/
theorem Follows.bind {f : α → Editor β} {g : α → PoolBuilder β} (h : Follows x y)
    (hf : ∀ a, (∃ pool later, PoolBuilder.Yields y pool a later) → Follows (f a) (g a)) :
  Follows (x >>= f) (y >>= g)
  := by
  intro pool hpool
  obtain ⟨hrun, hcount⟩ := h pool hpool
  rw [run_bind, run_bind, hrun]
  cases hy : y.run.run pool with
  | mk result later =>
    rw [hy] at hcount
    cases result with
    | error e => exact ⟨rfl, hcount⟩
    | ok a => exact hf a ⟨pool, later, hy⟩ later hcount

theorem Follows.map (h : Follows x y) (f : α → β) :
  Follows (f <$> x) (f <$> y)
  := h.bind fun a _ => follows_pure (f a)

theorem follows_lift {x : Checked EncodeFault α} {outcome : Except EncodeFault α}
    (h : x = faultless outcome) :
  Follows (lift x) (answer outcome)
  := by
  subst h
  cases outcome with
  | ok a => exact follows_pure a
  | error fault => exact follows_throw (.encode fault)

theorem follows_mapM {γ : Type} {f : α → Editor γ} {g : β → PoolBuilder γ} {as : List α}
    {bs : List β} (h : List.Forall₂ (fun a b => Follows (f a) (g b)) as bs) :
  Follows (as.mapM f) (bs.mapM g)
  := by
  induction h with
  | nil => exact follows_pure []
  | cons hhead _ ih =>
    rw [List.mapM_cons, List.mapM_cons]
    exact hhead.bind fun c _ => ih.bind fun cs _ => follows_pure (c :: cs)

end Combinators

/-! ## Adding entries -/

/-- The pool with `c` in the next slots. -/
def pushed (pool : ConstantPool) (c : Constant) : ConstantPool :=
  if c.isWide then ⟨(pool.entries.push c).push .unusable⟩ else ⟨pool.entries.push c⟩

theorem count_pushed (pool : ConstantPool) (c : Constant) :
  (pushed pool c).count = pool.count + c.slots
  := by
  unfold pushed Constant.slots ConstantPool.count
  split <;> simp

theorem run_builder_push (c : Constant) (pool : ConstantPool) :
  (PoolBuilder.push c).run.run pool
    = if ConstantPool.maxSlots < pool.count + c.slots then
        (.error (.capacity .poolSlots (pool.count + c.slots) ConstantPool.maxSlots), pool)
      else (.ok (UInt16.ofNat pool.count), pushed pool c)
  := by
  have hget : (get : PoolBuilder ConstantPool).run.run pool = (.ok pool, pool) := rfl
  rw [PoolBuilder.push, run_bind, hget]
  by_cases hfull : ConstantPool.maxSlots < pool.count + c.slots
  · rw [if_pos hfull]
    simp only [gt_iff_lt, if_pos hfull]
    rfl
  · rw [if_neg hfull]
    simp only [gt_iff_lt, if_neg hfull]
    rfl

theorem follows_push (c : Constant) :
  Follows (push c) (PoolBuilder.push c)
  := by
  intro pool hpool
  have hslots : c.slots ≤ 2 := by
    unfold Constant.slots
    split <;> decide
  have hmax : ConstantPool.maxSlots = 65535 := rfl
  have hadd : (add 64 pool.count c.slots : Editor Nat) = pure (pool.count + c.slots) :=
    add_eq (by omega)
  have hget : (get : Editor ConstantPool).run.run pool = (.ok pool, pool) := rfl
  rw [push, run_bind, hget, run_builder_push]
  simp only [hadd, pure_bind]
  by_cases hfull : ConstantPool.maxSlots < pool.count + c.slots
  · rw [if_pos hfull, if_pos hfull]
    exact ⟨rfl, hpool⟩
  · rw [if_neg hfull, if_neg hfull]
    refine ⟨rfl, ?_⟩
    rw [count_pushed]
    exact Nat.not_lt.mp hfull

theorem follows_intern (c : Constant) :
  Follows (intern c) (PoolBuilder.intern c)
  := by
  intro pool hpool
  have hget : (get : Editor ConstantPool).run.run pool = (.ok pool, pool) := rfl
  have hget' : (get : PoolBuilder ConstantPool).run.run pool = (.ok pool, pool) := rfl
  rw [intern, run_bind, hget, PoolBuilder.intern, run_bind, hget']
  simp only [PoolBuilder.indexOf?_eq_findIdx?]
  cases pool.entries.findIdx? (· == c) with
  | none => exact follows_push c pool hpool
  | some index => exact follows_pure (UInt16.ofNat index) pool hpool

theorem follows_utf8 (text : String) :
  Follows (utf8 text) (PoolBuilder.utf8 text)
  := follows_intern _

theorem follows_integer (value : Int32) :
  Follows (integer value) (PoolBuilder.integer value)
  := follows_intern _

theorem follows_classRef (name : String) :
  Follows (classRef name) (PoolBuilder.classRef name)
  := (follows_utf8 name).bind fun _ _ => follows_intern _

theorem follows_nameAndType (name descriptor : String) :
  Follows (nameAndType name descriptor) (PoolBuilder.nameAndType name descriptor)
  := (follows_utf8 name).bind fun _ _ => (follows_utf8 descriptor).bind fun _ _ => follows_intern _

theorem follows_methodRef (owner name descriptor : String) :
  Follows (methodRef owner name descriptor) (PoolBuilder.methodRef owner name descriptor)
  := (follows_classRef owner).bind fun _ _ =>
    (follows_nameAndType name descriptor).bind fun _ _ => follows_intern _

/-! ## Probes -/

theorem follows_pushCounter (probe : Nat) :
  Follows (pushCounter probe) (Probe.pushCounter probe)
  := by
  unfold pushCounter Probe.pushCounter
  split
  · apply follows_pure
  · exact (follows_integer _).map _

end Editor

variable {m : Type → Type} [Monad m] [Faulting m] [LawfulMonad m]

theorem runFrom_eq {offset : Nat} {ops : List Operation}
    (h : ∀ insn ∈ Probe.runFrom offset ops, insn.limit < 2 ^ 32) :
  (runFrom offset ops : m (List Instruction)) = pure (Probe.runFrom offset ops)
  := by
  induction ops generalizing offset with
  | nil => rfl
  | cons op ops ih =>
    obtain ⟨hlimit, hops⟩ := List.forall_mem_cons.mp h
    have hlt := CodeArray.offset_lt_limit ⟨offset, op⟩
    simp only [Instruction.limit] at hlimit hlt
    rw [runFrom, size_eq (by omega) (by omega), pure_bind, add_eq hlimit, pure_bind,
      ih (by simpa only [Instruction.limit] using hops), pure_bind]
    rfl

theorem size_of_yields_pushCounter {probe : Nat} {op : Operation} {pool later : ConstantPool}
    (h : (Probe.pushCounter probe).Yields pool op later) (offset : Nat) :
  op.size offset = 3
  := by
  unfold Probe.pushCounter at h
  split at h
  · obtain ⟨rfl, -⟩ := PoolBuilder.yields_pure.mp h
    rfl
  · rw [map_eq_pure_bind, PoolBuilder.yields_bind] at h
    obtain ⟨index, middle, -, hpure⟩ := h
    obtain ⟨rfl, -⟩ := PoolBuilder.yields_pure.mp hpure
    rfl

theorem follows_probeAt (context : Probe.Context) {offset : Nat} (probe : Nat)
    (hoffset : offset + Probe.length < 2 ^ 32) :
  Editor.Follows (probeAt context offset probe) (Probe.instructions context offset probe)
  := by
  apply (Editor.follows_pushCounter probe).bind
  rintro counter ⟨pool, later, hcounter⟩
  have hsize := size_of_yields_pushCounter hcounter
  have hlength : Probe.length = 9 := rfl
  rw [runFrom_eq]
  · apply Editor.follows_pure
  · have hsegment : ∀ offset, (Probe.pushInteger context.segment).size offset = 3 := fun _ => rfl
    have hcall : ∀ offset, (Operation.invoke Opcode.invokestatic context.bridge 0).size offset = 3 :=
      fun _ => rfl
    simp only [Probe.runFrom, Instruction.limit, hsize, hsegment, hcall, List.forall_mem_cons]
    simp
    omega

/-! ## Jump targets -/

theorem foldl_noted (p : Nat → Bool) (targets : List Nat) (noted : Option Nat) :
  targets.foldl (fun noted target => if p target then some target else noted) noted
    = ((targets.filter p).getLast?).or noted
  := by
  induction targets generalizing noted with
  | nil => rfl
  | cons target targets ih =>
    rw [List.foldl_cons, ih, List.filter_cons]
    split
    · rw [List.getLast?_cons]
      cases (targets.filter p).getLast? <;> rfl
    · rfl

section Targets

variable {σ α β : Type} {f : Nat → StateT σ m Nat} {g : Nat → Nat} {note : σ → Nat → σ}

omit [Faulting m] in
/-- A loop over targets that does not fault and notes some of them. -/
theorem mapM_noted (hf : ∀ target noted, (f target).run noted = pure (g target, note noted target))
    (target : α → Nat) (make : α → Nat → β) (as : List α) (noted : σ) :
  (as.mapM fun a => make a <$> f (target a)).run noted
    = pure (as.map fun a => make a (g (target a)), (as.map target).foldl note noted)
  := by
  induction as generalizing noted with
  | nil => rfl
  | cons a as ih =>
    simp only [List.mapM_cons, StateT.run_bind, StateT.run_map, hf, map_pure, pure_bind, ih]
    rfl

omit [Faulting m] in
theorem mapCases_noted
    (hf : ∀ target noted, (f target).run noted = pure (g target, note noted target))
    (cases : SwitchCases) (noted : σ) :
  (mapCases f cases).run noted = pure (cases.mapTargets g, cases.targets.foldl note noted)
  := by
  cases cases with
  | table low targets =>
    have htargets := mapM_noted hf id (fun _ target => target) targets noted
    simp only [id_map', List.map_id, id] at htargets
    rw [mapCases, StateT.run_map, htargets, map_pure]
    rfl
  | lookup pairs =>
    rw [mapCases, StateT.run_map, mapM_noted hf Prod.snd fun pair target => (pair.1, target),
      map_pure]
    rfl

omit [Faulting m] in
theorem mapTargets_noted
    (hf : ∀ target noted, (f target).run noted = pure (g target, note noted target))
    (op : Operation) (noted : σ) :
  (mapTargets f op).run noted = pure (op.mapTargets g, op.targets.foldl note noted)
  := by
  cases op with
  | branch opcode target =>
    rw [mapTargets, StateT.run_map, hf, map_pure]
    rfl
  | switch opcode default cases =>
    rw [mapTargets, seq_eq_bind_map, StateT.run_bind, StateT.run_map, hf, map_pure, pure_bind,
      StateT.run_map, mapCases_noted hf, map_pure]
    rfl
  | _ => rfl

end Targets

/-! ## Moving a body -/

/-- Going through the types of a frame faults only where it does for one of them. -/
theorem mapTypes_faultless {ε : Type} {f : VerificationType → Checked ε VerificationType}
    {g : VerificationType → Except ε VerificationType} (h : ∀ type, f type = faultless (g type))
    (shape : FrameShape) :
  shape.mapTypes f = faultless (shape.mapTypes g)
  := by
  have hmapM : ∀ types : List VerificationType, types.mapM f = faultless (types.mapM g) :=
    fun types => mapM_faultless fun type _ => h type
  cases shape with
  | same => rfl
  | oneOperand type =>
    rw [FrameShape.mapTypes, h, ← faultless_map]
    rfl
  | chop count => rfl
  | append locals =>
    rw [FrameShape.mapTypes, hmapM, ← faultless_map]
    rfl
  | full locals stack =>
    rw [FrameShape.mapTypes, hmapM, hmapM, FrameShape.mapTypes]
    cases locals.mapM g <;> cases stack.mapM g <;> rfl

section Moving

variable {layout : JvmCoverage.Layout} (hfull : IsFull layout)

include hfull

theorem moveTarget_of (target : Nat) (noted : Option Nat) :
  ((Layout.of layout).moveTarget target).run noted
    = pure ((layout.label? target).getD target,
        if (layout.label? target).isNone then some target else noted)
  := by
  rw [Layout.moveTarget, label?_of hfull, pure_bind]
  cases layout.label? target <;> rfl

theorem moveOperation_of (op : Operation) :
  (Layout.of layout).moveOperation op = faultless (layout.moveOperation op)
  := by
  rw [Layout.moveOperation, mapTargets_noted (moveTarget_of hfull), pure_bind, foldl_noted,
    Option.or_none, JvmCoverage.Layout.moveOperation]
  cases (op.targets.filter fun target => (layout.label? target).isNone).getLast? <;> rfl

theorem moveHandler_of (h : ExceptionHandler) :
  (Layout.of layout).moveHandler h = faultless (layout.moveHandler h)
  := by
  rw [Layout.moveHandler, label?_of hfull, limit?_of hfull, label?_of hfull,
    JvmCoverage.Layout.moveHandler]
  simp only [Layout.moved, pure_bind, faultless_bind, faultless_pure]

theorem moveLine_of (entry : LineEntry) :
  (Layout.of layout).moveLine entry = faultless (layout.moveLine entry)
  := by
  rw [Layout.moveLine, label?_of hfull, JvmCoverage.Layout.moveLine]
  simp only [Layout.moved, pure_bind, faultless_bind, faultless_pure]

theorem moveType_of (type : VerificationType) :
  (Layout.of layout).moveType type = faultless (layout.moveType type)
  := by
  cases type with
  | uninitialized offset =>
    rw [Layout.moveType, position?_of hfull, JvmCoverage.Layout.moveType, faultless_bind]
    simp only [Layout.moved, pure_bind]
    congr
    funext position
    by_cases hwide : 65535 < position
    · simp only [if_pos hwide]
      rfl
    · simp only [if_neg hwide]
      rfl
  | _ => rfl

theorem moveFrame_of (frame : Frame) :
  (Layout.of layout).moveFrame frame = faultless (layout.moveFrame frame)
  := by
  rw [Layout.moveFrame, label?_of hfull, JvmCoverage.Layout.moveFrame, faultless_bind]
  simp only [Layout.moved, pure_bind, faultless_bind, faultless_pure,
    mapTypes_faultless (moveType_of hfull)]

end Moving

section Tables

variable {layout : JvmCoverage.Layout} {code : Code} {probeAt : Nat → Option Nat}
variable (hlayout : layout.IsFor code probeAt)
variable (htiles : CodeArray.Tiles 0 code.instructions code.length)

include hlayout

theorem isFull_of_isFor :
  IsFull layout
  := by
  have hlength := congrArg List.length hlayout.map_fst_places
  simp only [JvmCoverage.Layout.places, List.length_map, List.length_zip, Array.length_toList]
    at hlength
  exact min_eq_left_iff.mp hlength

include htiles

/-- A range of code does not turn around. -/
theorem label?_le_limit? {old length label limit : Nat} (hlabel : layout.label? old = some label)
    (hlimit : layout.limit? (old + length) = some limit) :
  label ≤ limit
  := by
  have hstart := hlayout.limit?_of_label? htiles hlabel
  cases length with
  | zero => exact (Option.some.inj (hstart.symm.trans hlimit)).le
  | succ length => exact (hlayout.limit?_lt htiles hstart hlimit (by omega)).le

theorem moveVariable_of {v : LocalVariable} (hv : v.start + v.length < 2 ^ 32) :
  (Layout.of layout).moveVariable v = faultless (layout.moveVariable v)
  := by
  have hfull := isFull_of_isFor hlayout
  rw [Layout.moveVariable, add_eq hv, pure_bind, label?_of hfull, limit?_of hfull,
    JvmCoverage.Layout.moveVariable]
  simp only [Layout.moved, pure_bind, faultless_bind, faultless_pure]
  cases hlabel : layout.label? v.start with
  | none => rfl
  | some label =>
    cases hlimit : layout.limit? (v.start + v.length) with
    | none => rfl
    | some limit =>
      have hsub : (sub limit label : Checked EncodeFault Nat) = pure (limit - label) :=
        sub_eq (label?_le_limit? hlayout htiles hlabel hlimit)
      simp only [JvmCoverage.Layout.moved, faultless_ok, pure_bind, hsub]

theorem moveAttribute_of {pool : ConstantPool} {b : Code.Boundaries} {attr : CodeAttribute}
    (hattr : attr.WellFormed pool b) :
  (Layout.of layout).moveAttribute attr = faultless (layout.moveAttribute attr)
  := by
  have hfull := isFull_of_isFor hlayout
  obtain ⟨name, -, hfits⟩ := hattr
  cases attr with
  | lineNumbers nameIndex entries =>
    rw [Layout.moveAttribute, mapM_faultless fun entry _ => moveLine_of hfull entry, ← faultless_map]
    rfl
  | localVariables nameIndex types entries =>
    obtain ⟨-, -, hentries⟩ := hfits
    have hvariable : ∀ v ∈ entries, (Layout.of layout).moveVariable v
        = faultless (layout.moveVariable v) := by
      intro v hv
      obtain ⟨⟨hstart, hlength⟩, -⟩ := hentries v hv
      exact moveVariable_of hlayout htiles (by omega)
    rw [Layout.moveAttribute, mapM_faultless hvariable, ← faultless_map]
    rfl
  | stackMap nameIndex frames =>
    rw [Layout.moveAttribute, mapM_faultless fun frame _ => moveFrame_of hfull frame,
      ← faultless_map]
    rfl
  | other raw => rfl

theorem moveTables_of {pool : ConstantPool} (hcode : code.WellFormed pool) :
  (Layout.of layout).moveTables code = faultless (layout.moveTables code)
  := by
  have hfull := isFull_of_isFor hlayout
  rw [Layout.moveTables, mapM_faultless fun h _ => moveHandler_of hfull h,
    mapM_faultless fun attr hattr => moveAttribute_of hlayout htiles (hcode.attributes attr hattr),
    JvmCoverage.Layout.moveTables]
  simp only [faultless_bind, faultless_pure]

end Tables

/-! ## Instructions -/

section Instructions

variable {layout : JvmCoverage.Layout} {context : Probe.Context} {probeBefore : List (Option Nat)}
variable {site : Site} {label i : Nat}

/-- The probe of a site and then the instruction. -/
theorem moveInstruction_eq (layout : JvmCoverage.Layout) (context : Probe.Context)
    (op : Operation) (site : Site) (label : Nat) :
  layout.moveInstruction context op site label
    = (match site.probe with
      | some probe => Probe.instructions context label probe
      | none => pure []) >>= fun probe => Editor.answer (layout.moveOperation op) >>= fun op =>
        pure (probe ++ [⟨site.position label, if site.widened then op.widen else op⟩])
  := by
  unfold JvmCoverage.Layout.moveInstruction
  cases site.probe <;> cases layout.moveOperation op <;> rfl

theorem follows_moveProbe (hprobe : probeBefore[i]? = some site.probe)
    (hlabel : layout.labels[i]? = some label) (hlt : label + Probe.length < 2 ^ 32) :
  Editor.Follows ((Layout.of layout).moveProbe context probeBefore i)
    (match site.probe with
      | some probe => Probe.instructions context label probe
      | none => pure [])
  := by
  have hprobe : (item probeBefore i : Editor (Option Nat)) = pure site.probe := item_eq hprobe
  have hlabel : (item (Layout.of layout).labels i : Editor Nat) = pure label :=
    item_eq (by rw [Layout.of, Array.getElem?_toList, hlabel])
  rw [Layout.moveProbe, hprobe, pure_bind]
  cases site.probe with
  | none => apply Editor.follows_pure
  | some probe =>
    simp only [hlabel, pure_bind]
    exact follows_probeAt context probe hlt

theorem follows_moveInstruction (hfull : IsFull layout) {insn : Instruction}
    (hprobe : probeBefore[i]? = some site.probe) (hsite : layout.sites[i]? = some site)
    (hlabel : layout.labels[i]? = some label) (hlt : label + Probe.length < 2 ^ 32) :
  Editor.Follows ((Layout.of layout).moveInstruction context probeBefore insn i)
    (layout.moveInstruction context insn.op site label)
  := by
  have hwidened : (item (Layout.of layout).widened i : Editor Bool) = pure site.widened := by
    apply item_eq
    rw [Layout.of, List.getElem?_map, Array.getElem?_toList, hsite]
    rfl
  have hposition : (item (Layout.of layout).positions i : Editor Nat)
      = pure (site.position label) := by
    apply item_eq
    have hplace : layout.places[i]? = some (site, label) :=
      List.getElem?_zip_eq_some.mpr ⟨by simpa using hsite, by simpa using hlabel⟩
    rw [Layout.of, List.getElem?_map, hplace]
    rfl
  rw [moveInstruction_eq]
  apply (follows_moveProbe hprobe hlabel hlt).bind
  intro probe _
  simp only [hwidened, hposition, pure_bind]
  apply (Editor.follows_lift (moveOperation_of hfull insn.op)).bind
  intro op _
  apply Editor.follows_pure

theorem follows_moveInstructions {code : Code} {probeAt : Nat → Option Nat}
    (hlayout : layout.IsFor code probeAt)
    (hprobes : probeBefore = layout.sites.toList.map Site.probe) :
  Editor.Follows
    ((Layout.of layout).moveInstructions context probeBefore code.instructions)
    (layout.moveInstructions context code.instructions)
  := by
  have hfull := isFull_of_isFor hlayout
  have hlength : code.instructions.length = layout.places.length := by
    rw [← hlayout.map_insn_places, List.length_map]
  refine Editor.Follows.bind (Editor.follows_mapM ?_) fun pieces _ => Editor.follows_pure _
  rw [List.forall₂_iff_get]
  constructor
  · rw [List.length_zipIdx, List.length_zip, ← JvmCoverage.Layout.places, ← hlength, Nat.min_self]
  · intro i hi hi'
    have hlt : i < layout.places.length := by
      rw [← hlength]
      simpa using hi
    obtain ⟨⟨site, label⟩, hplace⟩ : ∃ place, layout.places[i]? = some place :=
      ⟨_, List.getElem?_eq_getElem hlt⟩
    obtain ⟨hsite, hlabel⟩ := List.getElem?_zip_eq_some.mp hplace
    have hlimit := hlayout.limit_le (List.mem_of_getElem? hplace)
    have hlabelLt := site.label_lt_limit label
    have hbound : label + Probe.length < 2 ^ 32 := by
      have hle : layout.length ≤ 65535 := hlayout.length_le
      have hprobe : Probe.length = 9 := rfl
      omega
    have hprobe : probeBefore[i]? = some site.probe := by
      rw [hprobes, List.getElem?_map, hsite]
      rfl
    have hget : layout.places[i] = (site, label) :=
      Option.some.inj ((List.getElem?_eq_getElem hlt).symm.trans hplace)
    rw [List.get_eq_getElem, List.get_eq_getElem, List.getElem_zipIdx, List.getElem_zip]
    change Editor.Follows ((Layout.of layout).moveInstruction context probeBefore _ (0 + i))
      (layout.moveInstruction context _ layout.places[i].1 layout.places[i].2)
    rw [hget, Nat.zero_add]
    exact follows_moveInstruction hfull hprobe (by simpa using hsite) (by simpa using hlabel) hbound

end Instructions

/-! ## Methods -/

section Methods

variable {plan : JvmCoverage.MethodPlan} {code : Code} {pool : ConstantPool} {m : Method}
variable {methods : Array Method} {context : Probe.Context} {className : String}

theorem probeCount_of (plan : JvmCoverage.MethodPlan) :
  (MethodPlan.of plan).probeCount = plan.probeCount
  := by
  rw [MethodPlan.probeCount, MethodPlan.of, Array.countP_toList, JvmCoverage.MethodPlan.probeCount]

/-- A method has fewer probes than instructions. -/
theorem probeCount_le {first : Nat} (hplan : plan.IsOf code first) (hcode : code.WellFormed pool) :
  plan.probeCount ≤ 65535
  := by
  have hlaid := isLaid_of_wellFormed hcode
  obtain ⟨-, hplaced⟩ := graph_eq (m := Checked InstrumentError) hlaid hcode.ne_nil
  have hblocks := hplaced.length_le
  have hcount := hlaid.count_le
  have hprobes : plan.probeCount ≤ plan.blockProbes.size := Array.countP_le_size
  rw [hplan.size_eq, hplan.graph_eq] at hprobes
  rw [Array.length_toList] at hblocks
  omega

theorem capacity_of {first : Nat} (hplan : plan.IsOf code first) (hcode : code.WellFormed pool) :
  (MethodPlan.of plan).capacity code
    = pure (code.instructions.length + 3 * plan.probeCount)
  := by
  have hprobes := probeCount_le hplan hcode
  have hcount := (isLaid_of_wellFormed hcode).count_le
  rw [MethodPlan.capacity, probeCount_of, mul_eq (by omega), pure_bind, add_eq (by omega)]

/-- The moved code, from its instructions and then its tables. -/
theorem moveCode_eq (layout : JvmCoverage.Layout) (context : Probe.Context) (code : Code) :
  layout.moveCode context code
    = layout.moveInstructions context code.instructions >>= fun instructions =>
      Editor.answer (layout.moveTables code) >>= fun tables =>
        pure { maxStack := code.maxStack + UInt16.ofNat Probe.operands
               maxLocals := code.maxLocals
               instructions, handlers := tables.1, attributes := tables.2 }
  := by
  unfold JvmCoverage.Layout.moveCode
  congr
  funext instructions
  cases layout.moveTables code <;> rfl

theorem follows_moveCode {first : Nat} (hplan : plan.IsOf code first)
    (hcode : code.WellFormed pool) :
  Editor.Follows ((MethodPlan.of plan).moveCode context code) (plan.layout.moveCode context code)
  := by
  have hmaxStack : (add16 code.maxStack (UInt16.ofNat Probe.operands) : Editor UInt16)
      = pure (code.maxStack + UInt16.ofNat Probe.operands) := by
    apply add16_eq
    have hroom := hplan.room
    have hmax : JvmCoverage.PlannedMethod.maxOperands = 65535 := rfl
    have hoperands : (UInt16.ofNat Probe.operands).toNat = Probe.operands := rfl
    omega
  rw [MethodPlan.moveCode, capacity_of hplan hcode, pure_bind, moveCode_eq, hmaxStack]
  simp only [pure_bind]
  apply (follows_moveInstructions hplan.layout rfl).bind
  intro instructions _
  have htables := moveTables_of hplan.layout hcode.instructions.tiles hcode
  apply (Editor.follows_lift htables).bind
  intro tables _
  apply Editor.follows_pure

theorem follows_applyMethod (hin : plan.IsIn pool methods m code) :
  Editor.Follows (ClassPlan.applyMethod className context methods (.of plan))
    (JvmCoverage.ClassPlan.applyMethod className context methods plan)
  := by
  obtain ⟨first, hplan⟩ := hin.isOf
  have hne : (MethodPlan.of plan).probeCount ≠ 0 := by
    rw [probeCount_of]
    exact hplan.probeCount_ne_zero
  have hmethod : methods[(MethodPlan.of plan).method]? = some m := hin.method
  rw [JvmCoverage.ClassPlan.applyMethod_eq hin, ClassPlan.applyMethod, if_neg hne, hmethod]
  simp only [hin.body]
  exact (follows_moveCode hplan hin.wellFormed).bind fun moved _ => Editor.follows_pure _

theorem follows_foldlM {plans : List JvmCoverage.MethodPlan}
    (hordered : plans.Pairwise fun a b => a.method < b.method)
    (hplans : ∀ plan ∈ plans, ∃ m code, plan.IsIn pool methods m code) :
  Editor.Follows ((plans.map MethodPlan.of).foldlM (ClassPlan.applyMethod className context) methods)
    (plans.foldlM (JvmCoverage.ClassPlan.applyMethod className context) methods)
  := by
  induction plans generalizing methods with
  | nil => apply Editor.follows_pure
  | cons plan plans ih =>
    obtain ⟨hlt, hordered⟩ := List.pairwise_cons.mp hordered
    obtain ⟨⟨m, code, hin⟩, hplans⟩ := List.forall_mem_cons.mp hplans
    rw [List.map_cons, List.foldlM_cons, List.foldlM_cons]
    apply (follows_applyMethod hin).bind
    rintro methods' ⟨before, later, hyields⟩
    rw [JvmCoverage.ClassPlan.applyMethod_eq hin, PoolBuilder.yields_bind] at hyields
    obtain ⟨moved, middle, -, hpure⟩ := hyields
    obtain ⟨rfl, -⟩ := PoolBuilder.yields_pure.mp hpure
    apply ih hordered
    intro plan' hplan'
    obtain ⟨m', code', hin'⟩ := hplans plan' hplan'
    exact ⟨m', code', (JvmCoverage.ClassPlan.isIn_set (hlt plan' hplan').ne).mpr hin'⟩

end Methods

/-! ## Classes -/

theorem follows_addContext (bridge : Bridge) (segment : UInt32) :
  Editor.Follows (ClassPlan.addContext bridge segment)
    (JvmCoverage.ClassPlan.addContext bridge segment)
  := (Editor.follows_methodRef _ _ _).bind fun _ _ =>
    (Editor.follows_integer _).bind fun _ _ => Editor.follows_pure _

/-- Putting the probes of a plan into a class does not fault. -/
theorem apply_eq {plan : JvmCoverage.ClassPlan} {bridge : Bridge} {c : ClassFile}
    (hplan : plan.IsOf bridge c) (hc : c.WellFormed) (segment : UInt32) :
  (ClassPlan.of plan).apply segment c = faultless (plan.apply segment c)
  := by
  have hfollows : Editor.Follows
      ((ClassPlan.of plan).applyMethods segment c.methods.toArray)
      (plan.applyMethods segment c.methods.toArray) :=
    (follows_addContext plan.bridge segment).bind fun context _ =>
      follows_foldlM hplan.ordered fun methodPlan hmem =>
        JvmCoverage.ClassPlan.isIn_of_plans hplan hc hmem
  obtain ⟨hrun, -⟩ := hfollows c.pool hc.pool.count_le
  rw [ClassPlan.apply, JvmCoverage.ClassPlan.apply, hrun, ClassBuilder.addTo]
  by_cases hempty : plan.isEmpty = true
  · rw [if_pos hempty]
    exact if_pos hempty
  · rw [if_neg hempty]
    refine (if_neg hempty).trans ?_
    cases (plan.applyMethods segment c.methods.toArray).run.run c.pool with
    | mk result later => cases result <;> rfl

end JvmCoverage.Machine
