import JvmCoverage.Proofs.Simulation
import JvmCoverage.Proofs.Unchanged
import Mathlib.Data.List.Perm.Subperm

/-!
# The number of the segment

The number of the segment may be in the pool already, and the pool may get it for the sake of a
probe; so with another number every probe may find what it pushes in another slot.  Still probes are
put into a class with one number exactly when they are with another, and the results differ only in
the slots of the integers that probes push, and by at most one entry in their pools
(`ClassPlan.alike_of_read`).
-/

namespace JvmCoverage

/-! ## Pools side by side -/

namespace ConstantPool

/-- Whether the entries of `pool` are among those of `other` and one more, `c`. -/
def Exceeds (c : Constant) (pool other : ConstantPool) : Prop :=
  pool.entries.toList.Subperm (c :: other.entries.toList)

/-- Whether the pools have the same entries, but for one `c` in the first and one `c'` in the
second. -/
structure Beside (c c' : Constant) (pool pool' : ConstantPool) : Prop where
  left : Exceeds c pool pool'
  right : Exceeds c' pool' pool

variable {c c' : Constant} {pool pool' later later' : ConstantPool}

theorem Exceeds.count_le (h : Exceeds c pool pool') :
  pool.count ≤ pool'.count + 1
  := by
  have hle := h.length_le
  rwa [List.length_cons, Array.length_toList, Array.length_toList] at hle

end ConstantPool

namespace PoolBuilder

open ConstantPool

variable {c c' d : Constant} {pool pool' later later' : ConstantPool} {index index' : UInt16}

/-- Asking for an entry that is there leaves the pool as it is; otherwise it is added. -/
theorem mem_or_pushed (hwide : d.isWide = false) (h : (intern d).Yields pool index later) :
  d ∈ pool.entries.toList ∧ later = pool ∨ d ∉ pool.entries.toList ∧ later = pushed pool d
  := by
  have hinterned := interned_intern pool hwide
  rw [Yields] at h
  rw [h] at hinterned
  cases hinterned with
  | found hindex =>
    obtain ⟨hlt, heq, -⟩ := Array.findIdx?_eq_some_iff_getElem.mp hindex
    refine .inl ⟨?_, rfl⟩
    rw [← beq_iff_eq.mp heq]
    exact Array.getElem_mem_toList hlt
  | added hindex _ =>
    refine .inr ⟨?_, rfl⟩
    intro hmem
    have hne := Array.findIdx?_eq_none_iff.mp hindex d (Array.mem_toList_iff.mp hmem)
    simp at hne

theorem extends_of_yields (hwide : d.isWide = false) (h : (intern d).Yields pool index later) :
  ∃ room, pool.Extends later room
  := by
  rcases mem_or_pushed hwide h with ⟨-, rfl⟩ | ⟨-, rfl⟩
  · exact ⟨0, .refl _⟩
  · exact ⟨1, extends_pushed pool d⟩

/-- Two pools that are asked for the same entry stay as they are to each other. -/
theorem exceeds_intern (hwide : d.isWide = false) (h : Exceeds c pool pool')
    (hyields : (intern d).Yields pool index later)
    (hyields' : (intern d).Yields pool' index' later') :
  Exceeds c later later'
  := by
  rw [Exceeds] at h ⊢
  rcases mem_or_pushed hwide hyields with ⟨-, hlater⟩ | ⟨hnot, hlater⟩
  · -- nothing is added to the first pool
    obtain ⟨room, ⟨new, hnew⟩, -⟩ := extends_of_yields hwide hyields'
    rw [hlater, hnew, ← List.cons_append]
    exact h.trans (List.sublist_append_left _ new).subperm
  · rw [hlater, toList_pushed]
    rcases mem_or_pushed hwide hyields' with ⟨hmem, hlater'⟩ | ⟨-, hlater'⟩
    · -- what is added to the first pool is not counted there, but in the second
      have hcount : pool.entries.toList.count d < (c :: pool'.entries.toList).count d := by
        rw [List.count_eq_zero_of_not_mem hnot]
        exact List.count_pos_iff.mpr (List.mem_cons_of_mem c hmem)
      rw [hlater']
      exact (List.perm_append_singleton d _).subperm.trans (h.cons_left d hcount)
    · rw [hlater', toList_pushed, ← List.cons_append]
      exact (List.subperm_append_right _).mpr h

/-- Asking for one entry leaves a pool with at most that one more than before. -/
theorem exceeds_of_yields (hwide : c.isWide = false)
    (hyields : (intern c).Yields pool index later)
    (hextends : ∃ room, pool.Extends later' room) :
  Exceeds c later later'
  := by
  obtain ⟨room, ⟨new, hnew⟩, -⟩ := hextends
  rw [Exceeds, hnew]
  rcases mem_or_pushed hwide hyields with ⟨-, rfl⟩ | ⟨-, rfl⟩
  · exact ((List.sublist_append_left _ new).trans (List.sublist_cons_self c _)).subperm
  · rw [toList_pushed]
    exact (List.perm_append_singleton c _).subperm.trans
      ((List.subperm_cons c).mpr (List.sublist_append_left _ new).subperm)

/-! ## Additions side by side -/

variable {α β γ : Type}

/-- Whether the additions `b` and `b'`, when both succeed, leave pools that are side by side so, and
give things that are related. -/
def Twins (c c' : Constant) (b b' : PoolBuilder α) (rel : α → α → Prop) : Prop :=
  ∀ pool pool' a a' later later', Beside c c' pool pool' → b.Yields pool a later →
    b'.Yields pool' a' later' → rel a a' ∧ Beside c c' later later'

variable {b b' : PoolBuilder α} {rel : α → α → Prop} {rel' : β → β → Prop}

theorem twins_pure {a a' : α} (h : rel a a') :
  Twins c c' (pure a) (pure a') rel
  := by
  intro pool pool' x x' later later' hpools hyields hyields'
  obtain ⟨rfl, rfl⟩ := yields_pure.mp hyields
  obtain ⟨rfl, rfl⟩ := yields_pure.mp hyields'
  exact ⟨h, hpools⟩

theorem twins_throw (e : InstrumentError) (b' : PoolBuilder α) (rel : α → α → Prop) :
  Twins c c' (throw e) b' rel
  := fun _ _ _ _ _ _ _ hyields _ => absurd hyields not_yields_throw

theorem Twins.imp {rel' : α → α → Prop} (h : Twins c c' b b' rel)
    (himp : ∀ a a', rel a a' → rel' a a') :
  Twins c c' b b' rel'
  := by
  intro pool pool' a a' later later' hpools hyields hyields'
  obtain ⟨hrel, hlater⟩ := h pool pool' a a' later later' hpools hyields hyields'
  exact ⟨himp a a' hrel, hlater⟩

theorem Twins.bind {f f' : α → PoolBuilder β} (h : Twins c c' b b' rel)
    (h' : ∀ a a', rel a a' → Twins c c' (f a) (f' a') rel') :
  Twins c c' (b >>= f) (b' >>= f') rel'
  := by
  intro pool pool' y y' later later' hpools hyields hyields'
  obtain ⟨a, middle, hb, hf⟩ := yields_bind.mp hyields
  obtain ⟨a', middle', hb', hf'⟩ := yields_bind.mp hyields'
  obtain ⟨hrel, hmiddle⟩ := h pool pool' a a' middle middle' hpools hb hb'
  exact h' a a' hrel middle middle' y y' later later' hmiddle hf hf'

theorem twins_mapM {f f' : γ → PoolBuilder α} {xs : List γ}
    (h : ∀ x ∈ xs, Twins c c' (f x) (f' x) rel) :
  Twins c c' (xs.mapM f) (xs.mapM f') (List.Forall₂ rel)
  := by
  induction xs with
  | nil => exact twins_pure .nil
  | cons x xs ih =>
    obtain ⟨hx, hxs⟩ := List.forall_mem_cons.mp h
    rw [List.mapM_cons, List.mapM_cons]
    exact hx.bind fun a a' ha => (ih hxs).bind fun as as' has => twins_pure (.cons ha has)

theorem twins_integer (value : Int32) :
  Twins c c' (integer value) (integer value) fun _ _ => True
  := by
  intro pool pool' index index' later later' hpools hyields hyields'
  exact ⟨trivial, exceeds_intern rfl hpools.left hyields hyields',
    exceeds_intern rfl hpools.right hyields' hyields⟩

end PoolBuilder

/-! ## Probes side by side -/

/-- Whether the instructions are the same, or push integers of the pool at an offset in `range`. -/
inductive Instruction.Alike (range : Nat → Prop) : Instruction → Instruction → Prop where
  | same (insn : Instruction) : Alike range insn insn
  | constant {offset : Nat} (h : range offset) (index index' : UInt16) :
      Alike range ⟨offset, Probe.pushInteger index⟩ ⟨offset, Probe.pushInteger index'⟩

theorem Instruction.Alike.imp {range range' : Nat → Prop} {insn insn' : Instruction}
    (h : insn.Alike range insn') (himp : ∀ offset, range offset → range' offset) :
  insn.Alike range' insn'
  := by
  cases h with
  | same => exact .same insn
  | constant h index index' => exact .constant (himp _ h) index index'

open PoolBuilder

variable {c c' : Constant} {context context' : Probe.Context}

namespace Probe

/-- The number of a counter is pushed in the same way, perhaps from another slot. -/
theorem twins_pushCounter (number : Nat) :
  Twins c c' (pushCounter number) (pushCounter number) fun op op' =>
    (∀ offset, op.size offset = 3 ∧ op'.size offset = 3)
      ∧ ∀ (range : Nat → Prop) offset, range offset →
        Instruction.Alike range ⟨offset, op⟩ ⟨offset, op'⟩
  := by
  unfold pushCounter
  split
  · exact twins_pure ⟨fun _ => ⟨rfl, rfl⟩, fun _ _ _ => .same _⟩
  · rw [map_eq_pure_bind]
    apply (twins_integer _).bind
    intro index index' _
    exact twins_pure ⟨fun _ => ⟨rfl, rfl⟩, fun _ _ h => .constant h index index'⟩

/-- Probes that call the bridge by the same slot are alike. -/
theorem twins_instructions (hbridge : context'.bridge = context.bridge) (offset number : Nat) :
  Twins c c' (instructions context offset number) (instructions context' offset number)
    (List.Forall₂ (Instruction.Alike fun at' => offset ≤ at' ∧ at' < offset + length))
  := by
  apply (twins_pushCounter number).bind
  rintro op op' ⟨hsize, hop⟩
  apply twins_pure
  have hpush (index : UInt16) (offset : Nat) : (pushInteger index).size offset = 3 := rfl
  simp only [runFrom, Instruction.limit, hpush, hsize, hbridge]
  refine .cons (.constant ?_ _ _) (.cons (hop _ _ ?_) (.cons (.same _) .nil))
  · simp [length]
  · simp [length]

end Probe

/-! ## Bodies side by side -/

/-- Whether the bodies are the same but for the slots of the integers that probes push. -/
structure Code.Alike (layout : Layout) (moved moved' : Code) : Prop where
  offsets : moved'.instructions.map Instruction.offset = moved.instructions.map Instruction.offset
  opcodes : moved'.instructions.map (·.op.opcode) = moved.instructions.map (·.op.opcode)
  targets : moved'.instructions.map (·.op.targets) = moved.instructions.map (·.op.targets)
  instructions : List.Forall₂ (Instruction.Alike layout.InProbe) moved.instructions
    moved'.instructions
  handlers : moved'.handlers = moved.handlers
  attributes : moved'.attributes = moved.attributes
  maxStack : moved'.maxStack = moved.maxStack
  maxLocals : moved'.maxLocals = moved.maxLocals

/-- What does not depend on the slot that a probe pushes from is the same of instructions that are
alike. -/
theorem Instruction.map_eq_of_alike {α : Type} {f : Instruction → α}
    (hf : ∀ offset index index', f ⟨offset, Probe.pushInteger index'⟩
      = f ⟨offset, Probe.pushInteger index⟩) {range : Nat → Prop}
    {insns insns' : List Instruction} (h : List.Forall₂ (Instruction.Alike range) insns insns') :
  insns'.map f = insns.map f
  := by
  induction h with
  | nil => rfl
  | cons hinsn _ ih =>
    rw [List.map_cons, List.map_cons, ih]
    cases hinsn with
    | same => rfl
    | constant _ index index' => rw [hf]

namespace Layout

variable {layout : Layout} {code : Code} {probeAt : Nat → Option Nat} {limit : Nat}

/-- The probe of a site comes first, if it has one. -/
theorem moveInstruction_eq (layout : Layout) (context : Probe.Context) (op : Operation)
    (site : Site) (label : Nat) :
  layout.moveInstruction context op site label = (do
    let front ← (site.probe.map (Probe.instructions context label)).getD (pure [])
    match layout.moveOperation op with
    | .ok op => return front ++ [⟨site.position label, if site.widened then op.widen else op⟩]
    | .error fault => throw (.encode fault))
  := by
  unfold moveInstruction
  cases site.probe <;> rfl

/-- An instruction and its probe are moved in the same way. -/
theorem twins_moveInstruction (layout : Layout) (hbridge : context'.bridge = context.bridge)
    (op : Operation) (site : Site) (label : Nat) :
  Twins c c' (layout.moveInstruction context op site label)
    (layout.moveInstruction context' op site label)
    (List.Forall₂ (Instruction.Alike fun offset => label ≤ offset ∧ offset < site.position label))
  := by
  have hprobe : Twins c c' ((site.probe.map (Probe.instructions context label)).getD (pure []))
      ((site.probe.map (Probe.instructions context' label)).getD (pure []))
      (List.Forall₂ (Instruction.Alike fun offset =>
        label ≤ offset ∧ offset < site.position label)) := by
    cases hprobe : site.probe with
    | none => exact twins_pure .nil
    | some number =>
      rw [Site.position_of_probe hprobe]
      exact Probe.twins_instructions hbridge label number
  rw [moveInstruction_eq, moveInstruction_eq]
  apply hprobe.bind
  intro front front' hfront
  cases layout.moveOperation op with
  | ok op => exact twins_pure (List.rel_append hfront (.cons (.same _) .nil))
  | error fault => exact twins_throw _ _ _

/-- The instructions of code are moved in the same way. -/
theorem twins_moveInstructions (hbridge : context'.bridge = context.bridge)
    (hlayout : layout.IsFor code probeAt) (htiles : CodeArray.Tiles 0 code.instructions limit) :
  Twins c c' (layout.moveInstructions context code.instructions)
    (layout.moveInstructions context' code.instructions)
    (List.Forall₂ (Instruction.Alike layout.InProbe))
  := by
  refine (twins_mapM fun place hmem => ?_).bind fun pieces pieces' hpieces =>
    twins_pure (List.rel_flatten hpieces)
  have hplace := (List.of_mem_zip hmem).2
  apply (layout.twins_moveInstruction hbridge place.1.op place.2.1 place.2.2).imp
  intro insns insns' hinsns
  apply hinsns.imp
  intro insn insn' hinsn
  apply hinsn.imp
  exact fun offset hrange => (hlayout.inProbe_iff htiles).mpr ⟨_, _, hplace, hrange⟩

/-- A body is moved in the same way. -/
theorem twins_moveCode (hbridge : context'.bridge = context.bridge)
    (hlayout : layout.IsFor code probeAt) (htiles : CodeArray.Tiles 0 code.instructions limit) :
  Twins c c' (layout.moveCode context code) (layout.moveCode context' code) (Code.Alike layout)
  := by
  apply (twins_moveInstructions hbridge hlayout htiles).bind
  intro insns insns' hinsns
  cases layout.moveTables code with
  | error fault => exact twins_throw _ _ _
  | ok tables =>
    apply twins_pure
    exact {
      offsets := Instruction.map_eq_of_alike (fun _ _ _ => rfl) hinsns
      opcodes := Instruction.map_eq_of_alike (fun _ _ _ => rfl) hinsns
      targets := Instruction.map_eq_of_alike (fun _ _ _ => rfl) hinsns
      instructions := hinsns
      handlers := rfl
      attributes := rfl
      maxStack := rfl
      maxLocals := rfl }

end Layout

/-! ## Methods side by side -/

/-- Methods that got bodies in place of the same body differ in these. -/
theorem Method.differsInBody_mapCode_mapCode {m : Method} {code : Code} (h : m.code? = some code)
    (moved moved' : Code) :
  (m.mapCode fun _ => moved).DiffersInBody (m.mapCode fun _ => moved') moved moved'
  := by
  obtain ⟨front, nameIndex, back, hattributes, hfront⟩ := exists_front h
  refine ⟨rfl, front, nameIndex, back, ?_, ?_, hfront⟩
  · rw [mapCode, hattributes]
    apply mapCode_go _ hfront
  · rw [mapCode, hattributes]
    apply mapCode_go _ hfront

namespace ClassPlan

variable {className : String} {base : ConstantPool} {methods methods' : Array Method}
  {methodPlan : MethodPlan} {plans : List MethodPlan} {m : Method} {code : Code}

/-- A method that two classes share gets bodies that are alike. -/
theorem twins_applyMethod (hbridge : context'.bridge = context.bridge)
    (hin : methodPlan.IsIn base methods m code) (hin' : methodPlan.IsIn base methods' m code) :
  Twins c c' (applyMethod className context methods methodPlan)
    (applyMethod className context' methods' methodPlan) fun done done' =>
      ∃ moved moved', moved.Alike methodPlan.layout moved'
        ∧ done = methods.setIfInBounds methodPlan.method (m.mapCode fun _ => moved)
        ∧ done' = methods'.setIfInBounds methodPlan.method (m.mapCode fun _ => moved')
  := by
  obtain ⟨first, hof⟩ := hin.isOf
  rw [applyMethod_eq hin, applyMethod_eq hin']
  apply (Layout.twins_moveCode hbridge hof.layout hin.wellFormed.instructions.tiles).bind
  intro moved moved' hmoved
  exact twins_pure ⟨moved, moved', hmoved, rfl, rfl⟩

/-- Whether `done` and `done'` are `methods` and `methods'` but for bodies that are alike in the
planned methods. -/
structure AreAlike (plans : List MethodPlan) (methods methods' done done' : Array Method) :
    Prop where
  others : ∀ i : Nat, (∀ methodPlan ∈ plans, methodPlan.method ≠ i) →
    done[i]? = methods[i]? ∧ done'[i]? = methods'[i]?
  planned : ∀ methodPlan ∈ plans, ∃ (m : Method) (code moved moved' : Code), m.code? = some code
    ∧ moved.Alike methodPlan.layout moved'
    ∧ done[methodPlan.method]? = some (m.mapCode fun _ => moved)
    ∧ done'[methodPlan.method]? = some (m.mapCode fun _ => moved')

/-- Methods get bodies that are alike. -/
theorem twins_foldlM (hbridge : context'.bridge = context.bridge)
    (hordered : plans.Pairwise fun a b => a.method < b.method)
    (hplans : ∀ methodPlan ∈ plans, ∃ m code, methodPlan.IsIn base methods m code
      ∧ methodPlan.IsIn base methods' m code) :
  Twins c c' (plans.foldlM (applyMethod className context) methods)
    (plans.foldlM (applyMethod className context') methods') (AreAlike plans methods methods')
  := by
  induction plans generalizing methods methods' with
  | nil => exact twins_pure ⟨fun _ _ => ⟨rfl, rfl⟩, by simp⟩
  | cons methodPlan plans ih =>
    obtain ⟨hlt, hordered⟩ := List.pairwise_cons.mp hordered
    obtain ⟨⟨m, code, hin, hin'⟩, hplans⟩ := List.forall_mem_cons.mp hplans
    rw [List.foldlM_cons, List.foldlM_cons]
    apply (twins_applyMethod hbridge hin hin').bind
    rintro _ _ ⟨moved, moved', halike, rfl, rfl⟩
    apply (ih hordered ?_).imp
    · rintro done done' ⟨hothers, hplanned⟩
      constructor
      · intro i hi
        obtain ⟨hne, hi⟩ := List.forall_mem_cons.mp hi
        obtain ⟨hdone, hdone'⟩ := hothers i hi
        rw [hdone, hdone', Array.getElem?_setIfInBounds_ne hne, Array.getElem?_setIfInBounds_ne hne]
        exact ⟨rfl, rfl⟩
      · rw [List.forall_mem_cons]
        refine ⟨⟨m, code, moved, moved', hin.body, halike, ?_⟩, hplanned⟩
        obtain ⟨hdone, hdone'⟩ := hothers methodPlan.method fun plan' hplan' =>
          (hlt plan' hplan').ne'
        have hsize := (Array.getElem?_eq_some_iff.mp hin.method).1
        have hsize' := (Array.getElem?_eq_some_iff.mp hin'.method).1
        rw [hdone, hdone', Array.getElem?_setIfInBounds_self_of_lt hsize,
          Array.getElem?_setIfInBounds_self_of_lt hsize']
        exact ⟨rfl, rfl⟩
    · intro plan' hplan'
      obtain ⟨m', code', hin₁, hin₂⟩ := hplans plan' hplan'
      have hne := (hlt plan' hplan').ne
      exact ⟨m', code', (isIn_set hne).mpr hin₁, (isIn_set hne).mpr hin₂⟩

/-! ## Classes side by side -/

variable {bridge : Bridge} {segment segment' : UInt32} {pool later later' : ConstantPool}

/-- What all probes share is the same but for the slot of the number of the segment. -/
theorem beside_addContext (h : (addContext bridge segment).Yields pool context later)
    (h' : (addContext bridge segment').Yields pool context' later') :
  context'.bridge = context.bridge
    ∧ ConstantPool.Beside (.integer segment.toInt32) (.integer segment'.toInt32) later later'
  := by
  obtain ⟨index, middle, hmethod, h⟩ := yields_bind.mp h
  obtain ⟨index', middle', hmethod', h'⟩ := yields_bind.mp h'
  obtain ⟨rfl, rfl⟩ := hmethod.unique hmethod'
  obtain ⟨number, next, hinteger, h⟩ := yields_bind.mp h
  obtain ⟨number', next', hinteger', h'⟩ := yields_bind.mp h'
  obtain ⟨rfl, rfl⟩ := yields_pure.mp h
  obtain ⟨rfl, rfl⟩ := yields_pure.mp h'
  exact ⟨rfl, exceeds_of_yields rfl hinteger (extends_of_yields rfl hinteger'),
    exceeds_of_yields rfl hinteger' (extends_of_yields rfl hinteger)⟩

/-- Whether the classes are the same but for entries of their pools and the slots of the integers
that probes push. -/
structure Alike (plan : ClassPlan) (c₁ c₂ : ClassFile) : Prop where
  /-- Version, flags, names, interfaces, fields and attributes are the same. -/
  eq : c₂ = { c₁ with pool := c₂.pool, methods := c₂.methods }
  count_le : c₁.pool.count ≤ c₂.pool.count + 1 ∧ c₂.pool.count ≤ c₁.pool.count + 1
  others : ∀ i : Nat, (∀ methodPlan ∈ plan.planned, methodPlan.method ≠ i) →
    c₂.methods[i]? = c₁.methods[i]?
  planned : ∀ methodPlan ∈ plan.planned, ∃ m₁ m₂ moved₁ moved₂,
    c₁.methods[methodPlan.method]? = some m₁ ∧ c₂.methods[methodPlan.method]? = some m₂
      ∧ m₁.DiffersInBody m₂ moved₁ moved₂ ∧ moved₁.Alike methodPlan.layout moved₂

variable {plan : ClassPlan} {cls c₁ c₂ : ClassFile}

/-- Classes with the same probes for two segments are alike. -/
theorem alike_of_apply (hplan : plan.IsOf bridge cls) (hcls : cls.WellFormed)
    (h₁ : plan.apply segment cls = .ok c₁) (h₂ : plan.apply segment' cls = .ok c₂) :
  plan.Alike c₁ c₂
  := by
  rw [apply_eq_ok] at h₁ h₂
  cases hempty : plan.isEmpty with
  | true =>
    obtain rfl : c₁ = cls := by simpa [hempty] using h₁
    obtain rfl : c₂ = c₁ := by simpa [hempty] using h₂
    refine ⟨rfl, ⟨Nat.le_succ _, Nat.le_succ _⟩, fun _ _ => rfl, ?_⟩
    simp [hplan.isEmpty_iff.mp hempty]
  | false =>
    simp only [hempty, Bool.false_eq_true, false_and, false_or, true_and] at h₁ h₂
    obtain ⟨done₁, later₁, hyields₁, rfl⟩ := h₁
    obtain ⟨done₂, later₂, hyields₂, rfl⟩ := h₂
    obtain ⟨context₁, middle₁, hcontext₁, hfold₁⟩ := yields_bind.mp hyields₁
    obtain ⟨context₂, middle₂, hcontext₂, hfold₂⟩ := yields_bind.mp hyields₂
    obtain ⟨hbridge, hmiddle⟩ := beside_addContext hcontext₁ hcontext₂
    have hplans : ∀ methodPlan ∈ plan.planned, ∃ m code,
        methodPlan.IsIn cls.pool cls.methods.toArray m code
          ∧ methodPlan.IsIn cls.pool cls.methods.toArray m code := by
      intro methodPlan hmem
      obtain ⟨m, code, hin⟩ := isIn_of_plans hplan hcls hmem
      exact ⟨m, code, hin, hin⟩
    obtain ⟨halike, hlater⟩ := twins_foldlM hbridge hplan.ordered hplans _ _ _ _ _ _ hmiddle hfold₁
      hfold₂
    refine ⟨rfl, ⟨hlater.left.count_le, hlater.right.count_le⟩, ?_, ?_⟩
    · intro i hi
      obtain ⟨hdone₁, hdone₂⟩ := halike.others i hi
      simpa using hdone₂.trans hdone₁.symm
    · intro methodPlan hmem
      obtain ⟨m, code, moved₁, moved₂, hcode, hmoved, hm₁, hm₂⟩ := halike.planned methodPlan hmem
      exact ⟨_, _, moved₁, moved₂, by simpa using hm₁, by simpa using hm₂,
        Method.differsInBody_mapCode_mapCode hcode moved₁ moved₂, hmoved⟩

/-- The number of the segment decides neither whether probes can be put into a class that was read
nor what becomes of it, but for pool entries. -/
theorem alike_of_read {bytes : List UInt8} {policy : Policy}
    (hread : ClassFile.read bytes = .ok cls) (hplan : ofClass policy cls = .ok plan)
    (segment segment' : UInt32) :
  ((∃ c₁, plan.apply segment cls = .ok c₁) ↔ ∃ c₂, plan.apply segment' cls = .ok c₂)
    ∧ ∀ c₁ c₂, plan.apply segment cls = .ok c₁ → plan.apply segment' cls = .ok c₂ →
      plan.Alike c₁ c₂
  := by
  obtain ⟨hcls, hof⟩ := isOf_of_read hread hplan
  constructor
  · rw [exists_apply_iff hread hplan segment, exists_apply_iff hread hplan segment']
  · exact fun c₁ c₂ h₁ h₂ => alike_of_apply hof hcls h₁ h₂

theorem alike_jumpClass :
  ClassFile.read ClassFile.jumpClass.form = .ok ClassFile.jumpClass
    ∧ ∃ plan c₁ c₂, ofClass {} ClassFile.jumpClass = .ok plan ∧ plan.planned ≠ []
      ∧ plan.apply 0 ClassFile.jumpClass = .ok c₁ ∧ plan.apply 7 ClassFile.jumpClass = .ok c₂
      ∧ plan.Alike c₁ c₂
  := by
  obtain ⟨plan, c₁, hplan, hne, h₁⟩ := exists_probed_jumpClass
  obtain ⟨hiff, halike⟩ := alike_of_read ClassFile.read_form_jumpClass hplan 0 7
  obtain ⟨c₂, h₂⟩ := hiff.mp ⟨c₁, h₁⟩
  exact ⟨ClassFile.read_form_jumpClass, plan, c₁, c₂, hplan, hne, h₁, h₂, halike c₁ c₂ h₁ h₂⟩

end ClassPlan

end JvmCoverage
