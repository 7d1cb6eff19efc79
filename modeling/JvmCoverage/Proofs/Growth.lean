import JvmCoverage.Proofs.Probed
import Mathlib.Data.List.Perm.Subperm

/-!
# How much longer a class gets

A pool gets longer by the entries that are added, which are the texts of the bridge, three entries
that refer to them, and integers.  A method gets longer by its probes and by what makes room for
them.  So a class gets longer by the texts of the bridge and less than `2 ^ 44` bytes
(`ClassPlan.length_of_apply`).
-/

namespace JvmCoverage

open Text.Utf8

namespace PoolBuilder

variable {α β : Type} {pool later : ConstantPool} {b : PoolBuilder α} {k k' : Nat}

/-- Whether the form of a pool gets longer by at most `k` bytes. -/
def Grows (b : PoolBuilder α) (k : Nat) : Prop :=
  ∀ pool a later, b.Yields pool a later → later.toBytes.length ≤ pool.toBytes.length + k

theorem grows_pure (a : α) :
  Grows (pure a) 0
  := by
  intro pool a' later h
  obtain ⟨-, rfl⟩ := yields_pure.mp h
  exact le_rfl

theorem grows_throw (e : InstrumentError) (k : Nat) :
  Grows (throw e : PoolBuilder α) k
  := fun _ _ _ h => absurd h not_yields_throw

theorem Grows.bind {f : α → PoolBuilder β} (h : b.Grows k) (h' : ∀ a, (f a).Grows k') :
  (b >>= f).Grows (k + k')
  := by
  intro pool c later hyields
  obtain ⟨a, middle, hb, hf⟩ := yields_bind.mp hyields
  have hle := h pool a middle hb
  have hle' := h' a middle c later hf
  omega

theorem Grows.mono (h : b.Grows k) (hle : k ≤ k') :
  b.Grows k'
  := fun pool a later hyields => (h pool a later hyields).trans (Nat.add_le_add_left hle _)

theorem Grows.bind_zero {f : α → PoolBuilder β} (h : b.Grows k) (h' : ∀ a, (f a).Grows 0) :
  (b >>= f).Grows k
  := h.bind h'

theorem grows_mapM {f : α → PoolBuilder β} {xs : List α} (h : ∀ x ∈ xs, (f x).Grows k) :
  (xs.mapM f).Grows (k * xs.length)
  := by
  induction xs with
  | nil => exact grows_pure []
  | cons x xs ih =>
    obtain ⟨hx, hxs⟩ := List.forall_mem_cons.mp h
    rw [List.mapM_cons]
    refine (hx.bind fun y => (ih hxs).bind fun ys => grows_pure (y :: ys)).mono ?_
    rw [List.length_cons, Nat.mul_add_one]
    omega

theorem grows_foldlM {f : β → α → PoolBuilder β} {xs : List α}
    (h : ∀ x ∈ xs, ∀ y, (f y x).Grows k) (init : β) :
  (xs.foldlM f init).Grows (k * xs.length)
  := by
  induction xs generalizing init with
  | nil => exact grows_pure init
  | cons x xs ih =>
    obtain ⟨hx, hxs⟩ := List.forall_mem_cons.mp h
    rw [List.foldlM_cons]
    refine ((hx init).bind fun y => ih hxs y).mono ?_
    rw [List.length_cons, Nat.mul_add_one]
    omega

/-! ## Adding entries -/

theorem length_toBytes_pushed (pool : ConstantPool) (c : Constant) :
  (pushed pool c).toBytes.length ≤ pool.toBytes.length + c.toBytes.length
  := by
  simp only [ConstantPool.toBytes, toList_pushed, List.length_append, Bytes.length_count16]
  cases pool.entries.toList with
  | nil => simp
  | cons entry entries => simp; omega

theorem grows_intern {c : Constant} (hwide : c.isWide = false) (hle : c.toBytes.length ≤ k) :
  (intern c).Grows k
  := by
  intro pool index later h
  have hinterned := interned_intern pool hwide
  generalize hrun : (intern c).run.run pool = outcome at hinterned
  obtain rfl : outcome = (.ok index, later) := hrun.symm.trans h
  cases hinterned with
  | found => exact Nat.le_add_right _ _
  | added => exact (length_toBytes_pushed pool c).trans (Nat.add_le_add_left hle _)

theorem grows_utf8 (text : String) :
  (utf8 text).Grows (3 + (encode text).length)
  := by
  apply grows_intern rfl
  rw [Constant.toBytes, List.length_cons, List.length_append, Bytes.length_count16]
  omega

theorem grows_integer (value : Int32) :
  (integer value).Grows 5
  := grows_intern rfl (by simp [Constant.toBytes])

theorem grows_methodRef (owner name descriptor : String) :
  (methodRef owner name descriptor).Grows
    (22 + ((encode owner).length + (encode name).length + (encode descriptor).length))
  := by
  have hclass : (classRef owner).Grows (3 + (encode owner).length + 3) :=
    (grows_utf8 owner).bind fun _ => grows_intern rfl (by simp [Constant.toBytes, Constant.tagged])
  have hmember : (nameAndType name descriptor).Grows
      (3 + (encode name).length + (3 + (encode descriptor).length + 5)) :=
    (grows_utf8 name).bind fun _ => (grows_utf8 descriptor).bind fun _ =>
      grows_intern rfl (by simp [Constant.toBytes, Constant.taggedPair])
  refine (hclass.bind fun _ => hmember.bind fun _ => grows_intern (k := 5) rfl
    (by simp [Constant.toBytes, Constant.taggedPair])).mono ?_
  omega

end PoolBuilder

/-- The number of bytes of the texts of a bridge. -/
def Bridge.size (bridge : Bridge) : Nat :=
  (encode bridge.owner).length + (encode bridge.name).length + (encode bridge.descriptor).length

/-! ## Probes -/

open PoolBuilder

theorem Probe.grows_instructions (context : Probe.Context) (offset probe : Nat) :
  (Probe.instructions context offset probe).Grows 5
  := by
  have hcounter : (Probe.pushCounter probe).Grows 5 := by
    unfold Probe.pushCounter
    split
    · exact (grows_pure _).mono (Nat.zero_le 5)
    · rw [map_eq_pure_bind]
      exact (grows_integer _).bind fun _ => grows_pure _
  exact hcounter.bind fun _ => grows_pure _

namespace Layout

variable (layout : Layout) (context : Probe.Context)

theorem grows_moveInstruction (op : Operation) (site : Site) (label : Nat) :
  (layout.moveInstruction context op site label).Grows 5
  := by
  unfold moveInstruction
  cases site.probe with
  | none =>
    cases layout.moveOperation op with
    | ok op => exact (grows_pure _).mono (Nat.zero_le 5)
    | error fault => exact grows_throw _ 5
  | some probe =>
    refine (Probe.grows_instructions context label probe).bind_zero fun _ => ?_
    cases layout.moveOperation op with
    | ok op => exact grows_pure _
    | error fault => exact grows_throw _ 0

theorem grows_moveCode (code : Code) :
  (layout.moveCode context code).Grows (5 * layout.sites.size)
  := by
  have hinstructions : (layout.moveInstructions context code.instructions).Grows
      (5 * layout.sites.size) := by
    refine Grows.mono ((grows_mapM fun place _ =>
      layout.grows_moveInstruction context place.1.op place.2.1 place.2.2).bind
        fun _ => grows_pure _) ?_
    simp only [List.length_zip, Array.length_toList]
    omega
  refine hinstructions.bind_zero fun instructions => ?_
  cases layout.moveTables code with
  | ok tables => exact grows_pure _
  | error fault => exact grows_throw _ 0

end Layout

namespace ClassPlan

variable {plan : ClassPlan} {bridge : Bridge} {c c' : ClassFile} {segment : UInt32}

theorem grows_applyMethod (className : String) (context : Probe.Context) (methods : Array Method)
    (plan : MethodPlan) :
  (applyMethod className context methods plan).Grows (5 * plan.layout.sites.size)
  := by
  unfold applyMethod
  split
  · exact (grows_pure _).mono (Nat.zero_le _)
  split
  · exact grows_throw _ _
  split
  · exact grows_throw _ _
  · exact (plan.layout.grows_moveCode context _).bind_zero fun _ => grows_pure _

theorem grows_addContext (bridge : Bridge) (segment : UInt32) :
  (addContext bridge segment).Grows (27 + bridge.size)
  := by
  refine ((grows_methodRef bridge.owner bridge.name bridge.descriptor).bind fun _ =>
    (grows_integer segment.toInt32).bind fun _ => grows_pure _).mono ?_
  rw [Bridge.size]
  omega

/-- There is at most one plan for each method. -/
theorem IsOf.length_planned_le (h : plan.IsOf bridge c) :
  plan.planned.length ≤ c.methods.length
  := by
  have hnodup : (plan.planned.map MethodPlan.method).Nodup :=
    List.pairwise_map.mpr (h.ordered.imp Nat.ne_of_lt)
  have hsubset : plan.planned.map MethodPlan.method ⊆ List.range c.methods.length := by
    intro i hi
    obtain ⟨methodPlan, hmem, rfl⟩ := List.mem_map.mp hi
    obtain ⟨m, -, hm, -⟩ := h.methods methodPlan hmem
    exact List.mem_range.mpr (List.getElem?_eq_some_iff.mp hm).1
  have hle := (hnodup.subperm hsubset).length_le
  rwa [List.length_map, List.length_range] at hle

/-- A layout has a site for each instruction. -/
theorem IsOf.size_sites_le (h : plan.IsOf bridge c) (hc : c.WellFormed) {methodPlan : MethodPlan}
    (hmem : methodPlan ∈ plan.planned) :
  methodPlan.layout.sites.size ≤ 65535
  := by
  obtain ⟨m, code, hin⟩ := isIn_of_plans h hc hmem
  obtain ⟨first, hof⟩ := hin.isOf
  have htiles := hin.wellFormed.instructions.tiles.length_add_le
  have hle := hin.wellFormed.instructions.le
  have hmax : CodeArray.maxLength = 65535 := rfl
  rw [← hof.layout.insns, List.length_map, Array.length_toList] at htiles
  omega

theorem grows_applyMethods (h : plan.IsOf bridge c) (hc : c.WellFormed) (segment : UInt32)
    (methods : Array Method) :
  (plan.applyMethods segment methods).Grows (27 + bridge.size + 5 * 65535 * 65535)
  := by
  have hplanned := h.length_planned_le.trans hc.methods_le
  rw [← h.bridge_eq]
  refine ((grows_addContext plan.bridge segment).bind fun context =>
    grows_foldlM (k := 5 * 65535) (fun methodPlan hmem methods =>
      (grows_applyMethod plan.className context methods methodPlan).mono
        (Nat.mul_le_mul_left 5 (h.size_sites_le hc hmem))) methods).mono ?_
  exact Nat.add_le_add_left (Nat.mul_le_mul_left _ hplanned) _

/-! ## Classes -/

theorem length_flatMap_le {f : Method → List UInt8} {k : Nat} {ms ms' : List Method}
    (h : List.Forall₂ (fun m m' => (f m').length ≤ (f m).length + k) ms ms') :
  (ms'.flatMap f).length ≤ (ms.flatMap f).length + k * ms.length
  := by
  induction h with
  | nil => simp
  | cons hhead _ ih =>
    simp only [List.flatMap_cons, List.length_append, List.length_cons, Nat.mul_add_one]
    omega

/-- A method is not much longer when its body is not. -/
theorem Method.length_mapCode_le {m : Method} {code moved : Code} {k : Nat}
    (hcode : m.code? = some code) (hle : moved.form.length ≤ code.form.length + k) :
  (m.mapCode fun _ => moved).form.length ≤ m.form.length + k
  := by
  obtain ⟨front, nameIndex, back, hattributes, hmapped, -⟩ :=
    m.exists_attributes hcode fun _ => moved
  simp only [Method.form, hattributes, hmapped, MethodAttribute.form, Code.attributeBytes,
    List.flatMap_append, List.flatMap_cons, List.length_append, Bytes.length_field16,
    Bytes.length_count16, Bytes.length_count32]
  omega

/-- A method with probes is not much longer. -/
theorem IsApplied.length_form_le (h : plan.IsApplied bridge segment c c')
    (hplan : plan.IsOf bridge c) (hc : c.WellFormed) :
  List.Forall₂ (fun m m' => m'.form.length ≤ m.form.length + 2 ^ 27) c.methods c'.methods
  := by
  have hsize := h.moved.size
  simp only [List.size_toArray] at hsize
  refine List.forall₂_iff_get.mpr ⟨hsize.symm, ?_⟩
  intro i hi hi'
  rw [List.get_eq_getElem, List.get_eq_getElem]
  have hget : c.methods[i]? = some c.methods[i] := List.getElem?_eq_getElem hi
  have hget' : c'.methods.toArray[i]? = some c'.methods[i] := by
    rw [List.getElem?_toArray, List.getElem?_eq_getElem hi']
  obtain hm | ⟨methodPlan, hmem, m, code, moved, rfl, hm, hcode, hmapped, hmoved⟩ :=
    h.moved.cases hget'
  · rw [List.getElem?_toArray, hget] at hm
    rw [Option.some.inj hm]
    exact Nat.le_add_right _ _
  · rw [List.getElem?_toArray] at hm
    obtain ⟨-, hle, -⟩ := h.moved_wellFormed hplan hc hmem hm hcode hmoved
    obtain rfl := Option.some.inj (hget.symm.trans hm)
    rw [hmapped]
    exact (Method.length_mapCode_le hcode hle)

/-- A class with probes is longer by the texts of the bridge and less than `2 ^ 44` bytes. -/
theorem length_of_apply (hplan : plan.IsOf bridge c) (hc : c.WellFormed)
    (happly : plan.apply segment c = .ok c') :
  c'.form.length < c.form.length + bridge.size + 2 ^ 44
  := by
  rcases apply_eq_ok.mp happly with ⟨-, rfl⟩ | ⟨-, methods', later, hyields, hc'⟩
  · omega
  have happlied := (apply_spec hplan hc).1 c' happly
  have hpool := grows_applyMethods hplan hc segment _ c.pool methods' later hyields
  have hmethods := length_flatMap_le (happlied.length_form_le hplan hc)
  have hcount := hc.methods_le
  have hlength : (c'.methods.flatMap Method.form).length
      ≤ (c.methods.flatMap Method.form).length + 2 ^ 27 * 65535 :=
    hmethods.trans (Nat.add_le_add_left (Nat.mul_le_mul_left _ hcount) _)
  have hlater : c'.pool = later := congrArg ClassFile.pool hc'
  rw [← hlater] at hpool
  rw [happlied.eq]
  simp only [ClassFile.form, ClassFile.headerBytes, List.length_append, Bytes.length_count16,
    Bytes.length_field16]
  omega

end ClassPlan

end JvmCoverage
