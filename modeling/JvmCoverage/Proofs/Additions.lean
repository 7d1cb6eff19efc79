import JvmCoverage.ClassFile.Builder
import JvmCoverage.Proofs.Class

/-!
# Additions to a pool

An addition to a pool leaves the entries in front as they are (`ConstantPool.Extends`), so that
everything found in a pool is found in it later.  An addition that has room for what it may need
succeeds, and `PoolBuilder.Adds` says what it gives.
-/

namespace JvmCoverage

/-! ## Longer pools -/

namespace ConstantPool

/-- Whether `later` has the entries of `pool` in front and at most `room` more slots. -/
def Extends (pool later : ConstantPool) (room : Nat) : Prop :=
  (∃ new, later.entries.toList = pool.entries.toList ++ new) ∧ later.count ≤ pool.count + room

variable {pool middle later : ConstantPool} {room room' : Nat}

theorem Extends.refl (pool : ConstantPool) :
  pool.Extends pool 0
  := ⟨⟨[], (List.append_nil _).symm⟩, le_rfl⟩

theorem Extends.trans (h : pool.Extends middle room) (h' : middle.Extends later room') :
  pool.Extends later (room' + room)
  := by
  obtain ⟨⟨new, hnew⟩, hle⟩ := h
  obtain ⟨⟨new', hnew'⟩, hle'⟩ := h'
  refine ⟨⟨new ++ new', ?_⟩, by omega⟩
  rw [hnew', hnew, List.append_assoc]

theorem Extends.mono (h : pool.Extends later room) (hle : room ≤ room') :
  pool.Extends later room'
  := ⟨h.1, h.2.trans (Nat.add_le_add_left hle _)⟩

theorem get?_eq_some {index : UInt16} {c : Constant} :
  pool.get? index = some c ↔ pool.entries[index.toNat]? = some c ∧ c ≠ .unusable
  := by
  rw [get?]
  split
  · rename_i heq
    simp only [heq, reduceCtorEq, Option.some.injEq, ne_eq, false_iff, not_and, not_not]
    exact fun hc => hc.symm
  · rename_i heq
    simp [heq]
  · rename_i entry hne heq
    simp only [heq, Option.some.injEq]
    constructor
    · rintro rfl
      exact ⟨rfl, hne⟩
    · exact fun hc => hc.1

variable (h : pool.Extends later room)
include h

/-- An entry stays in its slot. -/
theorem Extends.getElem? (i : Nat) (c : Constant) (hc : pool.entries[i]? = some c) :
  later.entries[i]? = some c
  := by
  obtain ⟨⟨new, hnew⟩, -⟩ := h
  rw [← Array.getElem?_toList] at hc ⊢
  rw [hnew, List.getElem?_append_left (List.getElem?_eq_some_iff.mp hc).1, hc]

theorem Extends.get? {index : UInt16} {c : Constant} (hget : pool.get? index = some c) :
  later.get? index = some c
  := by
  obtain ⟨hentry, hne⟩ := get?_eq_some.mp hget
  exact get?_eq_some.mpr ⟨h.getElem? _ c hentry, hne⟩

theorem Extends.utf8Bytes {index : UInt16} {bytes : List UInt8}
    (hbytes : pool.utf8Bytes index = .ok bytes) :
  later.utf8Bytes index = .ok bytes
  := by
  unfold ConstantPool.utf8Bytes at hbytes
  split at hbytes
  · rename_i hget
    rw [ConstantPool.utf8Bytes, h.get? hget]
    apply hbytes
  · cases hbytes

theorem Extends.utf8 {index : UInt16} {text : String} (htext : pool.utf8 index = .ok text) :
  later.utf8 index = .ok text
  := by
  obtain ⟨bytes, hbytes, rfl⟩ := map_eq_ok.mp htext
  apply map_eq_ok.mpr ⟨bytes, h.utf8Bytes hbytes, rfl⟩

theorem Extends.className {index : UInt16} {name : String}
    (hname : pool.className index = .ok name) :
  later.className index = .ok name
  := by
  unfold ConstantPool.className at hname
  split at hname
  · rename_i hget
    rw [ConstantPool.className, h.get? hget]
    apply h.utf8 hname
  · cases hname

theorem Extends.checkSuperClass {index : UInt16}
    (hcheck : ClassFile.checkSuperClass pool index = .ok ()) :
  ClassFile.checkSuperClass later index = .ok ()
  := by
  unfold ClassFile.checkSuperClass at hcheck ⊢
  split
  · rfl
  · rename_i hne
    rw [if_neg hne] at hcheck
    split at hcheck
    · rename_i name hname
      rw [h.className hname]
    · cases hcheck

theorem Extends.expect {index : UInt16} {expected : Expectation} {kind : Constant → Bool}
    (hexpect : pool.expect index expected kind = .ok ()) :
  later.expect index expected kind = .ok ()
  := by
  unfold ConstantPool.expect at hexpect
  split at hexpect
  · rename_i c hget
    rw [ConstantPool.expect, h.get? hget]
    apply hexpect
  · cases hexpect

/-- References that are valid stay valid. -/
theorem Extends.checkReferences {c : Constant} (hcheck : pool.checkReferences c = .ok ()) :
  later.checkReferences c = .ok ()
  := by
  cases c with
  | classRef i | stringRef i | methodType i | moduleRef i | packageRef i | dynamic _ i
  | invokeDynamic _ i => apply h.expect hcheck
  | fieldRef i j | methodRef i j | interfaceMethodRef i j | nameAndType i j =>
    obtain ⟨⟨⟩, hi, hj⟩ := bind_eq_ok.mp hcheck
    apply bind_eq_ok.mpr ⟨(), h.expect hi, h.expect hj⟩
  | methodHandle kind i =>
    simp only [ConstantPool.checkReferences] at hcheck ⊢
    split at hcheck
    · rename_i hkind
      rw [if_pos hkind]
      apply h.expect hcheck
    · cases hcheck
  | _ => rfl

theorem Extends.holdsText {index : UInt16} {text : List UInt8}
    (htext : pool.holdsText index text) :
  later.holdsText index text
  := by
  unfold ConstantPool.holdsText at htext
  split at htext
  · rename_i hget
    rw [ConstantPool.holdsText, h.get? hget]
    apply htext
  · cases htext

theorem Extends.isMethodRef {owner name descriptor : List UInt8} {c : Constant}
    (hmethod : pool.isMethodRef owner name descriptor c) :
  later.isMethodRef owner name descriptor c
  := by
  unfold ConstantPool.isMethodRef at hmethod
  split at hmethod
  · split at hmethod
    · rename_i howner hmember
      rw [Bool.and_eq_true, Bool.and_eq_true] at hmethod
      obtain ⟨⟨howner', hname⟩, hdescriptor⟩ := hmethod
      simp only [ConstantPool.isMethodRef, h.get? howner, h.get? hmember, h.holdsText howner',
        h.holdsText hname, h.holdsText hdescriptor, Bool.and_self]
    · cases hmethod
  · cases hmethod

/-! ## What stays well formed -/

theorem Extends.rawAttribute {attr : RawAttribute} (hattr : attr.WellFormed pool) :
  attr.WellFormed later
  := by
  obtain ⟨⟨name, hname⟩, hlength⟩ := hattr
  exact ⟨⟨name, h.utf8Bytes hname⟩, hlength⟩

theorem Extends.field {f : Field} (hf : f.WellFormed pool) :
  f.WellFormed later
  := ⟨hf.1, fun attr hattr => h.rawAttribute (hf.2 attr hattr)⟩

theorem Extends.codeAttribute {attr : CodeAttribute} {b : Code.Boundaries}
    (hattr : attr.WellFormed pool b) :
  attr.WellFormed later b
  := by
  obtain ⟨name, hname, hfits⟩ := hattr
  exact ⟨name, h.utf8Bytes hname, hfits⟩

theorem Extends.code {code : Code} (hcode : code.WellFormed pool) :
  code.WellFormed later
  := {
    hcode with
    attributes := fun attr hattr => h.codeAttribute (hcode.attributes attr hattr) }

theorem Extends.methodAttribute {attr : MethodAttribute} (hattr : attr.WellFormed pool) :
  attr.WellFormed later
  := by
  cases attr with
  | code nameIndex body => exact ⟨h.utf8Bytes hattr.1, h.code hattr.2⟩
  | other raw =>
    obtain ⟨⟨name, hname, hne⟩, hlength⟩ := hattr
    exact ⟨⟨name, h.utf8Bytes hname, hne⟩, hlength⟩

/-- A method stays well formed in a later pool. -/
theorem Extends.method {m : Method} (hm : m.WellFormed pool) :
  m.WellFormed later
  where
    name := h.utf8 hm.name
    descriptor := h.utf8 hm.descriptor
    attributes_le := hm.attributes_le
    attributes := fun attr hattr => h.methodAttribute (hm.attributes attr hattr)

end ConstantPool

/-! ## Additions -/

namespace PoolBuilder

variable {α β : Type} {pool later : ConstantPool}

/-- Whether the additions `b` to `pool` give `a` and lead to the pool `later`. -/
def Yields (b : PoolBuilder α) (pool : ConstantPool) (a : α) (later : ConstantPool) : Prop :=
  b.run.run pool = (.ok a, later)

theorem yields_pure {a a' : α} :
  Yields (pure a) pool a' later ↔ a = a' ∧ pool = later
  := by
  rw [Yields]
  constructor
  · intro h
    obtain ⟨ha, rfl⟩ := Prod.mk.inj h
    exact ⟨Except.ok.inj ha, rfl⟩
  · rintro ⟨rfl, rfl⟩
    rfl

theorem not_yields_throw {e : InstrumentError} {a : α} :
  ¬ Yields (throw e) pool a later
  := by
  intro h
  cases (Prod.mk.inj h).1

theorem yields_bind {b : PoolBuilder α} {f : α → PoolBuilder β} {c : β} :
  Yields (b >>= f) pool c later
    ↔ ∃ a middle, b.Yields pool a middle ∧ (f a).Yields middle c later
  := by
  unfold Yields
  rw [run_bind]
  cases hb : b.run.run pool with
  | mk result middle =>
    cases result with
    | error e =>
      constructor
      · intro h
        cases (Prod.mk.inj h).1
      · rintro ⟨a, middle', heq, -⟩
        cases (Prod.mk.inj heq).1
    | ok a =>
      constructor
      · exact fun h => ⟨a, middle, rfl, h⟩
      · rintro ⟨a', middle', heq, h⟩
        obtain ⟨ha, rfl⟩ := Prod.mk.inj heq
        rwa [← Except.ok.inj ha] at h

/-- The additions to a pool determine what they give. -/
theorem Yields.unique {b : PoolBuilder α} {a a' : α} {later' : ConstantPool}
    (h : b.Yields pool a later) (h' : b.Yields pool a' later') :
  a = a' ∧ later = later'
  := by
  obtain ⟨ha, hlater⟩ := Prod.mk.inj (h.symm.trans h')
  exact ⟨Except.ok.inj ha, hlater⟩

/-- Whether the additions `b`, if `pool` has `room` more slots, take no more than these and give
something with the property `post`. -/
def Adds (b : PoolBuilder α) (pool : ConstantPool) (room : Nat)
    (post : α → ConstantPool → Prop) : Prop :=
  pool.count + room ≤ ConstantPool.maxSlots →
    ∃ a later, b.Yields pool a later ∧ pool.Extends later room ∧ post a later

theorem Adds.pure {a : α} {post : α → ConstantPool → Prop} (h : post a pool) :
  Adds (pure a) pool 0 post
  := fun _ => ⟨a, pool, yields_pure.mpr ⟨rfl, rfl⟩, .refl pool, h⟩

/-- Additions and then some more are additions. -/
theorem Adds.bind {b : PoolBuilder α} {f : α → PoolBuilder β} {room room' : Nat}
    {post : α → ConstantPool → Prop} {post' : β → ConstantPool → Prop}
    (h : b.Adds pool room post)
    (h' : ∀ a middle, pool.Extends middle room → post a middle → (f a).Adds middle room' post') :
  (b >>= f).Adds pool (room' + room) post'
  := by
  intro hroom
  obtain ⟨a, middle, hb, hextends, hpost⟩ := h (by omega)
  have hle := hextends.2
  obtain ⟨c, later, hf, hextends', hpost'⟩ := h' a middle hextends hpost (by omega)
  exact ⟨c, later, yields_bind.mpr ⟨a, middle, hb, hf⟩, hextends.trans hextends', hpost'⟩

theorem Adds.imp {b : PoolBuilder α} {room room' : Nat} {post post' : α → ConstantPool → Prop}
    (h : b.Adds pool room post) (hle : room ≤ room')
    (himp : ∀ a later, pool.Extends later room → post a later → post' a later) :
  b.Adds pool room' post'
  := by
  intro hroom
  obtain ⟨a, later, hb, hextends, hpost⟩ := h (by omega)
  exact ⟨a, later, hb, hextends.mono hle, himp a later hextends hpost⟩

/-- Additions for all members of a list are additions.  What they give has to hold of every later
pool. -/
theorem Adds.mapM {f : α → PoolBuilder β} {room : α → Nat} {rel : α → β → ConstantPool → Prop}
    (hmono : ∀ a b pool later room, pool.Extends later room → rel a b pool → rel a b later)
    {as : List α}
    (h : ∀ a ∈ as, ∀ middle taken, pool.Extends middle taken →
      (f a).Adds middle (room a) fun b later => rel a b later
        ∧ (middle.WellFormed → later.WellFormed)) :
  (as.mapM f).Adds pool (as.map room).sum fun bs later =>
    List.Forall₂ (fun a b => rel a b later) as bs ∧ (pool.WellFormed → later.WellFormed)
  := by
  induction as generalizing pool with
  | nil => exact .pure ⟨.nil, id⟩
  | cons a as ih =>
    obtain ⟨ha, has⟩ := List.forall_mem_cons.mp h
    rw [List.mapM_cons, List.map_cons, List.sum_cons, Nat.add_comm]
    apply (ha pool 0 (.refl pool)).bind
    rintro b middle hextends ⟨hb, hmiddle⟩
    have hrest := ih fun a' ha' last taken hlast =>
      has a' ha' last _ (hextends.trans hlast)
    rw [← Nat.zero_add (as.map room).sum]
    apply hrest.bind
    rintro bs later hextends' ⟨hbs, hlater⟩
    exact .pure ⟨.cons (hmono a b middle later _ hextends' hb) hbs, fun hpool =>
      hlater (hmiddle hpool)⟩

/-! ## Single entries -/

/-- The pool with one more entry. -/
def pushed (pool : ConstantPool) (c : Constant) : ConstantPool :=
  ⟨pool.entries.push c⟩

theorem toList_pushed (pool : ConstantPool) (c : Constant) :
  (pushed pool c).entries.toList = pool.entries.toList ++ [c]
  := Array.toList_push ..

/-- An entry of one slot is added behind the last one if there is room for it. -/
theorem run_push {c : Constant} (hwide : c.isWide = false) :
  (push c).run.run pool
    = if ConstantPool.maxSlots < pool.count + 1 then
        (.error (.capacity .poolSlots (pool.count + 1) ConstantPool.maxSlots), pool)
      else (.ok (UInt16.ofNat pool.count), pushed pool c)
  := by
  have hslots : c.slots = 1 := by simp [Constant.slots, hwide]
  have hget : (get : PoolBuilder ConstantPool).run.run pool = (.ok pool, pool) := rfl
  rw [push, run_bind, hget]
  simp only [hslots, hwide, gt_iff_lt]
  split <;> rfl

theorem extends_pushed (pool : ConstantPool) (c : Constant) :
  pool.Extends (pushed pool c) 1
  := by
  refine ⟨⟨[c], toList_pushed pool c⟩, ?_⟩
  simp [ConstantPool.count, pushed]

/-- References stay valid when an entry is added whose own references are. -/
theorem validate_pushed {c : Constant} (hpool : pool.validate = .ok ())
    (hreferences : pool.checkReferences c = .ok ()) :
  (pushed pool c).validate = .ok ()
  := by
  have hextends := extends_pushed pool c
  rw [ConstantPool.validate, forM_eq_ok, toList_pushed, List.forall_mem_append]
  constructor
  · intro entry hentry
    apply hextends.checkReferences (forM_eq_ok.mp hpool entry hentry)
  · intro entry hentry
    rw [List.mem_singleton.mp hentry]
    apply hextends.checkReferences hreferences

/-- A pool with one more valid entry is well formed. -/
theorem wellFormed_pushed {c : Constant} (hpool : pool.WellFormed) (hwide : c.isWide = false)
    (hvalid : c.Valid) (hreferences : pool.checkReferences c = .ok ())
    (hroom : pool.count + 1 ≤ ConstantPool.maxSlots) :
  (pushed pool c).WellFormed
  where
    layOut := by
      obtain ⟨constants, hconstants, hentries⟩ := hpool.layOut
      refine ⟨constants ++ [c], ?_, ?_⟩
      · rw [List.forall_mem_append]
        exact ⟨hconstants, by simpa using hvalid⟩
      · rw [ConstantPool.layOut_append, ConstantPool.layOut_cons, hwide]
        simp [toList_pushed, hentries, ConstantPool.layOut]
    count_le := by
      simpa [ConstantPool.count, pushed] using hroom
    valid := validate_pushed hpool.valid hreferences

/-- What asking for an entry comes to: the first entry equal to it is found, it is added behind the
last one, or there is no room for it. -/
inductive Interned (pool : ConstantPool) (c : Constant) :
    Except InstrumentError UInt16 × ConstantPool → Prop where
  | found {index : Nat} (h : pool.entries.findIdx? (· == c) = some index) :
      Interned pool c (.ok (UInt16.ofNat index), pool)
  | added (h : pool.entries.findIdx? (· == c) = none)
      (hroom : pool.count < ConstantPool.maxSlots) :
      Interned pool c (.ok (UInt16.ofNat pool.count), pushed pool c)
  | full (h : pool.entries.findIdx? (· == c) = none)
      (hfull : ConstantPool.maxSlots ≤ pool.count) :
      Interned pool c
        (.error (.capacity .poolSlots (pool.count + 1) ConstantPool.maxSlots), pool)

theorem interned_intern (pool : ConstantPool) {c : Constant} (hwide : c.isWide = false) :
  Interned pool c ((intern c).run.run pool)
  := by
  have hget : (get : PoolBuilder ConstantPool).run.run pool = (.ok pool, pool) := rfl
  rw [intern, run_bind, hget]
  simp only [indexOf?_eq_findIdx?]
  cases hindex : pool.entries.findIdx? (· == c) with
  | some index => exact .found hindex
  | none =>
    simp only [run_push hwide]
    split
    · rename_i hfull
      exact .full hindex (Nat.le_of_lt_succ hfull)
    · rename_i hroom
      exact .added hindex (Nat.lt_of_succ_le (Nat.le_of_not_lt hroom))

/-- The slot in which an entry is found holds it. -/
theorem get?_of_findIdx? {c : Constant} (hne : c ≠ .unusable)
    (hcount : pool.count ≤ ConstantPool.maxSlots) {index : Nat}
    (h : pool.entries.findIdx? (· == c) = some index) :
  pool.get? (UInt16.ofNat index) = some c
  := by
  obtain ⟨hlt, heq, -⟩ := Array.findIdx?_eq_some_iff_getElem.mp h
  have hsize : ConstantPool.maxSlots < UInt16.size := by decide
  have hindex : index < UInt16.size := by
    rw [ConstantPool.count] at hcount
    omega
  rw [ConstantPool.get?_eq_some, UInt16.toNat_ofNat_of_lt' hindex,
    Array.getElem?_eq_getElem hlt]
  exact ⟨congrArg some (by simpa using heq), hne⟩

/-- The slot behind the last one holds the entry that was added. -/
theorem get?_pushed {c : Constant} (hne : c ≠ .unusable)
    (hroom : pool.count < ConstantPool.maxSlots) :
  (pushed pool c).get? (UInt16.ofNat pool.count) = some c
  := by
  have hsize : ConstantPool.maxSlots < UInt16.size := by decide
  rw [ConstantPool.get?_eq_some, UInt16.toNat_ofNat_of_lt' (by omega)]
  refine ⟨?_, hne⟩
  simp [pushed, ConstantPool.count]

/-- An entry is found in its slot or added, and leaves a well-formed pool well formed. -/
theorem adds_intern {c : Constant} (hwide : c.isWide = false) (hne : c ≠ .unusable) :
  (intern c).Adds pool 1 fun index later => later.get? index = some c
    ∧ (pool.WellFormed → c.Valid → pool.checkReferences c = .ok () → later.WellFormed)
  := by
  intro hroom
  have hinterned := interned_intern pool hwide
  generalize hrun : (intern c).run.run pool = outcome at hinterned
  cases hinterned with
  | found h =>
    exact ⟨_, pool, hrun, (ConstantPool.Extends.refl pool).mono (Nat.zero_le 1),
      get?_of_findIdx? hne (Nat.le_of_succ_le hroom) h, fun hpool _ _ => hpool⟩
  | added h hroom' =>
    refine ⟨_, pushed pool c, hrun, extends_pushed pool c, get?_pushed hne hroom', ?_⟩
    intro hpool hvalid hreferences
    apply wellFormed_pushed hpool hwide hvalid hreferences hroom
  | full h hfull => omega

/-! ## Texts, classes and methods -/

open Text.Utf8 (encode)

theorem adds_utf8 (text : String) :
  (utf8 text).Adds pool 1 fun index later => later.holdsText index (encode text)
    ∧ (pool.WellFormed → (encode text).length ≤ 65535 → later.WellFormed)
  := by
  apply (adds_intern (c := .utf8 (encode text)) rfl (by simp)).imp le_rfl
  rintro index later - ⟨hget, hwf⟩
  constructor
  · simp [ConstantPool.holdsText, hget]
  · exact fun hpool hlength => hwf hpool hlength rfl

theorem adds_integer (value : Int32) :
  (integer value).Adds pool 1 fun index later => later.get? index = some (.integer value)
    ∧ (pool.WellFormed → later.WellFormed)
  := by
  apply (adds_intern (c := .integer value) rfl (by simp)).imp le_rfl
  rintro index later - ⟨hget, hwf⟩
  exact ⟨hget, fun hpool => hwf hpool trivial rfl⟩

theorem expect_eq_ok {index : UInt16} {expected : Expectation} {kind : Constant → Bool}
    {c : Constant} (hget : pool.get? index = some c) (hkind : kind c) :
  pool.expect index expected kind = .ok ()
  := by
  rw [ConstantPool.expect, hget]
  apply if_pos hkind

/-- A slot that holds a text may be referred to as a text. -/
theorem expect_of_holdsText {index : UInt16} {text : List UInt8} (h : pool.holdsText index text) :
  pool.expect index .utf8 Constant.isUtf8 = .ok ()
  := by
  unfold ConstantPool.holdsText at h
  split at h
  · rename_i hget
    apply expect_eq_ok hget rfl
  · cases h

theorem adds_classRef (name : String) :
  (classRef name).Adds pool 2 fun index later =>
    (∃ nameIndex, later.get? index = some (.classRef nameIndex)
      ∧ later.holdsText nameIndex (encode name))
    ∧ (pool.WellFormed → (encode name).length ≤ 65535 → later.WellFormed)
  := by
  rw [classRef]
  apply (adds_utf8 name).bind
  rintro nameIndex middle - ⟨htext, hmiddle⟩
  apply (adds_intern (c := .classRef nameIndex) rfl (by simp)).imp le_rfl
  rintro index later hextends ⟨hget, hlater⟩
  constructor
  · exact ⟨nameIndex, hget, hextends.holdsText htext⟩
  · exact fun hpool hlength => hlater (hmiddle hpool hlength) trivial (expect_of_holdsText htext)

theorem adds_nameAndType (name descriptor : String) :
  (nameAndType name descriptor).Adds pool 3 fun index later =>
    (∃ nameIndex descriptorIndex,
      later.get? index = some (.nameAndType nameIndex descriptorIndex)
      ∧ later.holdsText nameIndex (encode name)
      ∧ later.holdsText descriptorIndex (encode descriptor))
    ∧ (pool.WellFormed → (encode name).length ≤ 65535 → (encode descriptor).length ≤ 65535 →
      later.WellFormed)
  := by
  rw [nameAndType]
  apply (adds_utf8 name).bind
  rintro nameIndex named - ⟨hname, hnamed⟩
  apply (adds_utf8 descriptor).bind
  rintro descriptorIndex described hextends ⟨hdescriptor, hdescribed⟩
  apply (adds_intern (c := .nameAndType nameIndex descriptorIndex) rfl (by simp)).imp le_rfl
  rintro index later hextends' ⟨hget, hlater⟩
  have hname' := hextends.holdsText hname
  constructor
  · exact ⟨nameIndex, descriptorIndex, hget, hextends'.holdsText hname',
      hextends'.holdsText hdescriptor⟩
  · intro hpool hnameLength hdescriptorLength
    apply hlater (hdescribed (hnamed hpool hnameLength) hdescriptorLength) trivial
    apply bind_eq_ok.mpr ⟨(), expect_of_holdsText hname', expect_of_holdsText hdescriptor⟩

/-- A method takes at most six slots. -/
theorem adds_methodRef (owner name descriptor : String) :
  (methodRef owner name descriptor).Adds pool 6 fun index later =>
    (∃ c, later.get? index = some c
      ∧ later.isMethodRef (encode owner) (encode name) (encode descriptor) c)
    ∧ (pool.WellFormed → (encode owner).length ≤ 65535 → (encode name).length ≤ 65535 →
      (encode descriptor).length ≤ 65535 → later.WellFormed)
  := by
  rw [methodRef]
  apply (adds_classRef owner).bind
  rintro ownerIndex owned - ⟨⟨ownerName, hget, howner⟩, howned⟩
  apply (adds_nameAndType name descriptor).bind
  rintro memberIndex named hextends
    ⟨⟨nameIndex, descriptorIndex, hmember, hname, hdescriptor⟩, hnamed⟩
  apply (adds_intern (c := .methodRef ownerIndex memberIndex) rfl (by simp)).imp le_rfl
  rintro index later hextends' ⟨hmethod, hlater⟩
  have hget' := hextends.get? hget
  have howner' := hextends.holdsText howner
  constructor
  · refine ⟨_, hmethod, hextends'.isMethodRef ?_⟩
    simp only [ConstantPool.isMethodRef, hget', hmember, howner', hname, hdescriptor, Bool.and_self]
  · intro hpool hownerLength hnameLength hdescriptorLength
    apply hlater (hnamed (howned hpool hownerLength) hnameLength hdescriptorLength) trivial
    apply bind_eq_ok.mpr ⟨(), expect_eq_ok hget' rfl, expect_eq_ok hmember rfl⟩

end PoolBuilder

end JvmCoverage
