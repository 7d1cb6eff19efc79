import JvmCoverage.Proofs.Additions

/-!
# Interning

In a pool that was empty or was read, slot 0 and the slots behind entries of two slots are unusable,
and every reference leads to an entry of the right kind (`ConstantPool.Sound`).  Additions keep it
so, even when the pool gets full before they are done (`PoolBuilder.Interns`).  Whatever is asked of
such a pool, one call after the other, entries stay in their slots, and what was given once is given
again without another entry (`ConstantPool.isInterning_run`).
-/

namespace JvmCoverage

open Text.Utf8 (encode)

namespace ConstantPool

variable {pool later : ConstantPool} {room : Nat}

/-! ## Slots -/

/-- Whether the slots of the pool are those of usable entries, with valid references. -/
structure Sound (pool : ConstantPool) : Prop where
  layOut : ∃ constants, (∀ c ∈ constants, c ≠ .unusable)
    ∧ pool.entries.toList = .unusable :: ConstantPool.layOut constants
  count_le : pool.count ≤ maxSlots
  valid : pool.validate = .ok ()

theorem WellFormed.sound (h : pool.WellFormed) :
  pool.Sound
  where
    layOut := by
      obtain ⟨constants, hconstants, hentries⟩ := h.layOut
      refine ⟨constants, ?_, hentries⟩
      rintro c hc rfl
      exact hconstants _ hc
    count_le := h.count_le
    valid := h.valid

theorem sound_empty :
  ConstantPool.empty.Sound
  := ⟨⟨[], by simp, rfl⟩, by decide, rfl⟩

/-- The unusable slots behind an entry of one slot are those behind entries of two slots. -/
theorem getElem?_layOut_iff {constants : List Constant} (h : ∀ c ∈ constants, c ≠ .unusable)
    {first : Constant} (hfirst : first.isWide = false) (i : Nat) :
  (first :: ConstantPool.layOut constants)[i + 1]? = some .unusable
    ↔ ∃ c, (first :: ConstantPool.layOut constants)[i]? = some c ∧ c.isWide
  := by
  induction constants generalizing first i with
  | nil => cases i <;> simp [ConstantPool.layOut, hfirst]
  | cons c constants ih =>
    obtain ⟨hne, hconstants⟩ := List.forall_mem_cons.mp h
    rw [layOut_cons]
    cases hwide : c.isWide with
    | false =>
      cases i with
      | zero => simp [hne, hfirst]
      | succ i => exact ih hconstants hwide i
    | true =>
      rcases i with _ | _ | i
      · simp [hne, hfirst]
      · simp [hwide]
      · exact ih hconstants rfl i

/-- Slot 0 and the slots behind a long or a double are unusable, and no others. -/
theorem Sound.unusable_iff (h : pool.Sound) (i : Nat) :
  pool.entries[i]? = some .unusable
    ↔ i = 0 ∨ ∃ j, i = j + 1 ∧ ((∃ value, pool.entries[j]? = some (.long value))
      ∨ ∃ bits, pool.entries[j]? = some (.double bits))
  := by
  obtain ⟨constants, hconstants, hentries⟩ := h.layOut
  have hwide (c : Constant) : c.isWide ↔ (∃ value, c = .long value) ∨ ∃ bits, c = .double bits := by
    cases c <;> simp [Constant.isWide]
  simp only [← Array.getElem?_toList, hentries]
  cases i with
  | zero => simp
  | succ i =>
    rw [getElem?_layOut_iff hconstants rfl]
    simp only [hwide, Nat.add_one_ne_zero, false_or, Nat.add_right_cancel_iff]
    constructor
    · rintro ⟨c, hc, ⟨value, rfl⟩ | ⟨bits, rfl⟩⟩
      · exact ⟨i, rfl, .inl ⟨value, hc⟩⟩
      · exact ⟨i, rfl, .inr ⟨bits, hc⟩⟩
    · rintro ⟨j, rfl, ⟨value, hc⟩ | ⟨bits, hc⟩⟩
      · exact ⟨_, hc, .inl ⟨value, rfl⟩⟩
      · exact ⟨_, hc, .inr ⟨bits, rfl⟩⟩

/-- The first entry of a kind stays the first one when entries are added behind. -/
theorem Extends.findIdx? (h : pool.Extends later room) {kind : Constant → Bool} {index : Nat}
    (hindex : pool.entries.findIdx? kind = some index) :
  later.entries.findIdx? kind = some index
  := by
  obtain ⟨⟨new, hnew⟩, -⟩ := h
  have hentries : later.entries = pool.entries ++ new.toArray := Array.ext' (by simp [hnew])
  rw [hentries, Array.findIdx?_append, hindex, Option.some_or]

theorem holdsText_iff {index : UInt16} {text : List UInt8} :
  pool.holdsText index text ↔ pool.get? index = some (.utf8 text)
  := by
  unfold holdsText
  split
  · rename_i hget
    simp [hget]
  · rename_i hne
    constructor
    · intro h
      cases h
    · exact fun hget => absurd hget (hne text)

end ConstantPool

/-! ## Additions that may find the pool full -/

namespace PoolBuilder

variable {α β : Type} {pool : ConstantPool} {b : PoolBuilder α}

/-- Whether the additions `b` to `pool` leave its entries in their slots and the pool sound, and
either give something with the property `post`, the same in every longer pool without adding to it,
or find the pool full. -/
inductive Interns (b : PoolBuilder α) (pool : ConstantPool) (post : α → ConstantPool → Prop) :
    Prop where
  | gives {a : α} {later : ConstantPool} {room : Nat} (hrun : b.Yields pool a later)
      (hextends : pool.Extends later room) (hsound : later.Sound) (hpost : post a later)
      (hagain : ∀ last room, later.Extends last room → b.Yields last a last)
  | full {later : ConstantPool} {room : Nat}
      (hrun : b.run.run pool
        = (.error (.capacity .poolSlots (ConstantPool.maxSlots + 1) ConstantPool.maxSlots), later))
      (hextends : pool.Extends later room) (hsound : later.Sound)
      (hfull : later.count = ConstantPool.maxSlots)

variable {post : α → ConstantPool → Prop}

theorem Interns.imp {post' : α → ConstantPool → Prop} (h : b.Interns pool post)
    (himp : ∀ a later room, pool.Extends later room → post a later → post' a later) :
  b.Interns pool post'
  := by
  cases h with
  | gives hrun hextends hsound hpost hagain =>
    exact .gives hrun hextends hsound (himp _ _ _ hextends hpost) hagain
  | full hrun hextends hsound hfull => exact .full hrun hextends hsound hfull

/-- Additions and then some more are additions. -/
theorem Interns.bind {f : α → PoolBuilder β} {post' : β → ConstantPool → Prop}
    (h : b.Interns pool post)
    (h' : ∀ a middle room, pool.Extends middle room → middle.Sound → post a middle →
      (f a).Interns middle post') :
  (b >>= f).Interns pool post'
  := by
  cases h with
  | full hrun hextends hsound hfull =>
    exact .full (by rw [run_bind, hrun]) hextends hsound hfull
  | gives hrun hextends hsound hpost hagain =>
    cases h' _ _ _ hextends hsound hpost with
    | full hrun' hextends' hsound' hfull =>
      refine .full ?_ (hextends.trans hextends') hsound' hfull
      rw [run_bind, hrun]
      exact hrun'
    | gives hrun' hextends' hsound' hpost' hagain' =>
      refine .gives (yields_bind.mpr ⟨_, _, hrun, hrun'⟩) (hextends.trans hextends') hsound' hpost'
        ?_
      intro last room hlast
      exact yields_bind.mpr
        ⟨_, last, hagain last _ (hextends'.trans hlast), hagain' last room hlast⟩

/-- An entry that is there is found, and nothing is added. -/
theorem yields_intern {c : Constant} {index : Nat}
    (h : pool.entries.findIdx? (· == c) = some index) :
  (intern c).Yields pool (UInt16.ofNat index) pool
  := by
  refine yields_bind.mpr ⟨pool, pool, rfl, ?_⟩
  rw [indexOf?_eq_findIdx?, h]
  exact yields_pure.mpr ⟨rfl, rfl⟩

/-- A sound pool stays sound when an entry of one slot with valid references is added. -/
theorem sound_pushed {c : Constant} (hpool : pool.Sound) (hwide : c.isWide = false)
    (hne : c ≠ .unusable) (hreferences : pool.checkReferences c = .ok ())
    (hroom : pool.count < ConstantPool.maxSlots) :
  (pushed pool c).Sound
  where
    layOut := by
      obtain ⟨constants, hconstants, hentries⟩ := hpool.layOut
      refine ⟨constants ++ [c], ?_, ?_⟩
      · rw [List.forall_mem_append]
        exact ⟨hconstants, by simpa using hne⟩
      · rw [ConstantPool.layOut_append, ConstantPool.layOut_cons, hwide]
        simp [toList_pushed, hentries, ConstantPool.layOut]
    count_le := by
      simpa [ConstantPool.count, pushed] using Nat.succ_le_of_lt hroom
    valid := validate_pushed hpool.valid hreferences

/-- The entry that was added is the first one equal to itself. -/
theorem findIdx?_pushed {c : Constant} (h : pool.entries.findIdx? (· == c) = none) :
  (pushed pool c).entries.findIdx? (· == c) = some pool.count
  := by
  simp [pushed, Array.findIdx?_push, h, ConstantPool.count]

/-- An entry is found, or added, or the pool is full. -/
theorem interns_intern {c : Constant} (hpool : pool.Sound) (hwide : c.isWide = false)
    (hne : c ≠ .unusable) (hreferences : pool.checkReferences c = .ok ()) :
  (intern c).Interns pool fun index later => later.get? index = some c
  := by
  have hinterned := interned_intern pool hwide
  generalize hrun : (intern c).run.run pool = outcome at hinterned
  cases hinterned with
  | found h =>
    refine .gives hrun (.refl pool) hpool (get?_of_findIdx? hne hpool.count_le h) ?_
    intro last room hlast
    exact yields_intern (hlast.findIdx? h)
  | added h hroom =>
    refine .gives hrun (extends_pushed pool c) (sound_pushed hpool hwide hne hreferences hroom)
      (get?_pushed hne hroom) ?_
    intro last room hlast
    exact yields_intern (hlast.findIdx? (findIdx?_pushed h))
  | full h hfull =>
    have hcount : pool.count = ConstantPool.maxSlots := le_antisymm hpool.count_le hfull
    rw [hcount] at hrun
    exact .full hrun (.refl pool) hpool hcount

end PoolBuilder

/-! ## Calls -/

/-- What a pool is asked for. -/
inductive PoolCall where
  | utf8 (text : String)
  | integer (value : Int32)
  | classRef (name : String)
  | nameAndType (name descriptor : String)
  | methodRef (owner name descriptor : String)

namespace PoolCall

/-- The additions that a call asks for. -/
def additions : PoolCall → PoolBuilder UInt16
  | utf8 text => PoolBuilder.utf8 text
  | integer value => PoolBuilder.integer value
  | classRef name => PoolBuilder.classRef name
  | nameAndType name descriptor => PoolBuilder.nameAndType name descriptor
  | methodRef owner name descriptor => PoolBuilder.methodRef owner name descriptor

/-- Whether a slot holds what a call asks for, down to its texts. -/
inductive IsHeld (pool : ConstantPool) : PoolCall → UInt16 → Prop where
  | utf8 {text : String} {index : UInt16} (h : pool.get? index = some (.utf8 (encode text))) :
      IsHeld pool (utf8 text) index
  | integer {value : Int32} {index : UInt16} (h : pool.get? index = some (.integer value)) :
      IsHeld pool (integer value) index
  | classRef {name : String} {index nameIndex : UInt16}
      (h : pool.get? index = some (.classRef nameIndex))
      (hname : IsHeld pool (utf8 name) nameIndex) :
      IsHeld pool (classRef name) index
  | nameAndType {name descriptor : String} {index nameIndex descriptorIndex : UInt16}
      (h : pool.get? index = some (.nameAndType nameIndex descriptorIndex))
      (hname : IsHeld pool (utf8 name) nameIndex)
      (hdescriptor : IsHeld pool (utf8 descriptor) descriptorIndex) :
      IsHeld pool (nameAndType name descriptor) index
  | methodRef {owner name descriptor : String} {index ownerIndex memberIndex : UInt16}
      (h : pool.get? index = some (.methodRef ownerIndex memberIndex))
      (howner : IsHeld pool (classRef owner) ownerIndex)
      (hmember : IsHeld pool (nameAndType name descriptor) memberIndex) :
      IsHeld pool (methodRef owner name descriptor) index

variable {pool later : ConstantPool} {room : Nat} {call : PoolCall} {index : UInt16}

/-- What a slot holds it holds in every longer pool. -/
theorem IsHeld.mono (h : IsHeld pool call index) (hextends : pool.Extends later room) :
  IsHeld later call index
  := by
  induction h with
  | utf8 h => exact .utf8 (hextends.get? h)
  | integer h => exact .integer (hextends.get? h)
  | classRef h _ hname => exact .classRef (hextends.get? h) hname
  | nameAndType h _ _ hname hdescriptor => exact .nameAndType (hextends.get? h) hname hdescriptor
  | methodRef h _ _ howner hmember => exact .methodRef (hextends.get? h) howner hmember

theorem IsHeld.holdsText {text : String} (h : IsHeld pool (.utf8 text) index) :
  pool.holdsText index (encode text)
  := by
  cases h with
  | utf8 h => exact ConstantPool.holdsText_iff.mpr h

/-- A slot that holds a text may be referred to as a text. -/
theorem IsHeld.expect_utf8 {text : String} (h : IsHeld pool (.utf8 text) index) :
  pool.expect index .utf8 Constant.isUtf8 = .ok ()
  := PoolBuilder.expect_of_holdsText h.holdsText

theorem IsHeld.expect_classRef {name : String} (h : IsHeld pool (.classRef name) index) :
  pool.expect index .classRef Constant.isClass = .ok ()
  := by
  cases h with
  | classRef h _ => exact PoolBuilder.expect_eq_ok h rfl

theorem IsHeld.expect_nameAndType {name descriptor : String}
    (h : IsHeld pool (.nameAndType name descriptor) index) :
  pool.expect index .nameAndType Constant.isNameAndType = .ok ()
  := by
  cases h with
  | nameAndType h _ _ => exact PoolBuilder.expect_eq_ok h rfl

theorem interns_utf8 (text : String) (hpool : pool.Sound) :
  (PoolBuilder.utf8 text).Interns pool fun index later => IsHeld later (utf8 text) index
  := by
  apply (PoolBuilder.interns_intern hpool rfl (by simp) rfl).imp
  exact fun index later room _ h => .utf8 h

theorem interns_integer (value : Int32) (hpool : pool.Sound) :
  (PoolBuilder.integer value).Interns pool fun index later => IsHeld later (integer value) index
  := by
  apply (PoolBuilder.interns_intern hpool rfl (by simp) rfl).imp
  exact fun index later room _ h => .integer h

theorem interns_classRef (name : String) (hpool : pool.Sound) :
  (PoolBuilder.classRef name).Interns pool fun index later => IsHeld later (classRef name) index
  := by
  apply (interns_utf8 name hpool).bind
  intro nameIndex named _ _ hnamed hname
  apply (PoolBuilder.interns_intern (c := .classRef nameIndex) hnamed rfl (by simp)
    hname.expect_utf8).imp
  exact fun index later room hextends h => .classRef h (hname.mono hextends)

theorem interns_nameAndType (name descriptor : String) (hpool : pool.Sound) :
  (PoolBuilder.nameAndType name descriptor).Interns pool fun index later =>
    IsHeld later (nameAndType name descriptor) index
  := by
  apply (interns_utf8 name hpool).bind
  intro nameIndex named _ _ hnamed hname
  apply (interns_utf8 descriptor hnamed).bind
  intro descriptorIndex described _ hextends hdescribed hdescriptor
  replace hname := hname.mono hextends
  have hreferences : described.checkReferences (.nameAndType nameIndex descriptorIndex) = .ok () :=
    bind_eq_ok.mpr ⟨(), hname.expect_utf8, hdescriptor.expect_utf8⟩
  apply (PoolBuilder.interns_intern hdescribed rfl (by simp) hreferences).imp
  intro index later room hextends h
  exact .nameAndType h (hname.mono hextends) (hdescriptor.mono hextends)

theorem interns_methodRef (owner name descriptor : String) (hpool : pool.Sound) :
  (PoolBuilder.methodRef owner name descriptor).Interns pool fun index later =>
    IsHeld later (methodRef owner name descriptor) index
  := by
  apply (interns_classRef owner hpool).bind
  intro ownerIndex owned _ _ howned howner
  apply (interns_nameAndType name descriptor howned).bind
  intro memberIndex named _ hextends hnamed hmember
  replace howner := howner.mono hextends
  have hreferences : named.checkReferences (.methodRef ownerIndex memberIndex) = .ok () :=
    bind_eq_ok.mpr ⟨(), howner.expect_classRef, hmember.expect_nameAndType⟩
  apply (PoolBuilder.interns_intern hnamed rfl (by simp) hreferences).imp
  intro index later room hextends h
  exact .methodRef h (howner.mono hextends) (hmember.mono hextends)

/-- A call is answered with a slot that holds what it asks for, or finds the pool full. -/
theorem interns_additions (call : PoolCall) (hpool : pool.Sound) :
  call.additions.Interns pool fun index later => IsHeld later call index
  := by
  cases call with
  | utf8 text => exact interns_utf8 text hpool
  | integer value => exact interns_integer value hpool
  | classRef name => exact interns_classRef name hpool
  | nameAndType name descriptor => exact interns_nameAndType name descriptor hpool
  | methodRef owner name descriptor => exact interns_methodRef owner name descriptor hpool

end PoolCall

namespace ConstantPool

variable {pool : ConstantPool} {owner name descriptor : String} {index : UInt16}

/-! ## Finding a method -/

theorem isMethodRef_iff {c : Constant} (hget : pool.get? index = some c) :
  pool.isMethodRef (encode owner) (encode name) (encode descriptor) c
    ↔ PoolCall.IsHeld pool (.methodRef owner name descriptor) index
  := by
  constructor
  · intro h
    unfold isMethodRef at h
    split at h
    · split at h
      · rename_i howner hmember
        simp only [Bool.and_eq_true, holdsText_iff] at h
        obtain ⟨⟨hownerName, hname⟩, hdescriptor⟩ := h
        exact .methodRef hget (.classRef howner (.utf8 hownerName))
          (.nameAndType hmember (.utf8 hname) (.utf8 hdescriptor))
      · cases h
    · cases h
  · intro h
    cases h with
    | methodRef h howner hmember =>
    cases howner with
    | classRef howner hownerName =>
    cases hmember with
    | nameAndType hmember hname hdescriptor =>
    obtain rfl := Option.some.inj (hget.symm.trans h)
    simp only [isMethodRef, howner, hmember, hownerName.holdsText, hname.holdsText,
      hdescriptor.holdsText, Bool.and_self]

/-- A method in the pool is found. -/
theorem isSome_findMethodRef? {c : Constant} (hget : pool.get? index = some c)
    (h : pool.isMethodRef (encode owner) (encode name) (encode descriptor) c) :
  (pool.findMethodRef? owner name descriptor).isSome
  := by
  rw [findMethodRef?, Option.isSome_map, Array.findIdx?_isSome, Array.any_eq_true']
  exact ⟨c, Array.mem_of_getElem? (get?_eq_some.mp hget).1, h⟩

/-- The slot that is found holds the method. -/
theorem isHeld_of_findMethodRef? (hcount : pool.count ≤ maxSlots)
    (h : pool.findMethodRef? owner name descriptor = some index) :
  PoolCall.IsHeld pool (.methodRef owner name descriptor) index
  := by
  obtain ⟨i, hi, rfl⟩ := Option.map_eq_some_iff.mp h
  obtain ⟨hlt, hmethod, -⟩ := Array.findIdx?_eq_some_iff_getElem.mp hi
  have hget : pool.get? (UInt16.ofNat i) = some pool.entries[i] := by
    rw [get?_eq_some, UInt16.toNat_ofNat_of_lt' (by
      have hsize : maxSlots < UInt16.size := by decide
      rw [count] at hcount
      omega)]
    refine ⟨Array.getElem?_eq_getElem hlt, ?_⟩
    intro heq
    rw [heq] at hmethod
    cases hmethod
  exact (isMethodRef_iff hget).mp hmethod

/-- A method is found exactly if some slot holds it. -/
theorem isSome_findMethodRef?_iff (hcount : pool.count ≤ maxSlots) :
  (pool.findMethodRef? owner name descriptor).isSome
    ↔ ∃ index, PoolCall.IsHeld pool (.methodRef owner name descriptor) index
  := by
  constructor
  · intro h
    obtain ⟨index, hindex⟩ := Option.isSome_iff_exists.mp h
    exact ⟨index, isHeld_of_findMethodRef? hcount hindex⟩
  · rintro ⟨index, h⟩
    have hheld := h
    cases h with
    | methodRef hget _ _ => exact isSome_findMethodRef? hget ((isMethodRef_iff hget).mpr hheld)

/-! ## One call after the other -/

/-- What a call is answered with. -/
def answer (pool : ConstantPool) (call : PoolCall) : Except InstrumentError UInt16 :=
  (call.additions.run.run pool).1

/-- The pool after a call. -/
def after (pool : ConstantPool) (call : PoolCall) : ConstantPool :=
  (call.additions.run.run pool).2

/-- The pool after calls, one after the other. -/
def run (pool : ConstantPool) (calls : List PoolCall) : ConstantPool :=
  calls.foldl after pool

/-- Whether a pool is the one without entries or was read. -/
inductive Begins : ConstantPool → Prop where
  | empty : Begins .empty
  | read {cursor rest : Cursor} {pool : ConstantPool}
      (h : ConstantPool.read cursor = .ok (pool, rest)) : Begins pool

theorem Begins.sound (h : Begins pool) :
  pool.Sound
  := by
  cases h with
  | empty => exact sound_empty
  | read h =>
    obtain ⟨taken, -, -, hreads⟩ := Reader.IsLocal.reads_of_ok _ _ _ h
    exact (of_reads hreads).1.sound

/-- A sound pool stays sound with a call, and keeps its entries. -/
theorem Sound.after (h : pool.Sound) (call : PoolCall) :
  (pool.after call).Sound ∧ ∃ room, pool.Extends (pool.after call) room
  := by
  rw [ConstantPool.after]
  cases PoolCall.interns_additions call h with
  | gives hrun hextends hsound =>
    rw [hrun]
    exact ⟨hsound, _, hextends⟩
  | full hrun hextends hsound =>
    rw [hrun]
    exact ⟨hsound, _, hextends⟩

/-- A sound pool stays sound however many calls are made, and keeps its entries. -/
theorem Sound.run (h : pool.Sound) (calls : List PoolCall) :
  (pool.run calls).Sound ∧ ∃ room, pool.Extends (pool.run calls) room
  := by
  induction calls generalizing pool with
  | nil => exact ⟨h, 0, .refl pool⟩
  | cons call calls ih =>
    obtain ⟨hafter, room, hextends⟩ := h.after call
    obtain ⟨hrun, room', hextends'⟩ := ih hafter
    exact ⟨hrun, _, hextends.trans hextends'⟩

/-- What a call comes to. -/
structure Answers (pool : ConstantPool) (call : PoolCall) : Prop where
  /-- What was in a slot stays there. -/
  keeps : ∀ (i : Nat) c, pool.entries[i]? = some c → (pool.after call).entries[i]? = some c
  /-- The pool is valid afterwards, whatever the answer. -/
  valid : (pool.after call).validate = .ok ()
  /-- The slot that is given holds what was asked for. -/
  gives : ∀ index, pool.answer call = .ok index → call.IsHeld (pool.after call) index
  /-- The same slot is given again, at once or after other calls, and nothing is added for it. -/
  again : ∀ index, pool.answer call = .ok index → ∀ calls,
    ((pool.after call).run calls).answer call = .ok index
      ∧ ((pool.after call).run calls).after call = (pool.after call).run calls
  /-- A call fails only when all slots are taken. -/
  full : ∀ e, pool.answer call = .error e →
    e = .capacity .poolSlots (maxSlots + 1) maxSlots ∧ (pool.after call).count = maxSlots

theorem Sound.answers (h : pool.Sound) (call : PoolCall) :
  pool.Answers call
  := by
  cases PoolCall.interns_additions call h with
  | @gives slot later room hrun hextends hsound hheld hagain =>
    have hanswer : pool.answer call = .ok slot := congrArg Prod.fst hrun
    obtain rfl : pool.after call = later := congrArg Prod.snd hrun
    refine ⟨hextends.getElem?, hsound.valid, ?_, ?_, ?_⟩
    · intro index hindex
      rwa [← Except.ok.inj (hanswer.symm.trans hindex)]
    · intro index hindex calls
      obtain ⟨-, room', hextends'⟩ := hsound.run calls
      have hrepeated := hagain _ room' hextends'
      rw [← Except.ok.inj (hanswer.symm.trans hindex)]
      exact ⟨congrArg Prod.fst hrepeated, congrArg Prod.snd hrepeated⟩
    · intro e he
      rw [hanswer] at he
      cases he
  | @full later room hrun hextends hsound hfull =>
    have hanswer : pool.answer call
        = .error (.capacity .poolSlots (maxSlots + 1) maxSlots) := congrArg Prod.fst hrun
    obtain rfl : pool.after call = later := congrArg Prod.snd hrun
    refine ⟨hextends.getElem?, hsound.valid, ?_, ?_, ?_⟩
    · intro index hindex
      rw [hanswer] at hindex
      cases hindex
    · intro index hindex
      rw [hanswer] at hindex
      cases hindex
    · intro e he
      exact ⟨Except.error.inj (he.symm.trans hanswer), hfull⟩

/-- What holds of a pool at any time. -/
structure IsInterning (pool : ConstantPool) : Prop where
  /-- Slot 0 and the slots behind a long or a double are unusable, and no others. -/
  unusable_iff : ∀ i : Nat, pool.entries[i]? = some .unusable
    ↔ i = 0 ∨ ∃ j, i = j + 1 ∧ ((∃ value, pool.entries[j]? = some (.long value))
      ∨ ∃ bits, pool.entries[j]? = some (.double bits))
  /-- Every reference leads to an entry of the right kind. -/
  valid : pool.validate = .ok ()
  count_le : pool.count ≤ maxSlots
  answers : ∀ call, pool.Answers call
  /-- A method is found exactly if some slot holds it. -/
  finds : ∀ owner name descriptor, (pool.findMethodRef? owner name descriptor).isSome
    ↔ ∃ index, PoolCall.IsHeld pool (.methodRef owner name descriptor) index

/-- Whatever calls are made to a pool that was empty or was read, it is valid, keeps what it has,
and gives the same slots for the same things. -/
theorem isInterning_run {start : ConstantPool} (h : Begins start) (calls : List PoolCall) :
  (start.run calls).IsInterning
  := by
  obtain ⟨hsound, -⟩ := h.sound.run calls
  exact {
    unusable_iff := hsound.unusable_iff
    valid := hsound.valid
    count_le := hsound.count_le
    answers := hsound.answers
    finds := fun _ _ _ => isSome_findMethodRef?_iff hsound.count_le }

theorem isInterning_run_jumpClass :
  Begins ClassFile.jumpClass.pool
    ∧ (ClassFile.jumpClass.pool.run
        [.methodRef "A" "count" "(I)V", .integer 7, .nameAndType "count" "(I)V"]).IsInterning
  := by
  have hbegins : Begins ClassFile.jumpClass.pool :=
    .read (reads_toBytes ClassFile.wellFormed_jumpClass.pool 0 [])
  exact ⟨hbegins, isInterning_run hbegins _⟩

end ConstantPool

end JvmCoverage
