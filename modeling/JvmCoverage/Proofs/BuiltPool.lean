import JvmCoverage.Proofs.Interning

/-!
# Pools that were built

A pool that was built by calls is sound, but the length of a text is written in two bytes, and no
call looks at it.  Short texts stay all there are as long as only short ones are asked for
(`PoolBuilder.Keeps`), and every text that was asked for is in the pool.  So a built pool is read
back from its bytes exactly if no text that was asked for is longer than two bytes can say
(`ConstantPool.reads_toBytes_run_iff`).
-/

namespace JvmCoverage

open Text.Utf8 (encode)

/-! ## Short texts -/

namespace Constant

/-- Whether the constant is no text, or one whose length fits its field. -/
def IsShort (c : Constant) : Prop :=
  ∀ bytes, c = .utf8 bytes → bytes.length ≤ 65535

theorem valid_iff {c : Constant} :
  c.Valid ↔ c ≠ .unusable ∧ c.IsShort
  := by
  cases c <;> simp [Valid, IsShort]

end Constant

namespace ConstantPool

variable {pool : ConstantPool}

/-- Whether the lengths of all texts fit their fields. -/
def HasShortTexts (pool : ConstantPool) : Prop :=
  ∀ c ∈ pool.entries.toList, c.IsShort

/-- A constant other than the filler is one that was laid out. -/
theorem mem_layOut {constants : List Constant} {c : Constant} (hne : c ≠ .unusable) :
  c ∈ layOut constants ↔ c ∈ constants
  := by
  rw [layOut, List.mem_flatMap]
  constructor
  · rintro ⟨entry, hentry, hc⟩
    split at hc
    · rcases List.mem_pair.mp hc with rfl | heq
      · exact hentry
      · exact absurd heq hne
    · rwa [List.mem_singleton.mp hc]
  · intro hc
    use c, hc
    split <;> simp

/-- A sound pool can be written and read back if its texts are short. -/
theorem Sound.wellFormed_iff (h : pool.Sound) :
  pool.WellFormed ↔ pool.HasShortTexts
  := by
  constructor
  · intro hwf c hc bytes heq
    obtain ⟨constants, hconstants, hentries⟩ := hwf.layOut
    subst heq
    rw [hentries, List.mem_cons, mem_layOut (by simp)] at hc
    apply hconstants _ (hc.resolve_left (by simp))
  · intro hshort
    obtain ⟨constants, hconstants, hentries⟩ := h.layOut
    refine ⟨⟨constants, ?_, hentries⟩, h.count_le, h.valid⟩
    intro c hc
    have hne : c ≠ .unusable := hconstants c hc
    apply Constant.valid_iff.mpr ⟨hne, hshort c ?_⟩
    rw [hentries]
    apply List.mem_cons_of_mem _ ((mem_layOut hne).mpr hc)

/-- A sound pool is read back from its bytes exactly if its texts are short. -/
theorem Sound.reads_toBytes_iff (h : pool.Sound) :
  read.Reads pool.toBytes pool ↔ pool.HasShortTexts
  := by
  rw [← h.wellFormed_iff]
  exact ⟨fun hreads => (of_reads hreads).1, reads_toBytes⟩

end ConstantPool

/-! ## What additions keep -/

namespace PoolBuilder

variable {α β : Type} {P : ConstantPool → Prop} {b : PoolBuilder α}

/-- Whether a pool with the property `P` has it after the additions `b`, whatever they come to. -/
def Keeps (P : ConstantPool → Prop) (b : PoolBuilder α) : Prop :=
  ∀ pool, P pool → P (b.run.run pool).2

theorem Keeps.bind {f : α → PoolBuilder β} (h : Keeps P b) (h' : ∀ a, Keeps P (f a)) :
  Keeps P (b >>= f)
  := by
  intro pool hpool
  have hmiddle := h pool hpool
  rw [run_bind]
  generalize b.run.run pool = outcome at hmiddle
  obtain ⟨result, middle⟩ := outcome
  cases result with
  | error e => exact hmiddle
  | ok a => exact h' a middle hmiddle

/-- A short constant leaves short texts. -/
theorem keeps_intern {c : Constant} (hwide : c.isWide = false) (hc : c.IsShort) :
  Keeps ConstantPool.HasShortTexts (intern c)
  := by
  intro pool hpool
  have hinterned := interned_intern pool hwide
  generalize (intern c).run.run pool = outcome at hinterned
  cases hinterned with
  | found h => exact hpool
  | added h hroom =>
    intro entry hentry
    rw [toList_pushed, List.mem_append, List.mem_singleton] at hentry
    rcases hentry with hentry | rfl
    · exact hpool entry hentry
    · exact hc
  | full h hfull => exact hpool

end PoolBuilder

/-! ## Texts of calls -/

namespace PoolCall

open PoolBuilder ConstantPool

variable {pool : ConstantPool} {call : PoolCall} {index : UInt16}

/-- The texts that a call hands over. -/
def texts : PoolCall → List String
  | utf8 text => [text]
  | integer _ => []
  | classRef name => [name]
  | nameAndType name descriptor => [name, descriptor]
  | methodRef owner name descriptor => [owner, name, descriptor]

theorem keeps_utf8 {text : String} (h : (encode text).length ≤ 65535) :
  Keeps HasShortTexts (PoolBuilder.utf8 text)
  := keeps_intern rfl fun _ heq => Constant.utf8.inj heq ▸ h

theorem keeps_classRef {name : String} (h : (encode name).length ≤ 65535) :
  Keeps HasShortTexts (PoolBuilder.classRef name)
  := (keeps_utf8 h).bind fun _ => keeps_intern rfl (by simp [Constant.IsShort])

theorem keeps_nameAndType {name descriptor : String} (hname : (encode name).length ≤ 65535)
    (hdescriptor : (encode descriptor).length ≤ 65535) :
  Keeps HasShortTexts (PoolBuilder.nameAndType name descriptor)
  := (keeps_utf8 hname).bind fun _ => (keeps_utf8 hdescriptor).bind fun _ =>
    keeps_intern rfl (by simp [Constant.IsShort])

/-- A call that hands over short texts leaves short texts. -/
theorem keeps_additions (h : ∀ text ∈ call.texts, (encode text).length ≤ 65535) :
  Keeps HasShortTexts call.additions
  := by
  cases call with
  | utf8 text => exact keeps_utf8 (h text (by simp [texts]))
  | integer value => exact keeps_intern rfl (by simp [Constant.IsShort])
  | classRef name => exact keeps_classRef (h name (by simp [texts]))
  | nameAndType name descriptor =>
    exact keeps_nameAndType (h name (by simp [texts])) (h descriptor (by simp [texts]))
  | methodRef owner name descriptor =>
    refine (keeps_classRef (h owner (by simp [texts]))).bind fun _ =>
      (keeps_nameAndType (h name (by simp [texts])) (h descriptor (by simp [texts]))).bind
        fun _ => keeps_intern rfl (by simp [Constant.IsShort])

/-- What a slot holds has its texts in the pool. -/
theorem IsHeld.mem_entries (h : IsHeld pool call index) :
  ∀ text ∈ call.texts, .utf8 (encode text) ∈ pool.entries.toList
  := by
  induction h with
  | utf8 h =>
    simpa [texts] using Array.mem_of_getElem? (get?_eq_some.mp h).1
  | integer h => simp [texts]
  | classRef h _ ihname => exact ihname
  | nameAndType h _ _ ihname ihdescriptor =>
    simp only [texts, List.forall_mem_cons] at ihname ihdescriptor ⊢
    exact ⟨ihname.1, ihdescriptor⟩
  | methodRef h _ _ ihowner ihmember =>
    simp only [texts, List.forall_mem_cons] at ihowner ihmember ⊢
    exact ⟨ihowner.1, ihmember⟩

end PoolCall

namespace ConstantPool

variable {pool start : ConstantPool} {calls : List PoolCall}

/-! ## One call after the other -/

/-- Whether each of the calls, one after the other, is answered with a slot. -/
def AllAnswered : ConstantPool → List PoolCall → Prop
  | _, [] => True
  | pool, call :: calls => (∃ index, pool.answer call = .ok index)
    ∧ (pool.after call).AllAnswered calls

/-- Calls that hand over short texts leave short texts. -/
theorem HasShortTexts.run (hpool : pool.HasShortTexts)
    (h : ∀ call ∈ calls, ∀ text ∈ call.texts, (encode text).length ≤ 65535) :
  (pool.run calls).HasShortTexts
  := by
  induction calls generalizing pool with
  | nil => exact hpool
  | cons call calls ih =>
    obtain ⟨hcall, hcalls⟩ := List.forall_mem_cons.mp h
    exact ih (PoolCall.keeps_additions hcall pool hpool) hcalls

/-- What was asked for is in the pool when all calls have been made. -/
theorem Sound.exists_isHeld (hpool : pool.Sound) (h : pool.AllAnswered calls) :
  ∀ call ∈ calls, ∃ index, PoolCall.IsHeld (pool.run calls) call index
  := by
  induction calls generalizing pool with
  | nil => simp
  | cons call calls ih =>
    obtain ⟨⟨index, hindex⟩, hcalls⟩ := h
    obtain ⟨hafter, -⟩ := hpool.after call
    obtain ⟨-, room, hextends⟩ := hafter.run calls
    rw [List.forall_mem_cons]
    exact ⟨⟨index, ((hpool.answers call).gives index hindex).mono hextends⟩, ih hafter hcalls⟩

theorem Begins.hasShortTexts (h : Begins start) :
  start.HasShortTexts
  := by
  cases h with
  | empty =>
    rintro c hc bytes rfl
    cases List.mem_singleton.mp hc
  | read h =>
    obtain ⟨taken, -, -, hreads⟩ := Reader.IsLocal.reads_of_ok _ _ _ h
    have hwf := (of_reads hreads).1
    exact hwf.sound.wellFormed_iff.mp hwf

/-- A pool that was empty or was read is, when calls have been answered, read back from its bytes
exactly if every text that was handed over has at most 65535 bytes.  Reading takes exactly these
bytes. -/
theorem reads_toBytes_run_iff (hstart : Begins start) (h : start.AllAnswered calls) :
  read.Reads (start.run calls).toBytes (start.run calls)
    ↔ ∀ call ∈ calls, ∀ text ∈ call.texts, (encode text).length ≤ 65535
  := by
  rw [(hstart.sound.run calls).1.reads_toBytes_iff]
  constructor
  · intro hshort call hcall text htext
    obtain ⟨index, hheld⟩ := hstart.sound.exists_isHeld h call hcall
    exact hshort _ (hheld.mem_entries text htext) _ rfl
  · exact hstart.hasShortTexts.run

/-- A pool with a method and an integer is read back. -/
theorem reads_toBytes_run_methodRef :
  Begins .empty
    ∧ ConstantPool.empty.AllAnswered [.methodRef "a/B" "m" "()V", .integer 7, .utf8 "m"]
    ∧ read.Reads
      (ConstantPool.empty.run [.methodRef "a/B" "m" "()V", .integer 7, .utf8 "m"]).toBytes
      (ConstantPool.empty.run [.methodRef "a/B" "m" "()V", .integer 7, .utf8 "m"])
  := by
  have hanswered : ConstantPool.empty.AllAnswered
      [.methodRef "a/B" "m" "()V", .integer 7, .utf8 "m"] :=
    ⟨⟨6, by decide +kernel⟩, ⟨7, by decide +kernel⟩, ⟨3, by decide +kernel⟩, trivial⟩
  exact ⟨.empty, hanswered, (reads_toBytes_run_iff .empty hanswered).mpr (by decide +kernel)⟩

/-! ## A text that is too long -/

/-- A text whose length takes more than two bytes. -/
def longText : String := .ofList (.replicate 65536 'a')

/-- A letter takes one byte. -/
theorem length_encode_replicate (n : Nat) :
  (encode (.ofList (.replicate n 'a'))).length = n
  := by
  rw [encode, String.toUTF8, String.toByteArray_ofList]
  induction n with
  | zero => rfl
  | succ n ih =>
    have hletter : ['a'].utf8Encode.data.toList.length = 1 := by decide +kernel
    rw [List.replicate_succ, List.utf8Encode_cons, ByteArray.data_append, Array.toList_append,
      List.length_append, ih, hletter, Nat.add_comm]

theorem length_longText :
  (encode longText).length = 65536
  := length_encode_replicate 65536

/-- A text that is asked for first is the only entry. -/
theorem run_utf8 (text : String) :
  (PoolBuilder.utf8 text).run.run .empty = (.ok 1, ⟨#[.unusable, .utf8 (encode text)]⟩)
  := by
  have hinterned := PoolBuilder.interned_intern .empty (c := .utf8 (encode text)) rfl
  rw [PoolBuilder.utf8]
  generalize (PoolBuilder.intern (.utf8 (encode text))).run.run .empty = outcome at hinterned
  cases hinterned with
  | found h => simp [empty] at h
  | added h hroom => rfl
  | full h hfull => exact absurd hfull (by decide)

/-- The two bytes in front of a text of 65536 bytes are those of an empty text. -/
theorem toBytes_of_length {text : List UInt8} (h : text.length = 65536) :
  toBytes ⟨#[.unusable, .utf8 text]⟩ = toBytes ⟨#[.unusable, .utf8 []]⟩ ++ text
  := by
  have hcount : Bytes.count16 text.length = Bytes.count16 0 := by
    rw [h]
    decide +kernel
  simp [toBytes, count, Constant.toBytes, hcount]

/-- The pool with a text of 65536 letters is read back with an empty text, and the letters are left
over. -/
theorem read_longText :
  ConstantPool.empty.AllAnswered [.utf8 longText]
    ∧ read ⟨0, (ConstantPool.empty.run [.utf8 longText]).toBytes⟩
      = .ok (⟨#[.unusable, .utf8 []]⟩, ⟨5, encode longText⟩)
    ∧ ¬ read.Reads (ConstantPool.empty.run [.utf8 longText]).toBytes
      (ConstantPool.empty.run [.utf8 longText])
  := by
  have hrun : ConstantPool.empty.run [.utf8 longText]
      = ⟨#[.unusable, .utf8 (encode longText)]⟩ := congrArg Prod.snd (run_utf8 longText)
  have hempty : WellFormed ⟨#[.unusable, .utf8 []]⟩ :=
    ⟨⟨[.utf8 []], by decide, rfl⟩, by decide, rfl⟩
  have hread := reads_toBytes hempty 0 (encode longText)
  rw [← toBytes_of_length length_longText, ← hrun] at hread
  refine ⟨⟨⟨1, congrArg Prod.fst (run_utf8 longText)⟩, trivial⟩, hread, ?_⟩
  intro hreads
  have hshort := (sound_empty.run [.utf8 longText]).1.reads_toBytes_iff.mp hreads
  rw [hrun] at hshort
  have hle := hshort (.utf8 (encode longText)) (by simp) _ rfl
  rw [length_longText] at hle
  exact absurd hle (by decide)

end ConstantPool

end JvmCoverage
