import JvmCoverage.Proofs.Operation

/-!
# The forms of code arrays

A code array is the forms of its instructions one behind the other (`CodeArray.Forms`), and the
offsets at which the instructions stand tile the code (`CodeArray.Tiles`).  Reading accepts the
forms whose targets are offsets of instructions (`CodeArray.read_eq_ok`), writing gives the form
with zeros for padding (`CodeArray.write_eq`), and what is written for well-formed instructions is
read back (`CodeArray.read_written`).
-/

namespace JvmCoverage

namespace CodeArray

/-! ## Tilings -/

/-- Whether the instructions stand one behind the other from `start` up to `limit`. -/
def Tiles : (start : Nat) → List Instruction → (limit : Nat) → Prop
  | start, [], limit => start = limit
  | start, insn :: insns, limit => insn.offset = start ∧ Tiles insn.limit insns limit

instance : (start : Nat) → (insns : List Instruction) → (limit : Nat) →
    Decidable (Tiles start insns limit)
  | start, [], limit => inferInstanceAs (Decidable (start = limit))
  | _, insn :: insns, limit =>
    have : Decidable (Tiles insn.limit insns limit) := instDecidableTiles insn.limit insns limit
    inferInstanceAs (Decidable (_ ∧ _))

/-- An instruction takes at least a byte. -/
theorem offset_lt_limit (insn : Instruction) :
  insn.offset < insn.limit
  := Nat.lt_add_of_pos_right (Operation.size_pos insn.offset insn.op)

theorem Tiles.le {start limit : Nat} {insns : List Instruction} (h : Tiles start insns limit) :
  start ≤ limit
  := by
  induction insns generalizing start with
  | nil => apply Nat.le_of_eq h
  | cons insn insns ih =>
    obtain ⟨rfl, h⟩ := h
    apply (offset_lt_limit insn).le.trans (ih h)

/-- An instruction takes at least a byte. -/
theorem Tiles.length_add_le {start limit : Nat} {insns : List Instruction}
    (h : Tiles start insns limit) :
  start + insns.length ≤ limit
  := by
  induction insns generalizing start with
  | nil => exact h.le
  | cons insn insns ih =>
    obtain ⟨rfl, htail⟩ := h
    have hlt := offset_lt_limit insn
    have hle := ih htail
    rw [List.length_cons]
    omega

/-- The instructions of a tiling lie inside it. -/
theorem Tiles.bounds {start limit : Nat} {insns : List Instruction} (h : Tiles start insns limit)
    {insn : Instruction} (hinsn : insn ∈ insns) :
  start ≤ insn.offset ∧ insn.limit ≤ limit
  := by
  induction insns generalizing start with
  | nil => cases hinsn
  | cons insn' insns ih =>
    obtain ⟨rfl, h⟩ := h
    rcases List.mem_cons.mp hinsn with rfl | hinsn
    · exact ⟨le_rfl, h.le⟩
    · obtain ⟨hlow, hhigh⟩ := ih h hinsn
      exact ⟨(offset_lt_limit insn').le.trans hlow, hhigh⟩

/-- An offset in a tiling lies in one of its instructions. -/
theorem Tiles.exists_mem {start limit : Nat} {insns : List Instruction}
    (h : Tiles start insns limit) {offset : Nat} (hstart : start ≤ offset)
    (hlimit : offset < limit) :
  ∃ insn ∈ insns, insn.offset ≤ offset ∧ offset < insn.limit
  := by
  induction insns generalizing start with
  | nil =>
    have heq : start = limit := h
    omega
  | cons insn insns ih =>
    obtain ⟨rfl, h⟩ := h
    rcases Nat.lt_or_ge offset insn.limit with hlt | hge
    · exact ⟨insn, List.mem_cons_self, hstart, hlt⟩
    · obtain ⟨insn', hinsn', hin⟩ := ih h hge
      exact ⟨insn', List.mem_cons_of_mem _ hinsn', hin⟩

/-- An offset lies in only one instruction of a tiling. -/
theorem Tiles.eq_of_mem {start limit : Nat} {insns : List Instruction}
    (h : Tiles start insns limit) {a b : Instruction} (ha : a ∈ insns) (hb : b ∈ insns)
    {offset : Nat} (hinA : a.offset ≤ offset ∧ offset < a.limit)
    (hinB : b.offset ≤ offset ∧ offset < b.limit) :
  a = b
  := by
  induction insns generalizing start with
  | nil => cases ha
  | cons insn insns ih =>
    obtain ⟨rfl, h⟩ := h
    rcases List.mem_cons.mp ha with rfl | ha' <;> rcases List.mem_cons.mp hb with rfl | hb'
    · rfl
    · have hle := (h.bounds hb').1
      omega
    · have hle := (h.bounds ha').1
      omega
    · apply ih h ha' hb'

/-- A tiling of a beginning and a tiling of the remainder make a tiling. -/
theorem tiles_append {start limit : Nat} {front back : List Instruction} :
  Tiles start (front ++ back) limit ↔ ∃ middle, Tiles start front middle ∧ Tiles middle back limit
  := by
  induction front generalizing start with
  | nil =>
    constructor
    · exact fun h => ⟨start, rfl, h⟩
    · rintro ⟨_, rfl, h⟩
      apply h
  | cons insn front ih =>
    simp only [List.cons_append, Tiles, ih]
    constructor
    · rintro ⟨hoffset, middle, hfront, hback⟩
      exact ⟨middle, ⟨hoffset, hfront⟩, hback⟩
    · rintro ⟨middle, ⟨hoffset, hfront⟩, hback⟩
      exact ⟨hoffset, middle, hfront, hback⟩

/-- The offsets of a tiling increase. -/
theorem Tiles.pairwise {start limit : Nat} {insns : List Instruction}
    (h : Tiles start insns limit) :
  insns.Pairwise (fun a b => a.limit ≤ b.offset)
  := by
  induction insns generalizing start with
  | nil => exact .nil
  | cons insn insns ih =>
    obtain ⟨rfl, h⟩ := h
    exact .cons (fun b hb => (h.bounds hb).1) (ih h)

/-- A tiling ends behind its last instruction. -/
theorem Tiles.limit_eq {start limit : Nat} {insns : List Instruction}
    (h : Tiles start insns limit) (hne : insns ≠ []) :
  (insns.getLast?.map Instruction.limit).getD 0 = limit
  := by
  obtain ⟨front, insn, rfl⟩ := (List.eq_nil_or_concat' insns).resolve_left hne
  obtain ⟨middle, -, -, hlimit⟩ := tiles_append.mp h
  rw [List.getLast?_concat]
  apply hlimit

/-! ## Forms -/

/-- Whether `bytes` are forms of the instructions one behind the other, the first at `offset`. -/
inductive Forms (codeLength : Nat) :
    (offset : Nat) → (bytes : List UInt8) → List Instruction → Prop where
  | nil (offset : Nat) : Forms codeLength offset [] []
  | cons {offset : Nat} {taken rest : List UInt8} {op : Operation} {insns : List Instruction}
      (head : Operation.IsForm offset codeLength taken op)
      (tail : Forms codeLength (offset + taken.length) rest insns) :
      Forms codeLength offset (taken ++ rest) (⟨offset, op⟩ :: insns)

/-- A form of an operation has the size of the operation. -/
theorem length_of_isForm {offset codeLength : Nat} {taken : List UInt8} {op : Operation}
    (h : Operation.IsForm offset codeLength taken op) :
  taken.length = op.size offset
  := by
  obtain ⟨-, -, padding, hpadding, rfl⟩ := h
  apply Operation.length_form op hpadding

theorem ne_nil_of_isForm {offset codeLength : Nat} {taken : List UInt8} {op : Operation}
    (h : Operation.IsForm offset codeLength taken op) :
  taken ≠ []
  := by
  have hpos := Operation.size_pos offset op
  rw [← length_of_isForm h] at hpos
  apply List.ne_nil_of_length_pos hpos

/-- Forms of instructions tile the bytes. -/
theorem Forms.tiles {codeLength offset : Nat} {bytes : List UInt8} {insns : List Instruction}
    (h : Forms codeLength offset bytes insns) :
  Tiles offset insns (offset + bytes.length)
  := by
  induction h with
  | nil offset => rfl
  | cons head tail ih =>
    use rfl
    rw [length_of_isForm head, Nat.add_assoc] at ih
    rw [List.length_append, length_of_isForm head]
    apply ih

theorem Forms.wellFormed {codeLength offset : Nat} {bytes : List UInt8}
    {insns : List Instruction} (h : Forms codeLength offset bytes insns) :
  ∀ insn ∈ insns, insn.op.WellFormed ∧ insn.op.InReach insn.offset codeLength
  := by
  induction h with
  | nil offset => simp
  | cons head tail ih =>
    rw [List.forall_mem_cons]
    exact ⟨⟨head.1, head.2.1⟩, ih⟩

/-- Reading instructions succeeds on their forms. -/
theorem instructionsAfter_of_forms {codeLength offset : Nat} {bytes : List UInt8}
    {insns : List Instruction} (h : Forms codeLength offset bytes insns)
    (done : List Instruction) :
  instructionsAfter codeLength done ⟨offset, bytes⟩ = .ok (done.reverse ++ insns)
  := by
  induction h generalizing done with
  | nil offset => simp [instructionsAfter]
  | @cons offset taken rest op insns head tail ih =>
    have hread := Operation.reads_of_isForm head offset rest
    have hne : (taken ++ rest).isEmpty = false := by
      simp [ne_nil_of_isForm head]
    rw [instructionsAfter, if_neg (by simp [hne])]
    split
    · rename_i e he
      rw [hread] at he
      cases he
    · rename_i op' c' hop
      rw [hread] at hop
      cases hop
      rw [ih]
      simp

/-- Reading instructions succeeds on nothing else. -/
theorem forms_of_instructionsAfter {codeLength : Nat} {done insns : List Instruction}
    {c : Cursor} (h : instructionsAfter codeLength done c = .ok insns) :
  ∃ insns', Forms codeLength c.position c.rest insns' ∧ insns = done.reverse ++ insns'
  := by
  fun_induction instructionsAfter codeLength done c with
  | case1 done c hempty =>
    rw [List.isEmpty_iff.mp hempty]
    cases h
    exact ⟨[], .nil _, (List.append_nil _).symm⟩
  | case2 done c hempty e he => cases h
  | case3 done c hempty op c' hop ih =>
    obtain ⟨insns', hforms, rfl⟩ := ih h
    obtain ⟨taken, hrest, hc', hreads⟩ := Reader.exists_reads hop
    rw [hrest]
    rw [hc'] at hforms
    exact ⟨⟨c.position, op⟩ :: insns', .cons (Operation.isForm_of_reads hreads) hforms, by simp⟩

theorem instructionsAfter_eq_ok {codeLength : Nat} {code : List UInt8}
    {insns : List Instruction} :
  instructionsAfter codeLength [] ⟨0, code⟩ = .ok insns ↔ Forms codeLength 0 code insns
  := by
  constructor
  · intro h
    obtain ⟨insns', hforms, rfl⟩ := forms_of_instructionsAfter h
    apply hforms
  · exact fun h => instructionsAfter_of_forms h []

/-! ## Reading -/

/-- Whether every target of the instructions is the offset of one of them. -/
def Lands (insns : List Instruction) : Prop :=
  ∀ insn ∈ insns, ∀ target ∈ insn.op.targets, target ∈ insns.map Instruction.offset

instance (insns : List Instruction) : Decidable (Lands insns) :=
  inferInstanceAs (Decidable (∀ _ ∈ _, _))

theorem checkTargets_eq_ok {starts : Std.HashSet Nat} {insn : Instruction} :
  checkTargets starts insn = .ok () ↔ ∀ target ∈ insn.op.targets, target ∈ starts
  := by
  simp only [checkTargets, strayTarget?]
  split
  · rename_i target htarget
    simp only [reduceCtorEq, false_iff, not_forall]
    have hmem := List.mem_of_find?_eq_some htarget
    have hstray := List.find?_some htarget
    exact ⟨target, hmem, by simpa using hstray⟩
  · rename_i hnone
    simpa using hnone

/-- Reading accepts code of admissible length that is made of forms and jumps to instructions. -/
theorem read_eq_ok {code : List UInt8} {insns : List Instruction} :
  read code = .ok insns
    ↔ (0 < code.length ∧ code.length ≤ maxLength) ∧ Forms code.length 0 code insns ∧ Lands insns
  := by
  simp only [read, throw_bind, ite_throw_eq_ok, bind_eq_ok, instructionsAfter_eq_ok, pure_eq_ok,
    forM_eq_ok, checkTargets_eq_ok]
  constructor
  · rintro ⟨hlength, _, hforms, ⟨⟩, hlands, rfl⟩
    use by omega, hforms
    intro insn hinsn target htarget
    simpa using hlands insn hinsn target htarget
  · rintro ⟨hlength, hforms, hlands⟩
    refine ⟨by omega, insns, hforms, (), ?_, rfl⟩
    intro insn hinsn target htarget
    simpa using hlands insn hinsn target htarget

/-! ## Writing -/

/-- Whether instructions make up a code array. -/
structure WellFormed (insns : List Instruction) (codeLength : Nat) : Prop where
  tiles : Tiles 0 insns codeLength
  pos : 0 < codeLength
  le : codeLength ≤ maxLength
  ops : ∀ insn ∈ insns, insn.op.WellFormed
  reach : ∀ insn ∈ insns, insn.op.InReach insn.offset codeLength
  lands : Lands insns

instance (insns : List Instruction) (codeLength : Nat) :
    Decidable (WellFormed insns codeLength) :=
  decidable_of_iff
    (Tiles 0 insns codeLength ∧ 0 < codeLength ∧ codeLength ≤ maxLength
      ∧ (∀ insn ∈ insns, insn.op.WellFormed)
      ∧ (∀ insn ∈ insns, insn.op.InReach insn.offset codeLength) ∧ Lands insns)
    ⟨fun ⟨htiles, hpos, hle, hops, hreach, hlands⟩ => ⟨htiles, hpos, hle, hops, hreach, hlands⟩,
      fun h => ⟨h.tiles, h.pos, h.le, h.ops, h.reach, h.lands⟩⟩

/-- The form that is written. -/
def form (insns : List Instruction) : List UInt8 :=
  insns.flatMap fun insn => insn.op.form (Operation.zeros insn.offset) insn.offset

theorem length_form {start limit : Nat} {insns : List Instruction}
    (h : Tiles start insns limit) :
  start + (form insns).length = limit
  := by
  induction insns generalizing start with
  | nil => apply h
  | cons insn insns ih =>
    obtain ⟨rfl, h⟩ := h
    rw [form, List.flatMap_cons, List.length_append,
      Operation.length_form insn.op (Operation.length_zeros insn.offset), ← Nat.add_assoc]
    apply ih h

/-- The form that is written is a form. -/
theorem forms_form {codeLength start limit : Nat} {insns : List Instruction}
    (htiles : Tiles start insns limit)
    (hops : ∀ insn ∈ insns, insn.op.WellFormed ∧ insn.op.InReach insn.offset codeLength) :
  Forms codeLength start (form insns) insns
  := by
  induction insns generalizing start with
  | nil => exact .nil start
  | cons insn insns ih =>
    rw [List.forall_mem_cons] at hops
    obtain ⟨⟨hwf, hreach⟩, hops⟩ := hops
    obtain ⟨rfl, htiles⟩ := htiles
    have hform : Operation.IsForm insn.offset codeLength
        (insn.op.form (Operation.zeros insn.offset) insn.offset) insn.op :=
      ⟨hwf, hreach, _, Operation.length_zeros insn.offset, rfl⟩
    apply Forms.cons hform
    rw [length_of_isForm hform]
    apply ih htiles hops

theorem size_append (written : Array UInt8) (bytes : List UInt8) :
  (written ++ bytes).size = written.size + bytes.length
  := by
  simp [← Array.length_toList]

theorem foldlM_writeNext {codeLength start limit : Nat} {insns : List Instruction}
    (htiles : Tiles start insns limit)
    (hops : ∀ insn ∈ insns, insn.op.WellFormed ∧ insn.op.InReach insn.offset codeLength)
    (written : Array UInt8) (hsize : written.size = start) :
  insns.foldlM writeNext written = .ok (written ++ form insns)
  := by
  induction insns generalizing start written with
  | nil => simp [form, pure, Except.pure]
  | cons insn insns ih =>
    rw [List.forall_mem_cons] at hops
    obtain ⟨⟨hwf, hreach⟩, hops⟩ := hops
    obtain ⟨rfl, htiles⟩ := htiles
    have hwrite : writeNext written insn
        = .ok (written ++ insn.op.form (Operation.zeros insn.offset) insn.offset) := by
      rw [writeNext, if_neg (not_not_intro hsize), Operation.toBytes_eq hwf hreach]
      rfl
    rw [List.foldlM_cons, hwrite]
    refine (ih htiles hops _ ?_).trans ?_
    · rw [size_append, hsize, Operation.length_form insn.op (Operation.length_zeros insn.offset)]
      rfl
    · congr 1
      apply Array.ext'
      simp [form]

/-- Well-formed instructions are written, with zeros for padding. -/
theorem write_eq {codeLength : Nat} {insns : List Instruction}
    (h : WellFormed insns codeLength) :
  write insns = .ok (form insns)
  := by
  have hlength := length_form h.tiles
  have hwrite := foldlM_writeNext h.tiles (fun insn hinsn => ⟨h.ops insn hinsn, h.reach insn hinsn⟩)
    #[] rfl
  have hpos := h.pos
  have hle := h.le
  simp only [write, throw_bind, bind_eq_ok, ite_throw_eq_ok, pure_eq_ok]
  refine ⟨_, hwrite, ?_, by simp⟩
  rw [size_append, List.size_toArray, List.length_nil]
  omega

/-- What is written for well-formed instructions is read back. -/
theorem read_written {codeLength : Nat} {insns : List Instruction}
    (h : WellFormed insns codeLength) :
  read (form insns) = .ok insns
  := by
  have hlength : (form insns).length = codeLength := by
    have := length_form h.tiles
    omega
  rw [read_eq_ok, hlength]
  exact ⟨⟨h.pos, h.le⟩,
    forms_form h.tiles fun insn hinsn => ⟨h.ops insn hinsn, h.reach insn hinsn⟩, h.lands⟩

/-- Instructions that were read are well formed. -/
theorem wellFormed_of_read {code : List UInt8} {insns : List Instruction}
    (h : read code = .ok insns) :
  WellFormed insns code.length
  := by
  obtain ⟨⟨hpos, hle⟩, hforms, hlands⟩ := read_eq_ok.mp h
  have htiles := hforms.tiles
  rw [Nat.zero_add] at htiles
  exact ⟨htiles, hpos, hle, fun insn hinsn => (hforms.wellFormed insn hinsn).1,
    fun insn hinsn => (hforms.wellFormed insn hinsn).2, hlands⟩

/-! ## Padding -/

/-- The padding of a switch at `offset`. -/
def paddingAt (code : List UInt8) (offset : Nat) : List UInt8 :=
  (code.drop (offset + 1)).take (switchPadding offset)

/-- Whether every padding byte of the code is zero. -/
def HasZeroPadding (code : List UInt8) (insns : List Instruction) : Prop :=
  ∀ insn ∈ insns, ∀ opcode default cases, insn.op = .switch opcode default cases →
    ∀ byte ∈ paddingAt code insn.offset, byte = 0

/-- Padding is the only part of a form that can be chosen. -/
theorem form_eq_of_zeros {padding : List UInt8} {offset : Nat} {op : Operation}
    (h : ∀ opcode default cases, op = .switch opcode default cases →
      padding = Operation.zeros offset) :
  op.form padding offset = op.form (Operation.zeros offset) offset
  := by
  cases op with
  | switch opcode default cases => rw [h opcode default cases rfl]
  | subroutineReturn index wide => cases wide <;> rfl
  | _ => rfl

theorem Forms.eq_form {codeLength : Nat} {code : List UInt8} {offset : Nat}
    {bytes : List UInt8} {insns : List Instruction} (h : Forms codeLength offset bytes insns)
    (hcode : code.drop offset = bytes) (hzero : HasZeroPadding code insns) :
  bytes = form insns
  := by
  induction h with
  | nil offset => rfl
  | @cons offset taken rest op insns head tail ih =>
    have hlength := length_of_isForm head
    obtain ⟨hwf, hreach, padding, hpadding, rfl⟩ := head
    have hrest : code.drop (offset + (op.form padding offset).length) = rest := by
      rw [← List.drop_drop, hcode, List.drop_left]
    rw [form, List.flatMap_cons,
      ih hrest fun insn hinsn => hzero insn (List.mem_cons_of_mem _ hinsn)]
    congr 1
    apply form_eq_of_zeros
    rintro opcode default cases rfl
    apply List.eq_replicate_iff.mpr
    constructor
    · apply hpadding
    · have hpaddingAt : paddingAt code offset = padding := by
        rw [paddingAt, ← List.drop_drop, hcode, ← hpadding]
        simp [Operation.form]
      rw [← hpaddingAt]
      apply hzero _ List.mem_cons_self opcode default cases rfl

end CodeArray

end JvmCoverage
