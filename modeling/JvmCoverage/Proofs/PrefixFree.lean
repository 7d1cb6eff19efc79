import JvmCoverage.Proofs.Class

/-!
# No class is the beginning of another

What is read from front to back needs all of its bytes: a form cut short is refused for want of
bytes, and bytes behind a form are left over.  Checks lie between the reads, but each looks only at
what was read before it, so a check that passes on the whole form passes on what is left of it.
-/

namespace JvmCoverage

namespace Reader

variable {α β : Type}

/-- Whether the bytes came to an end before all was read. -/
def EndsEarly (outcome : Except DecodeError α) : Prop :=
  ∃ offset needed, outcome = .error (.unexpectedEnd offset needed)

/-- Every proper beginning of a form ends early. -/
class NeedsAll (r : Reader α) : Prop where
  endsEarly : ∀ taken a, r.Reads taken a →
    ∀ position front, front <+: taken → front ≠ taken → EndsEarly (r ⟨position, front⟩)

/-! ## Sequences -/

/-- What ends early in its first part ends early. -/
theorem EndsEarly.bind {r : Reader α} {c : Cursor} (h : EndsEarly (r c)) (f : α → Reader β) :
  EndsEarly ((r >>= f) c)
  := by
  obtain ⟨offset, needed, heq⟩ := h
  use offset, needed
  rw [bind_apply, heq]

/-- What takes nothing has no proper beginning. -/
theorem needsAll_of_nil {r : Reader α} (h : ∀ taken a, r.Reads taken a → taken = []) :
  NeedsAll r
  where
    endsEarly taken a hreads position front hbegins hne := by
      obtain rfl := h taken a hreads
      exact absurd (List.prefix_nil.mp hbegins) hne

instance (r : Reader α) (f : α → Reader β) [IsLocal r] [∀ a, IsLocal (f a)] [NeedsAll r]
    [∀ a, NeedsAll (f a)] : NeedsAll (r >>= f) where
  endsEarly taken b hreads position piece hbegins hne := by
    obtain ⟨a, front, hfront, back, hback, rfl⟩ := reads_bind.mp hreads
    by_cases hwhole : front <+: piece
    · -- the first part is whole, so the cut is in the second
      obtain ⟨rest, rfl⟩ := hwhole
      rw [List.prefix_append_right_inj] at hbegins
      rw [bind_apply, hfront]
      apply NeedsAll.endsEarly back b hback _ rest hbegins
      rintro rfl
      exact hne rfl
    · have hcut : piece <+: front :=
        (List.prefix_or_prefix_of_prefix hbegins (List.prefix_append front back)).resolve_right
          hwhole
      apply EndsEarly.bind
      apply NeedsAll.endsEarly front a hfront position piece hcut
      rintro rfl
      exact hwhole List.prefix_rfl

instance (a : α) : NeedsAll (pure a : Reader α) :=
  needsAll_of_nil fun _ _ h => (reads_pure.mp h).2

instance (f : α → β) (r : Reader α) [IsLocal r] [NeedsAll r] : NeedsAll (f <$> r) :=
  inferInstanceAs (NeedsAll (r >>= fun a => pure (f a)))

instance (r : Reader (α → β)) (s : Reader α) [IsLocal r] [IsLocal s] [NeedsAll r] [NeedsAll s] :
    NeedsAll (r <*> s) :=
  inferInstanceAs (NeedsAll (r >>= fun f => f <$> s))

instance (e : DecodeError) : NeedsAll (throw e : Reader α) where
  endsEarly _ _ h := absurd h not_reads_throw

instance (outcome : Except DecodeError α) : NeedsAll (lift outcome) :=
  needsAll_of_nil fun _ _ h => (reads_lift.mp h).2

instance (p : Prop) [Decidable p] (r s : Reader α) [NeedsAll r] [NeedsAll s] :
    NeedsAll (if p then r else s) := by
  split <;> infer_instance

/-! ## Pieces of given length -/

instance (n : Nat) : NeedsAll (take n) where
  endsEarly taken bytes hreads position front hbegins hne := by
    obtain ⟨rfl, rfl⟩ := reads_take.mp hreads
    have hlt : front.length < taken.length := by
      apply Nat.lt_of_le_of_ne hbegins.length_le
      intro heq
      exact hne (hbegins.eq_of_length heq)
    use position, taken.length
    simp [take, hlt]

instance (width : Nat) : NeedsAll (unsigned width) :=
  inferInstanceAs (NeedsAll (_ <$> take width))

instance (width : Nat) : NeedsAll (signed width) :=
  inferInstanceAs (NeedsAll (_ <$> take width))

instance : NeedsAll field8 :=
  inferInstanceAs (NeedsAll (_ <$> unsigned 1))

instance : NeedsAll field16 :=
  inferInstanceAs (NeedsAll (_ <$> unsigned 2))

instance : NeedsAll field32 :=
  inferInstanceAs (NeedsAll (_ <$> unsigned 4))

instance : NeedsAll field64 :=
  inferInstanceAs (NeedsAll (_ <$> unsigned 8))

/-! ## Repetition -/

instance (n : Nat) (r : Reader α) [IsLocal r] [NeedsAll r] : NeedsAll (times n r) := by
  induction n with
  | zero => exact inferInstanceAs (NeedsAll (pure []))
  | succ n ih =>
    rw [times_succ]
    infer_instance

instance (r : Reader α) [IsLocal r] [NeedsAll r] : NeedsAll (counted r) :=
  inferInstanceAs (NeedsAll (unsigned 2 >>= fun n => times n r))

/-! ## Whole sequences -/

/-- Of what is read as a whole, no proper beginning can be read, and nothing with more behind it. -/
theorem runAll_of_ok {r : Reader α} [IsLocal r] [NeedsAll r] {bytes : List UInt8} {a : α}
    (h : runAll r bytes = .ok a) :
  (∀ front, front <+: bytes → front ≠ bytes → EndsEarly (runAll r front))
    ∧ ∀ back, back ≠ [] → runAll r (bytes ++ back) = .error (.trailingBytes back.length)
  := by
  have hreads := runAll_eq_ok.mp h
  constructor
  · intro front hbegins hne
    obtain ⟨offset, needed, hend⟩ := NeedsAll.endsEarly bytes a hreads 0 front hbegins hne
    use offset, needed
    simp [runAll, run, bind_apply, hend]
  · intro back hne
    simp [runAll, run, bind_apply, map_apply, hreads 0 back, finish, hne]

end Reader

/-! ## Constants and pools -/

open Reader

instance (index : UInt16) (tag : UInt8) : NeedsAll (Constant.readPayload index tag) := by
  unfold Constant.readPayload
  split <;> infer_instance

instance (index : UInt16) : NeedsAll (Constant.read index) :=
  inferInstanceAs (NeedsAll (field8 >>= Constant.readPayload index))

namespace ConstantPool

theorem needsAll_readEntries : ∀ (slots : Nat) (entries : Array Constant),
  NeedsAll (readEntries slots entries)
  | 0, entries => inferInstanceAs (NeedsAll (pure entries))
  | 1, entries => by
    rw [readEntries]
    infer_instance
  | slots + 2, entries => by
    have hwide : ∀ entries, NeedsAll (readEntries slots entries) := needsAll_readEntries slots
    have hnarrow : ∀ entries, NeedsAll (readEntries (slots + 1) entries) :=
      needsAll_readEntries (slots + 1)
    rw [readEntries]
    infer_instance

instance (slots : Nat) (entries : Array Constant) : NeedsAll (readEntries slots entries) :=
  needsAll_readEntries slots entries

instance : NeedsAll read := by
  rw [read]
  infer_instance

end ConstantPool

/-! ## Classes -/

namespace ClassFile

instance (pool : ConstantPool) : NeedsAll (readRawAttribute pool) := by
  rw [readRawAttribute]
  infer_instance

instance (pool : ConstantPool) : NeedsAll (readField pool) := by
  rw [readField]
  infer_instance

instance (pool : ConstantPool) : NeedsAll (readMethodAttribute pool) := by
  rw [MethodAttribute.readMethodAttribute_eq]
  rw [readFramed]
  infer_instance

instance (pool : ConstantPool) : NeedsAll (readMethod pool) := by
  rw [readMethod]
  infer_instance

instance : NeedsAll readMagic := by
  rw [readMagic]
  infer_instance

instance (pool : ConstantPool) : NeedsAll (readMembers pool) := by
  rw [readMembers]
  infer_instance

set_option synthInstance.maxSize 256 in
instance (minorVersion majorVersion : UInt16) (pool : ConstantPool) :
    NeedsAll (readBehindPool minorVersion majorVersion pool) := by
  rw [readBehindPool]
  infer_instance

instance : NeedsAll readClass := by
  rw [readClass_eq]
  infer_instance

/-- Of the bytes of a class no proper beginning is a class, for want of bytes, and with more bytes
behind them they are none, for the bytes left over. -/
theorem read_prefixFree {bytes : List UInt8} {c : ClassFile} (h : read bytes = .ok c) :
  (∀ front, front <+: bytes → front ≠ bytes →
      ∃ offset needed, read front = .error (.unexpectedEnd offset needed))
    ∧ ∀ back, back ≠ [] → read (bytes ++ back) = .error (.trailingBytes back.length)
  := runAll_of_ok h

theorem read_prefixFree_jumpClass :
  read jumpClass.form = .ok jumpClass
    ∧ (∃ offset needed, read (jumpClass.form.take 20) = .error (.unexpectedEnd offset needed))
    ∧ read (jumpClass.form ++ [0, 0]) = .error (.trailingBytes 2)
  := by
  obtain ⟨hcut, hlonger⟩ := read_prefixFree read_form_jumpClass
  refine ⟨read_form_jumpClass, ?_, hlonger [0, 0] (by decide)⟩
  apply hcut _ (List.take_prefix _ _)
  decide +kernel

end ClassFile

end JvmCoverage
