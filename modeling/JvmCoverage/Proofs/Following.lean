import JvmCoverage.Machine.Reading
import JvmCoverage.Proofs.Unambiguous

/-!
# Decoders that follow readers

A decoder on a machine *follows* a reader when it does on an array of bytes, from any position in
it, what the reader does on the bytes from there on: the same result at the same position, or the
same error, and so never a fault.  Decoders put together from parts that follow do so themselves.
-/

namespace JvmCoverage.Machine

/-! ## Following a reader -/

namespace ByteReader

/-- The place at which a reader of the bytes stands. -/
def cursor (s : ByteReader) : Cursor :=
  ⟨s.position, s.bytes.drop s.position⟩

/-- The same bytes at the position of a cursor. -/
def moved (s : ByteReader) (c : Cursor) : ByteReader :=
  { s with position := c.position }

/-- The position is one of an array whose length has 64 bits. -/
structure IsValid (s : ByteReader) : Prop where
  position_le : s.position ≤ s.bytes.length
  length_lt : s.bytes.length < 2 ^ 64

theorem moved_spec {s : ByteReader} (hs : s.IsValid) {taken : List UInt8} {c : Cursor}
    (hrest : s.cursor.rest = taken ++ c.rest)
    (hposition : c.position = s.cursor.position + taken.length) :
  (s.moved c).IsValid ∧ (s.moved c).cursor = c
  := by
  have hle := hs.position_le
  have hlength := congrArg List.length hrest
  simp only [cursor, List.length_drop, List.length_append] at hlength hposition
  have hdrop : s.bytes.drop c.position = c.rest := by
    rw [hposition, ← List.drop_drop]
    change s.bytes.drop s.position = _ at hrest
    simp [hrest]
  constructor
  · exact ⟨by simp only [moved]; omega, hs.length_lt⟩
  · cases c
    simp_all [cursor, moved]

end ByteReader

/-- The decoder does what the reader does. -/
def Follows {α : Type} (d : Decoder α) (r : Reader α) : Prop :=
  ∀ s : ByteReader, s.IsValid →
    d s = faultless ((r s.cursor).map fun p => (p.1, s.moved p.2))

section Combinators

variable {α β : Type} {d : Decoder α} {r : Reader α}

theorem follows_pure (a : α) :
  Follows (pure a) (pure a)
  := fun _ _ => rfl

theorem follows_throw (e : DecodeError) :
  Follows (throw (.error e) : Decoder α) (throw e)
  := fun _ _ => rfl

/-- What comes next may rely on what the reader has found. -/
theorem Follows.bind [Reader.IsLocal r] {f : α → Decoder β} {g : α → Reader β} (hd : Follows d r)
    (hf : ∀ a, (∃ taken, r.Reads taken a) → Follows (f a) (g a)) :
  Follows (d >>= f) (r >>= g)
  := by
  intro s hs
  rw [Reader.bind_apply]
  change (d s >>= fun p => f p.1 p.2) = _
  rw [hd s hs]
  cases hr : r s.cursor with
  | error e => rfl
  | ok p =>
    obtain ⟨taken, hrest, hposition, hreads⟩ := Reader.IsLocal.reads_of_ok _ _ _ hr
    obtain ⟨hvalid, hcursor⟩ := ByteReader.moved_spec hs hrest hposition
    change f p.1 (s.moved p.2) = _
    rw [hf p.1 ⟨taken, hreads⟩ _ hvalid, hcursor]
    rfl

theorem Follows.map (hd : Follows d r) (f : α → β) :
  Follows (f <$> d) (f <$> r)
  := by
  intro s hs
  rw [Reader.map_apply]
  change (d s >>= fun p => pure (f p.1, p.2)) = _
  rw [hd s hs]
  cases r s.cursor <;> rfl

theorem Follows.seq [Reader.IsLocal r] {d' : Decoder (α → β)} {r' : Reader (α → β)}
    [Reader.IsLocal r'] (hd' : Follows d' r') (hd : Follows d r) :
  Follows (d' <*> d) (r' <*> r)
  := hd'.bind fun f _ => hd.map f

theorem Follows.ite {p : Prop} [Decidable p] {d' : Decoder α} {r' : Reader α}
    (h : p → Follows d r) (h' : ¬ p → Follows d' r') :
  Follows (if p then d else d') (if p then r else r')
  := by
  split
  · exact h ‹_›
  · exact h' ‹_›

theorem follows_checked {x : Checked DecodeError α} {outcome : Except DecodeError α}
    (h : x = faultless outcome) :
  Follows (StateT.lift x) (Reader.lift outcome)
  := by
  subst h
  intro s hs
  cases outcome <;> rfl

theorem follows_lift (outcome : Except DecodeError α) :
  Follows (lift outcome) (Reader.lift outcome)
  := follows_checked rfl

theorem Follows.times [Reader.IsLocal r] (hd : Follows d r) (n : Nat) :
  Follows (times n d) (Reader.times n r)
  := by
  induction n with
  | zero => exact follows_pure []
  | succ n ih =>
    rw [Reader.times_succ]
    exact hd.bind fun a _ => ih.bind fun as _ => follows_pure (a :: as)

end Combinators

/-! ## Bytes -/

theorem remaining_eq {s : ByteReader} (hs : s.IsValid) :
  remaining s = pure (s.cursor.rest.length, s)
  := by
  have hle : remaining s = (sub s.bytes.length s.position : Decoder Nat) s := rfl
  rw [hle, sub_eq hs.position_le, ByteReader.cursor, List.length_drop]
  rfl

theorem follows_demand (n : Nat) :
  Follows (demand n) (Reader.demand n)
  := by
  intro s hs
  change (remaining s >>= _) = _
  rw [remaining_eq hs]
  simp only [pure_bind, Reader.demand, List.length_take]
  by_cases h : s.cursor.rest.length < n
  · rw [if_pos h, if_pos (by omega)]
    rfl
  · rw [if_neg h, if_neg (by omega)]
    rfl

/-- What comes next stays where a demand has been. -/
theorem follows_demand_bind {α : Type} {n : Nat} {d : Decoder α} {r : Reader α}
    (h : Follows d r) :
  Follows (demand n >>= fun _ => d) (Reader.demand n >>= fun _ => r)
  := by
  intro s hs
  rw [Reader.bind_apply]
  change (demand n s >>= fun p => d p.2) = _
  rw [follows_demand n s hs]
  simp only [Reader.demand]
  split
  · rfl
  · exact h s hs

theorem follows_take (n : Nat) :
  Follows (take n) (Reader.take n)
  := by
  intro s hs
  have hle := hs.position_le
  have hlt := hs.length_lt
  have hlength : s.cursor.rest.length = s.bytes.length - s.position := List.length_drop
  change (remaining s >>= _) = _
  rw [remaining_eq hs, pure_bind]
  change (if s.cursor.rest.length < n then throw (.error (.unexpectedEnd s.position n))
    else do
      let limit ← add 64 s.position n
      let taken ← slice s.bytes s.position limit
      let position ← add 64 s.position n
      set { s with position }
      return taken : Decoder (List UInt8)) s = _
  simp only [Reader.take, List.length_take]
  by_cases h : s.cursor.rest.length < n
  · rw [if_pos h, if_pos (by omega)]
    rfl
  · have hadd : (add 64 s.position n : Decoder Nat) = pure (s.position + n) := add_eq (by omega)
    rw [if_neg h, if_neg (by omega), hadd, pure_bind, slice_eq (by omega) (by omega), pure_bind,
      pure_bind]
    change Except.ok _ = Except.ok _
    simp [ByteReader.cursor, ByteReader.moved, List.take_drop]

/-- The bytes that are taken fill the places that are there for them. -/
theorem follows_digits {α : Type} (width : Nat) (f : List UInt8 → α) :
  Follows (do let taken ← take width; let digits ← fill width taken; return f digits)
    (f <$> Reader.take width)
  := by
  rw [map_eq_pure_bind]
  apply (follows_take width).bind
  rintro taken ⟨_, htaken⟩
  simp only [Reader.reads_take] at htaken
  rw [fill_eq (by simp_all), pure_bind]
  apply follows_pure

theorem follows_unsigned (width : Nat) :
  Follows (unsigned width) (Reader.unsigned width)
  := follows_digits width _

theorem follows_integer (width : Nat) :
  Follows (integer width) (Reader.signed width)
  := follows_digits width _

theorem follows_field8 :
  Follows field8 Reader.field8
  := (follows_unsigned 1).map _

theorem follows_field16 :
  Follows field16 Reader.field16
  := (follows_unsigned 2).map _

theorem follows_field32 :
  Follows field32 Reader.field32
  := (follows_unsigned 4).map _

theorem follows_field64 :
  Follows field64 Reader.field64
  := (follows_unsigned 8).map _

theorem Follows.counted {α : Type} {d : Decoder α} {r : Reader α} [Reader.IsLocal r]
    (hd : Follows d r) :
  Follows (counted d) (Reader.counted r)
  := (follows_unsigned 2).bind fun n _ => hd.times n

theorem follows_finish :
  Follows finish Reader.finish
  := by
  intro s hs
  change (remaining s >>= _) = _
  rw [remaining_eq hs]
  cases hrest : s.cursor.rest <;> simp [Reader.finish, hrest] <;> rfl

/-- A decoder that follows a reader does on a whole array what the reader does on the bytes. -/
theorem runAll_eq {α : Type} {d : Decoder α} {r : Reader α} [Reader.IsLocal r] (hd : Follows d r)
    {bytes : List UInt8} (hlength : bytes.length < 2 ^ 64) :
  runAll d bytes = faultless (Reader.runAll r bytes)
  := by
  have hvalid : (⟨bytes, 0⟩ : ByteReader).IsValid := ⟨Nat.zero_le _, hlength⟩
  have hfollows : Follows (do let a ← d; finish; return a) (do let a ← r; Reader.finish; return a) :=
    hd.bind fun a _ => follows_finish.map fun _ => a
  change Prod.fst <$> ((do let a ← d; finish; return a : Decoder α) ⟨bytes, 0⟩) = _
  rw [hfollows _ hvalid, Reader.runAll, Reader.run]
  change Prod.fst <$> faultless (((do let a ← r; Reader.finish; return a : Reader α) ⟨0, bytes⟩).map _)
    = _
  cases (do let a ← r; Reader.finish; return a : Reader α) ⟨0, bytes⟩ <;> rfl

theorem runAll_map {α β : Type} (f : α → β) (r : Reader α) (bytes : List UInt8) :
  Reader.runAll (f <$> r) bytes = (Reader.runAll r bytes).map f
  := by
  simp only [Reader.runAll, Reader.run, Reader.bind_apply, Reader.map_apply]
  cases r ⟨0, bytes⟩ with
  | error e => rfl
  | ok p =>
    simp only
    cases Reader.finish p.2 <;> rfl

end JvmCoverage.Machine
