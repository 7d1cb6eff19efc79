import JvmCoverage.Bytes.BigEndian
import JvmCoverage.Error.Decode

/-!
# Reading bytes from front to back

A `Reader` takes bytes off the front of what remains and knows how many it has taken.  It
fails with the offset of the read and the number of bytes the read needs when too few remain.
`Reader.times` is the one repetition, and `Reader.run` reads a whole byte sequence.  Every
reader built from these takes a piece off the front and counts it (`Reader.Advances`).
-/

namespace JvmCoverage

/-- A place in a byte sequence: the number of bytes before it and the bytes from it on. -/
structure Cursor where
  position : Nat
  rest : List UInt8
  deriving DecidableEq

/-- A computation that takes bytes off the front of a cursor. -/
abbrev Reader (α : Type) := StateT Cursor (Except DecodeError) α

namespace Reader

variable {α β : Type}

/-- The number of bytes taken so far. -/
def position : Reader Nat :=
  return (← get).position

/-- Fails like `take n` when fewer than `n` bytes remain, and takes nothing. -/
def demand (n : Nat) : Reader Unit := fun c =>
  if (c.rest.take n).length < n then .error (.unexpectedEnd c.position n) else .ok ((), c)

/-- Takes `n` bytes. -/
def take (n : Nat) : Reader (List UInt8) := fun c =>
  let taken := c.rest.take n
  if taken.length < n then .error (.unexpectedEnd c.position n)
  else .ok (taken, ⟨c.position + n, c.rest.drop n⟩)

/-- Takes an unsigned number of `width` bytes. -/
def unsigned (width : Nat) : Reader Nat :=
  Bytes.ofBigEndian <$> take width

/-- Takes a two's complement number of `width` bytes. -/
def signed (width : Nat) : Reader Int :=
  Bytes.ofSigned <$> take width

/-- Takes a one-byte field. -/
def field8 : Reader UInt8 :=
  UInt8.ofNat <$> unsigned 1

/-- Takes a two-byte field. -/
def field16 : Reader UInt16 :=
  UInt16.ofNat <$> unsigned 2

/-- Takes a four-byte field. -/
def field32 : Reader UInt32 :=
  UInt32.ofNat <$> unsigned 4

/-- Takes an eight-byte field. -/
def field64 : Reader UInt64 :=
  UInt64.ofNat <$> unsigned 8

/-- Fails unless nothing remains. -/
def finish : Reader Unit := fun c =>
  if c.rest.isEmpty then .ok ((), c) else .error (.trailingBytes c.rest.length)

/-- Runs `r` `n` more times after the results `done`, latest first. -/
def timesAfter (r : Reader α) :
    (n : Nat) → (done : List α) → Cursor → Except DecodeError (List α × Cursor)
  | 0, done, c => .ok (done.reverse, c)
  | n + 1, done, c =>
    match r c with
    | .ok (a, c') => timesAfter r n (a :: done) c'
    | .error e => .error e

/-- Runs `r` `n` times and collects the results in order. -/
def times (n : Nat) (r : Reader α) : Reader (List α) :=
  timesAfter r n []

/-- Reads a two-byte count and then runs `r` that many times. -/
def counted (r : Reader α) : Reader (List α) := do
  let n ← unsigned 2
  times n r

/-- Reads `bytes` from the beginning; what remains afterwards is dropped. -/
def run (r : Reader α) (bytes : List UInt8) : Except DecodeError α :=
  match r ⟨0, bytes⟩ with
  | .ok (a, _) => .ok a
  | .error e => .error e

/-- Reads `bytes` from the beginning and fails when some remain afterwards. -/
def runAll (r : Reader α) (bytes : List UInt8) : Except DecodeError α :=
  run (do let a ← r; finish; return a) bytes

/-- Passes on the outcome of a check that reads nothing. -/
def lift (outcome : Except DecodeError α) : Reader α := fun c =>
  match outcome with
  | .ok a => .ok (a, c)
  | .error e => .error e

/-! ## Repetition -/

theorem bind_apply (r : Reader α) (f : α → Reader β) (c : Cursor) :
  (r >>= f) c = match r c with
    | .ok (a, c') => f a c'
    | .error e => .error e
  := by
  simp only [bind, StateT.bind, Except.bind]
  cases r c <;> rfl

theorem pure_apply (a : α) (c : Cursor) :
  (pure a : Reader α) c = .ok (a, c)
  := rfl

theorem map_apply (f : α → β) (r : Reader α) (c : Cursor) :
  (f <$> r) c = match r c with
    | .ok (a, c') => .ok (f a, c')
    | .error e => .error e
  := by
  simp only [Functor.map, StateT.map, bind, Except.bind, pure, Except.pure]
  cases r c <;> rfl

theorem timesAfter_eq (r : Reader α) (n : Nat) (done : List α) (c : Cursor) :
  timesAfter r n done c = match timesAfter r n [] c with
    | .ok (as, c') => .ok (done.reverse ++ as, c')
    | .error e => .error e
  := by
  induction n generalizing done c with
  | zero => simp [timesAfter]
  | succ n ih =>
    rw [timesAfter, timesAfter]
    cases r c with
    | error e => rfl
    | ok p =>
      simp only
      rw [ih (p.1 :: done), ih [p.1]]
      cases timesAfter r n [] p.2 <;> simp

@[simp]
theorem times_zero (r : Reader α) :
  times 0 r = pure []
  := rfl

/-- The first result comes first. -/
theorem times_succ (n : Nat) (r : Reader α) :
  times (n + 1) r = do
    let a ← r
    let as ← times n r
    return a :: as
  := by
  funext c
  rw [times, timesAfter, bind_apply]
  cases r c with
  | error e => rfl
  | ok p =>
    simp only
    rw [timesAfter_eq, bind_apply, times]
    cases timesAfter r n [] p.2 <;> rfl

/-! ## Readers only take -/

/-- Whenever `r` succeeds it has taken bytes off the front and counted them. -/
def Advances (r : Reader α) : Prop :=
  ∀ c a c', r c = .ok (a, c') →
    ∃ taken, c.rest = taken ++ c'.rest ∧ c'.position = c.position + taken.length

/-- What `take` takes is what it removes from the front. -/
theorem take_ok {n : Nat} {c c' : Cursor} {bytes : List UInt8} (h : take n c = .ok (bytes, c')) :
  c.rest = bytes ++ c'.rest ∧ bytes.length = n ∧ c'.position = c.position + n
  := by
  simp only [take] at h
  split at h
  · cases h
  · rename_i hlength
    cases h
    simp only [List.length_take, Nat.not_lt] at hlength
    simp
    omega

theorem advances_of_keep {r : Reader α} (h : ∀ c a c', r c = .ok (a, c') → c' = c) :
  Advances r
  := by
  intro c a c' hc
  obtain rfl := h c a c' hc
  exact ⟨[], rfl, rfl⟩

theorem advances_pure (a : α) :
  Advances (pure a : Reader α)
  := advances_of_keep fun c b c' h => by cases h; rfl

theorem advances_throw (e : DecodeError) :
  Advances (throw e : Reader α)
  := advances_of_keep fun c b c' h => by cases h

theorem advances_lift (outcome : Except DecodeError α) :
  Advances (lift outcome)
  := advances_of_keep fun c b c' h => by cases outcome <;> cases h; rfl

theorem advances_demand (n : Nat) :
  Advances (demand n)
  := by
  apply advances_of_keep
  intro c a c' h
  simp only [demand] at h
  split at h <;> cases h
  rfl

theorem advances_take (n : Nat) :
  Advances (take n)
  := by
  intro c a c' h
  obtain ⟨hrest, hlength, hposition⟩ := take_ok h
  exact ⟨a, hrest, by rw [hposition, hlength]⟩

theorem Advances.bind {r : Reader α} {f : α → Reader β} (hr : Advances r)
    (hf : ∀ a, Advances (f a)) :
  Advances (r >>= f)
  := by
  intro c b c'' h
  rw [bind_apply] at h
  cases hc : r c with
  | error e => simp [hc] at h
  | ok p =>
    rw [hc] at h
    obtain ⟨front, hfront, hposition⟩ := hr c p.1 p.2 hc
    obtain ⟨back, hback, hposition'⟩ := hf p.1 p.2 b c'' h
    refine ⟨front ++ back, ?_, ?_⟩
    · rw [hfront, hback, List.append_assoc]
    · rw [hposition', hposition, List.length_append, Nat.add_assoc]

theorem Advances.map {r : Reader α} (f : α → β) (hr : Advances r) :
  Advances (f <$> r)
  := by
  intro c b c' h
  rw [map_apply] at h
  cases hc : r c with
  | error e => simp [hc] at h
  | ok p =>
    simp only [hc, Except.ok.injEq, Prod.mk.injEq] at h
    obtain ⟨-, rfl⟩ := h
    exact hr c p.1 p.2 hc

theorem advances_unsigned (width : Nat) :
  Advances (unsigned width)
  := (advances_take width).map _

theorem advances_signed (width : Nat) :
  Advances (signed width)
  := (advances_take width).map _

theorem advances_field8 :
  Advances field8
  := (advances_unsigned 1).map _

theorem advances_field16 :
  Advances field16
  := (advances_unsigned 2).map _

theorem advances_times {r : Reader α} (hr : Advances r) (n : Nat) :
  Advances (times n r)
  := by
  induction n with
  | zero => exact advances_pure []
  | succ n ih =>
    rw [times_succ]
    exact hr.bind fun a => ih.bind fun as => advances_pure (a :: as)

/-- A reader that starts by taking a byte leaves fewer bytes. -/
theorem field8_bind_lt {f : UInt8 → Reader β} (hf : ∀ a, Advances (f a)) {c c' : Cursor} {b : β}
    (h : (field8 >>= f) c = .ok (b, c')) :
  c'.rest.length < c.rest.length
  := by
  simp only [bind_apply, field8, unsigned, map_apply] at h
  cases ht : take 1 c with
  | error e => simp [ht] at h
  | ok q =>
    obtain ⟨hrest, hlength, -⟩ := take_ok ht
    simp only [ht] at h
    obtain ⟨taken, htaken, -⟩ := hf _ _ _ _ h
    rw [hrest, htaken, List.length_append, List.length_append, hlength]
    omega

end Reader

end JvmCoverage
