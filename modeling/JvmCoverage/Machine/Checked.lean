import Mathlib.Algebra.Group.Int.Defs
import Mathlib.Algebra.Group.Nat.Defs
import Mathlib.Data.List.Basic

/-!
# Machine arithmetic

In a program numbers have a width and arrays have an end.  A computation here may therefore end in
a `Fault`: a place that an array does not have, a difference of unsigned numbers below zero, or a
result that does not fit its width.  A fault is told apart from the errors that a computation
answers with, so that `Checked ε α` has three outcomes.  Sums, differences, products and places of
arrays are computed by the operations of this module, which fault where a machine does, and each of
them has a lemma that says when it does not.
-/

namespace JvmCoverage.Machine

/-- What a machine does not go on from. -/
inductive Fault where
  /-- An array with `length` places has no place `index`. -/
  | outOfRange (index length : Nat)
  /-- An array with `length` places is to be filled from one with `found` places. -/
  | lengthMismatch (length found : Nat)
  /-- A difference of unsigned numbers is below zero. -/
  | underflow
  /-- A result does not fit `width` bits. -/
  | overflow (width : Nat)
  /-- A loop takes more rounds than it has. -/
  | endless
  deriving DecidableEq

namespace Fault

/-- The text of a fault. -/
def message : Fault → String
  | outOfRange index length =>
      s!"index out of bounds: the len is {length} but the index is {index}"
  | lengthMismatch length found =>
      s!"source slice length ({found}) does not match destination slice length ({length})"
  | underflow => "attempt to subtract with overflow"
  | overflow _ => "arithmetic operation overflowed"
  | endless => "loop does not end"

end Fault

/-- Why a computation has no result. -/
inductive Stop (ε : Type) where
  | fault (fault : Fault)
  | error (error : ε)
  deriving DecidableEq

/-- The same reason with `f` applied to an error. -/
def Stop.map {ε ε' : Type} (f : ε → ε') : Stop ε → Stop ε'
  | fault f => fault f
  | error e => error (f e)

/-- The outcome of a computation that may fault, or answer with an error of type `ε`. -/
abbrev Checked (ε α : Type) := Except (Stop ε) α

/-- Computations that may fault. -/
class Faulting (m : Type → Type) where
  fault {α : Type} (f : Fault) : m α

export Faulting (fault)

instance {ε : Type} : Faulting (Except (Stop ε)) where
  fault f := .error (.fault f)

instance {σ : Type} {m : Type → Type} [Monad m] [Faulting m] : Faulting (StateT σ m) where
  fault f := StateT.lift (fault f)

instance {ε : Type} {m : Type → Type} [Monad m] : Faulting (ExceptT (Stop ε) m) where
  fault f := throw (.fault f)

/-- The outcome of a computation that does not fault. -/
def faultless {ε α : Type} : Except ε α → Checked ε α
  | .ok a => .ok a
  | .error e => .error (.error e)

/-- The outcome with `f` applied to an error. -/
def mapError {ε ε' α : Type} (f : ε → ε') (x : Checked ε α) : Checked ε' α :=
  Except.mapError (Stop.map f) x

/-- Handles the errors of a computation, but not its faults. -/
def attempt {ε ε' α : Type} : Checked ε α → Checked ε' (Except ε α)
  | .ok a => .ok (.ok a)
  | .error (.error e) => .ok (.error e)
  | .error (.fault f) => .error (.fault f)

section Faultless

variable {ε ε' α β : Type}

@[simp]
theorem faultless_ok (a : α) :
  faultless (.ok a : Except ε α) = pure a
  := rfl

@[simp]
theorem faultless_pure (a : α) :
  faultless (pure a : Except ε α) = pure a
  := rfl

@[simp]
theorem faultless_error (e : ε) :
  faultless (.error e : Except ε α) = throw (.error e)
  := rfl

theorem faultless_bind (x : Except ε α) (f : α → Except ε β) :
  faultless (x >>= f) = faultless x >>= fun a => faultless (f a)
  := by
  cases x <;> rfl

theorem faultless_map (f : α → β) (x : Except ε α) :
  faultless (f <$> x) = f <$> faultless x
  := by
  cases x <;> rfl

theorem mapError_faultless (f : ε → ε') (x : Except ε α) :
  mapError f (faultless x) = faultless (x.mapError f)
  := by
  cases x <;> rfl

theorem attempt_faultless (x : Except ε α) :
  (attempt (faultless x) : Checked ε' (Except ε α)) = pure x
  := by
  cases x <;> rfl

/-- A computation that does not fault has a result or an error. -/
theorem faultless_ne_fault (x : Except ε α) (f : Fault) :
  faultless x ≠ .error (.fault f)
  := by
  cases x <;> simp [faultless]

end Faultless

/-! ## Operations -/

variable {m : Type → Type} [Monad m] [Faulting m] {α : Type}

/-- The sum of two unsigned numbers of `width` bits. -/
def add (width a b : Nat) : m Nat :=
  if a + b < 2 ^ width then pure (a + b) else fault (.overflow width)

/-- The product of two unsigned numbers of `width` bits. -/
def mul (width a b : Nat) : m Nat :=
  if a * b < 2 ^ width then pure (a * b) else fault (.overflow width)

/-- The difference of two unsigned numbers. -/
def sub (a b : Nat) : m Nat :=
  if b ≤ a then pure (a - b) else fault .underflow

/-- What is left of a number in `width` bits. -/
def cast (width n : Nat) : Nat :=
  n % 2 ^ width

/-- A result of a signed operation, which has to fit `width` bits. -/
def signed (width : Nat) (z : Int) : m Int :=
  if -2 ^ width ≤ 2 * z ∧ 2 * z < 2 ^ width then pure z else fault (.overflow width)

/-- The sum of two bytes. -/
def add8 (a b : UInt8) : m UInt8 :=
  if a.toNat + b.toNat < 2 ^ 8 then pure (a + b) else fault (.overflow 8)

/-- The difference of two bytes. -/
def sub8 (a b : UInt8) : m UInt8 :=
  if b ≤ a then pure (a - b) else fault .underflow

/-- The sum of two numbers of two bytes. -/
def add16 (a b : UInt16) : m UInt16 :=
  if a.toNat + b.toNat < 2 ^ 16 then pure (a + b) else fault (.overflow 16)

/-- The difference of two numbers of two bytes. -/
def sub16 (a b : UInt16) : m UInt16 :=
  if b ≤ a then pure (a - b) else fault .underflow

/-- What stands in place `i`. -/
def item (xs : List α) (i : Nat) : m α :=
  match xs[i]? with
  | some x => pure x
  | none => fault (.outOfRange i xs.length)

/-- The list with `x` in place `i`. -/
def update (xs : List α) (i : Nat) (x : α) : m (List α) :=
  if i < xs.length then pure (xs.set i x) else fault (.outOfRange i xs.length)

/-- What stands in the places from `start` up to `limit`. -/
def slice (xs : List α) (start limit : Nat) : m (List α) :=
  if limit ≤ xs.length then
    if start ≤ limit then pure ((xs.take limit).drop start) else fault (.outOfRange start limit)
  else fault (.outOfRange limit xs.length)

/-- The items of `source`, which has to fill `length` places. -/
def fill (length : Nat) (source : List α) : m (List α) :=
  if source.length = length then pure source else fault (.lengthMismatch length source.length)

/-! ## Results -/

theorem add_eq {width a b : Nat} (h : a + b < 2 ^ width) :
  (add width a b : m Nat) = pure (a + b)
  := if_pos h

theorem mul_eq {width a b : Nat} (h : a * b < 2 ^ width) :
  (mul width a b : m Nat) = pure (a * b)
  := if_pos h

theorem sub_eq {a b : Nat} (h : b ≤ a) :
  (sub a b : m Nat) = pure (a - b)
  := if_pos h

theorem cast_eq {width n : Nat} (h : n < 2 ^ width) :
  cast width n = n
  := Nat.mod_eq_of_lt h

theorem signed_eq {width : Nat} {z : Int} (h : -2 ^ width ≤ 2 * z) (h' : 2 * z < 2 ^ width) :
  (signed width z : m Int) = pure z
  := if_pos ⟨h, h'⟩

theorem add8_eq {a b : UInt8} (h : a.toNat + b.toNat < 2 ^ 8) :
  (add8 a b : m UInt8) = pure (a + b)
  := if_pos h

theorem sub8_eq {a b : UInt8} (h : b ≤ a) :
  (sub8 a b : m UInt8) = pure (a - b)
  := if_pos h

theorem add16_eq {a b : UInt16} (h : a.toNat + b.toNat < 2 ^ 16) :
  (add16 a b : m UInt16) = pure (a + b)
  := if_pos h

theorem sub16_eq {a b : UInt16} (h : b ≤ a) :
  (sub16 a b : m UInt16) = pure (a - b)
  := if_pos h

theorem item_eq {xs : List α} {i : Nat} {x : α} (h : xs[i]? = some x) :
  (item xs i : m α) = pure x
  := by
  rw [item, h]

theorem update_eq {xs : List α} {i : Nat} (h : i < xs.length) (x : α) :
  (update xs i x : m (List α)) = pure (xs.set i x)
  := if_pos h

theorem slice_eq {xs : List α} {start limit : Nat} (h : start ≤ limit) (h' : limit ≤ xs.length) :
  (slice xs start limit : m (List α)) = pure ((xs.take limit).drop start)
  := by
  rw [slice, if_pos h', if_pos h]

theorem fill_eq {length : Nat} {source : List α} (h : source.length = length) :
  (fill length source : m (List α)) = pure source
  := if_pos h

/-! ## Loops -/

theorem mapM_faultless {ε β : Type} {f : α → Checked ε β} {g : α → Except ε β} {xs : List α}
    (h : ∀ x ∈ xs, f x = faultless (g x)) :
  xs.mapM f = faultless (xs.mapM g)
  := by
  induction xs with
  | nil => rfl
  | cons x xs ih =>
    obtain ⟨hx, hxs⟩ := List.forall_mem_cons.mp h
    rw [List.mapM_cons, List.mapM_cons, hx, ih hxs]
    cases g x <;> cases xs.mapM g <;> rfl

section Loops

variable {β γ σ : Type} [LawfulMonad m] {xs : List α} {ys : List β}

omit [Faulting m] in
/-- A loop whose rounds do not fault collects their results. -/
theorem mapM_eq {f : α → m β} {g : α → β} (h : ∀ x ∈ xs, f x = pure (g x)) :
  xs.mapM f = pure (xs.map g)
  := by
  induction xs with
  | nil => rfl
  | cons x xs ih =>
    obtain ⟨hx, hxs⟩ := List.forall_mem_cons.mp h
    rw [List.mapM_cons, hx, pure_bind, ih hxs, pure_bind, List.map_cons]

omit [Faulting m] in
/-- The same for a loop with a state. -/
theorem foldlM_eq {f : σ → α → m σ} {g : σ → α → σ} (h : ∀ s, ∀ x ∈ xs, f s x = pure (g s x))
    (init : σ) :
  xs.foldlM f init = pure (xs.foldl g init)
  := by
  induction xs generalizing init with
  | nil => rfl
  | cons x xs ih =>
    obtain ⟨hx, hxs⟩ := List.forall_mem_cons.mp (fun x hx s => h s x hx)
    rw [List.foldlM_cons, hx, pure_bind, ih (fun s x hx' => hxs x hx' s), List.foldl_cons]

omit [Faulting m] in
/-- A loop over the places of a list that changes what stands in its place. -/
theorem foldlM_range_eq {f : List α → Nat → m (List α)} {g : α → α}
    (h : ∀ front x back, xs = front ++ x :: back →
      f (front.map g ++ x :: back) front.length = pure (front.map g ++ g x :: back)) :
  (List.range xs.length).foldlM f xs = pure (xs.map g)
  := by
  suffices hfrom : ∀ back front, xs = front ++ back →
      (List.range' front.length back.length).foldlM f (front.map g ++ back) = pure (xs.map g) by
    rw [List.range_eq_range']
    exact hfrom xs [] rfl
  intro back
  induction back with
  | nil =>
    intro front hxs
    simp [hxs]
  | cons x back ih =>
    intro front hxs
    rw [List.length_cons, List.range'_succ, List.foldlM_cons, h front x back hxs, pure_bind]
    have := ih (front ++ [x]) (by simpa using hxs)
    simpa using this

end Loops

end JvmCoverage.Machine
