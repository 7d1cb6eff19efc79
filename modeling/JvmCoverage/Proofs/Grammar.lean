import JvmCoverage.Bytes.Reader
import Mathlib.Data.List.Forall2

/-!
# Readers as grammars

A reader is *local* when the bytes it takes decide alone what it gives: neither the bytes behind
them nor the place where they stand matter.  A local reader `r` is a grammar, `r.Reads taken a`
being the statement that the bytes `taken` are a form of `a`.  The forms of a composed reader are
the forms of its parts one behind the other, and no form is a proper beginning of another one.
-/

namespace JvmCoverage.Reader

variable {α β : Type}

/-- The reader takes exactly the bytes `taken` and gives `a`, wherever they stand and whatever
follows. -/
def Reads (r : Reader α) (taken : List UInt8) (a : α) : Prop :=
  ∀ position rest, r ⟨position, taken ++ rest⟩ = .ok (a, ⟨position + taken.length, rest⟩)

/-- The reader takes bytes off the front, and what it takes decides what it gives. -/
class IsLocal (r : Reader α) : Prop where
  reads_of_ok : ∀ c a c', r c = .ok (a, c') →
    ∃ taken, c.rest = taken ++ c'.rest ∧ c'.position = c.position + taken.length
      ∧ r.Reads taken a

/-- A local reader that succeeds on `bytes` reads a beginning of them. -/
theorem exists_reads {r : Reader α} [IsLocal r] {position : Nat} {bytes : List UInt8} {a : α}
    {c' : Cursor} (h : r ⟨position, bytes⟩ = .ok (a, c')) :
  ∃ taken, bytes = taken ++ c'.rest ∧ c' = ⟨position + taken.length, c'.rest⟩ ∧ r.Reads taken a
  := by
  obtain ⟨taken, hrest, hposition, hreads⟩ := IsLocal.reads_of_ok _ _ _ h
  use taken, hrest
  constructor
  · cases c'
    simp_all
  · apply hreads

theorem isLocal_of_reads {r : Reader α}
    (h : ∀ position bytes a c', r ⟨position, bytes⟩ = .ok (a, c') →
      ∃ taken, bytes = taken ++ c'.rest ∧ c'.position = position + taken.length
        ∧ r.Reads taken a) :
  IsLocal r
  := ⟨fun c => h c.position c.rest⟩

/-! ## Sequences -/

theorem Reads.bind {r : Reader α} {f : α → Reader β} {front back : List UInt8} {a : α} {b : β}
    (hr : r.Reads front a) (hf : (f a).Reads back b) :
  (r >>= f).Reads (front ++ back) b
  := by
  intro position rest
  rw [bind_apply, List.append_assoc, hr, List.length_append, ← Nat.add_assoc]
  apply hf

instance (r : Reader α) (f : α → Reader β) [IsLocal r] [∀ a, IsLocal (f a)] :
    IsLocal (r >>= f) := by
  apply isLocal_of_reads
  intro position bytes b c' h
  rw [bind_apply] at h
  split at h
  · rename_i a c hr
    obtain ⟨front, rfl, hc, hfront⟩ := exists_reads hr
    rw [hc] at h
    obtain ⟨back, hback, hc', hreads⟩ := exists_reads h
    use front ++ back
    refine ⟨?_, ?_, hfront.bind hreads⟩
    · rw [hback, List.append_assoc]
    · rw [hc', List.length_append, Nat.add_assoc]
  · cases h

/-- A form of a sequence is a form of its first part with a form of its second part behind it. -/
theorem reads_bind {r : Reader α} {f : α → Reader β} [IsLocal r] [∀ a, IsLocal (f a)]
    {taken : List UInt8} {b : β} :
  (r >>= f).Reads taken b
    ↔ ∃ a front, r.Reads front a ∧ ∃ back, (f a).Reads back b ∧ taken = front ++ back
  := by
  constructor
  · intro h
    have hall := h 0 []
    rw [bind_apply, List.append_nil] at hall
    split at hall
    · rename_i a c hr
      obtain ⟨front, hfront, hc, hreads⟩ := exists_reads hr
      rw [hc] at hall
      obtain ⟨back, hback, -, hreads'⟩ := exists_reads hall
      use a, front, hreads, back, hreads'
      rw [hfront, hback, List.append_nil]
    · cases hall
  · rintro ⟨a, front, hfront, back, hback, rfl⟩
    apply hfront.bind hback

instance (a : α) : IsLocal (pure a : Reader α) :=
  isLocal_of_reads fun position bytes b c' h => by
    cases h
    exact ⟨[], rfl, rfl, fun _ _ => rfl⟩

@[simp]
theorem reads_pure {a b : α} {taken : List UInt8} :
  (pure a : Reader α).Reads taken b ↔ b = a ∧ taken = []
  := by
  constructor
  · intro h
    have hall := h 0 []
    simp only [pure_apply, Except.ok.injEq, Prod.mk.injEq, Cursor.mk.injEq,
      List.append_nil] at hall
    exact ⟨hall.1.symm, hall.2.2⟩
  · rintro ⟨rfl, rfl⟩ position rest
    rfl

instance (f : α → β) (r : Reader α) [IsLocal r] : IsLocal (f <$> r) :=
  inferInstanceAs (IsLocal (r >>= fun a => pure (f a)))

theorem reads_map {f : α → β} {r : Reader α} [IsLocal r] {taken : List UInt8} {b : β} :
  (f <$> r).Reads taken b ↔ ∃ a, r.Reads taken a ∧ b = f a
  := by
  apply Iff.trans (reads_bind (f := fun a => pure (f a)))
  simp

instance (r : Reader (α → β)) (s : Reader α) [IsLocal r] [IsLocal s] : IsLocal (r <*> s) :=
  inferInstanceAs (IsLocal (r >>= fun f => f <$> s))

theorem reads_seq {r : Reader (α → β)} {s : Reader α} [IsLocal r] [IsLocal s]
    {taken : List UInt8} {b : β} :
  (r <*> s).Reads taken b
    ↔ ∃ f front, r.Reads front f ∧ ∃ a back, s.Reads back a ∧ b = f a ∧ taken = front ++ back
  := by
  apply Iff.trans (reads_bind (f := fun f => f <$> s))
  simp only [reads_map]
  constructor
  · rintro ⟨f, front, hf, back, ⟨a, ha, hb⟩, htaken⟩
    exact ⟨f, front, hf, a, back, ha, hb, htaken⟩
  · rintro ⟨f, front, hf, a, back, ha, hb, htaken⟩
    exact ⟨f, front, hf, back, ⟨a, ha, hb⟩, htaken⟩

instance (e : DecodeError) : IsLocal (throw e : Reader α) :=
  ⟨fun _ _ _ h => by cases h⟩

@[simp]
theorem not_reads_throw {e : DecodeError} {taken : List UInt8} {a : α} :
  ¬ (throw e : Reader α).Reads taken a
  := fun h => by cases h 0 []

/-- Nothing is read behind a failure. -/
theorem throw_then {e : DecodeError} {f : α → Reader β} :
  (throw e >>= f : Reader β) = throw e
  := rfl

instance (outcome : Except DecodeError α) : IsLocal (lift outcome) :=
  isLocal_of_reads fun position bytes a c' h => by
    cases outcome with
    | error e => cases h
    | ok b =>
      cases h
      exact ⟨[], rfl, rfl, fun _ _ => rfl⟩

@[simp]
theorem reads_lift {outcome : Except DecodeError α} {taken : List UInt8} {a : α} :
  (lift outcome).Reads taken a ↔ outcome = .ok a ∧ taken = []
  := by
  cases outcome with
  | error e =>
    simp only [reduceCtorEq, false_and, iff_false]
    intro h
    cases h 0 []
  | ok b =>
    apply Iff.trans (reads_pure (a := b))
    simp [eq_comm]

instance (p : Prop) [Decidable p] (r s : Reader α) [IsLocal r] [IsLocal s] :
    IsLocal (if p then r else s) := by
  split <;> infer_instance

/-- A branch that fails is no form. -/
theorem reads_ite_throw {p : Prop} [Decidable p] {e : DecodeError} {r : Reader α}
    {taken : List UInt8} {a : α} :
  (if p then throw e else r : Reader α).Reads taken a ↔ ¬ p ∧ r.Reads taken a
  := by
  split <;> simp_all

/-- A branch that fails is no form. -/
theorem reads_ite_else_throw {p : Prop} [Decidable p] {e : DecodeError} {r : Reader α}
    {taken : List UInt8} {a : α} :
  (if p then r else throw e : Reader α).Reads taken a ↔ p ∧ r.Reads taken a
  := by
  split <;> simp_all

/-! ## Pieces of given length -/

instance (n : Nat) : IsLocal (take n) :=
  isLocal_of_reads fun position bytes a c' h => by
    obtain ⟨hrest, hlength, hposition⟩ := take_ok h
    use a, hrest, by rw [hposition, hlength]
    intro position' rest
    simp [take, hlength]

@[simp]
theorem reads_take {n : Nat} {taken bytes : List UInt8} :
  (take n).Reads taken bytes ↔ taken = bytes ∧ bytes.length = n
  := by
  constructor
  · intro h
    obtain ⟨hrest, hlength, -⟩ := take_ok (h 0 [])
    simp only [List.append_nil] at hrest
    exact ⟨hrest, hlength⟩
  · rintro ⟨rfl, rfl⟩ position rest
    simp [take]

/-- A demand for bytes that are read afterwards anyway makes no difference. -/
theorem reads_demand_bind {n : Nat} {r : Reader α}
    (hr : ∀ taken a, r.Reads taken a → n ≤ taken.length) {taken : List UInt8} {a : α} :
  (demand n >>= fun _ => r).Reads taken a ↔ r.Reads taken a
  := by
  constructor
  · intro h position rest
    have hall := h position rest
    simp only [bind_apply, demand] at hall
    split at hall
    · rename_i heq
      split at heq <;> cases heq
      apply hall
    · cases hall
  · intro h position rest
    have hlength := hr taken a h
    have hdemand : demand n ⟨position, taken ++ rest⟩ = .ok ((), ⟨position, taken ++ rest⟩) := by
      simp only [demand, List.length_take, List.length_append]
      apply if_neg
      omega
    rw [bind_apply, hdemand]
    apply h position rest

/-- A demand for bytes that are read afterwards anyway keeps a reader local. -/
theorem isLocal_demand_bind {n : Nat} {r : Reader α} [IsLocal r]
    (hr : ∀ taken a, r.Reads taken a → n ≤ taken.length) :
  IsLocal (demand n >>= fun _ => r)
  := by
  apply isLocal_of_reads
  intro position bytes a c' h
  simp only [bind_apply, demand] at h
  split at h
  · rename_i heq
    split at heq <;> cases heq
    obtain ⟨taken, hbytes, hc', hreads⟩ := exists_reads h
    exact ⟨taken, hbytes, by rw [hc'], (reads_demand_bind hr).mpr hreads⟩
  · cases h

/-! ## Repetition -/

instance (n : Nat) (r : Reader α) [IsLocal r] : IsLocal (times n r) := by
  induction n with
  | zero => exact inferInstanceAs (IsLocal (pure []))
  | succ n ih =>
    rw [times_succ]
    infer_instance

/-- A form of a repetition is a form of each of the things one behind the other. -/
theorem reads_times {n : Nat} {r : Reader α} [IsLocal r] {taken : List UInt8} {as : List α} :
  (times n r).Reads taken as
    ↔ as.length = n ∧ ∃ parts, List.Forall₂ r.Reads parts as ∧ taken = parts.flatten
  := by
  induction n generalizing taken as with
  | zero =>
    rw [times_zero, reads_pure, List.length_eq_zero_iff]
    constructor
    · rintro ⟨rfl, rfl⟩
      exact ⟨rfl, [], .nil, rfl⟩
    · rintro ⟨rfl, parts, hparts, rfl⟩
      cases hparts
      exact ⟨rfl, rfl⟩
  | succ n ih =>
    rw [times_succ]
    simp only [reads_bind, ih, reads_pure]
    constructor
    · rintro ⟨a, front, ha, _, ⟨as, _, ⟨hlength, parts, hparts, rfl⟩, _, ⟨rfl, rfl⟩, rfl⟩, rfl⟩
      use by rw [List.length_cons, hlength], front :: parts, .cons ha hparts
      simp
    · rintro ⟨hlength, parts, hparts, rfl⟩
      cases hparts with
      | nil => cases hlength
      | cons ha hparts =>
        rename_i part a parts as
        refine ⟨a, part, ha, _, ⟨as, _, ⟨by simpa using hlength, parts, hparts, rfl⟩, [],
          ⟨rfl, rfl⟩, rfl⟩, ?_⟩
        simp

/-! ## One form only -/

/-- The reader accepts one form of each of the things in `valid`, and nothing else. -/
def HasForm (r : Reader α) (valid : α → Prop) (form : α → List UInt8) : Prop :=
  ∀ taken a, r.Reads taken a ↔ valid a ∧ taken = form a

theorem HasForm.reads {r : Reader α} {valid : α → Prop} {form : α → List UInt8}
    (h : r.HasForm valid form) {a : α} (ha : valid a) :
  r.Reads (form a) a
  := (h _ _).mpr ⟨ha, rfl⟩

/-- Forms of several things are their forms one by one. -/
theorem HasForm.forall₂_iff {r : Reader α} {valid : α → Prop} {form : α → List UInt8}
    (h : r.HasForm valid form) {parts : List (List UInt8)} {as : List α} :
  List.Forall₂ r.Reads parts as ↔ (∀ a ∈ as, valid a) ∧ parts = as.map form
  := by
  induction as generalizing parts with
  | nil =>
    rw [List.forall₂_nil_right_iff]
    simp
  | cons a as ih =>
    rw [List.forall₂_cons_right_iff]
    simp only [h _ _, ih, List.forall_mem_cons, List.map_cons]
    constructor
    · rintro ⟨_, _, ⟨ha, rfl⟩, ⟨has, rfl⟩, rfl⟩
      exact ⟨⟨ha, has⟩, rfl⟩
    · rintro ⟨⟨ha, has⟩, rfl⟩
      exact ⟨_, _, ⟨ha, rfl⟩, ⟨has, rfl⟩, rfl⟩

theorem HasForm.times {r : Reader α} [IsLocal r] {valid : α → Prop} {form : α → List UInt8}
    (h : r.HasForm valid form) (n : Nat) :
  (times n r).HasForm (fun as => as.length = n ∧ ∀ a ∈ as, valid a) (List.flatMap form)
  := by
  intro taken as
  simp only [reads_times, h.forall₂_iff, List.flatMap]
  constructor
  · rintro ⟨hlength, _, ⟨has, rfl⟩, rfl⟩
    exact ⟨⟨hlength, has⟩, rfl⟩
  · rintro ⟨⟨hlength, has⟩, rfl⟩
    exact ⟨hlength, _, ⟨has, rfl⟩, rfl⟩

/-! ## A form to be written -/

/-- The reader accepts several forms of the things in `valid`, among them `form`, which is written
and not longer than the others.  What `outline` finds in a form tells whether it is the one that
is written. -/
structure Normalizes (r : Reader α) (valid : α → Prop) (form : α → List UInt8)
    (outline : Reader β) (normal : β → Prop) : Prop where
  reads_form : ∀ a, valid a → r.Reads (form a) a
  valid_of_reads : ∀ taken a, r.Reads taken a → valid a
  length_le : ∀ taken a, r.Reads taken a → (form a).length ≤ taken.length
  eq_form : ∀ taken a, r.Reads taken a →
    ∃ b, outline.Reads taken b ∧ (normal b → taken = form a)

namespace Normalizes

variable {r : Reader α} {valid : α → Prop} {form : α → List UInt8} {outline : Reader β}
  {normal : β → Prop} {parts : List (List UInt8)} {as : List α}

/-- The forms to be written of several things. -/
theorem forall₂_form (h : r.Normalizes valid form outline normal) (has : ∀ a ∈ as, valid a) :
  List.Forall₂ r.Reads (as.map form) as
  := by
  rw [List.forall₂_map_left_iff, List.forall₂_same]
  exact fun a ha => h.reads_form a (has a ha)

theorem forall_valid (h : r.Normalizes valid form outline normal)
    (hparts : List.Forall₂ r.Reads parts as) :
  ∀ a ∈ as, valid a
  := by
  induction hparts with
  | nil => simp
  | cons hpart _ ih => apply List.forall_mem_cons.mpr ⟨h.valid_of_reads _ _ hpart, ih⟩

theorem length_flatMap_le (h : r.Normalizes valid form outline normal)
    (hparts : List.Forall₂ r.Reads parts as) :
  (as.flatMap form).length ≤ parts.flatten.length
  := by
  induction hparts with
  | nil => apply Nat.le_refl 0
  | cons hpart _ ih =>
    rw [List.flatMap_cons, List.flatten_cons, List.length_append, List.length_append]
    apply Nat.add_le_add (h.length_le _ _ hpart) ih

/-- Several forms are those that are written when the outline of each tells so. -/
theorem flatten_eq (h : r.Normalizes valid form outline normal)
    (hparts : List.Forall₂ r.Reads parts as) :
  ∃ bs, List.Forall₂ outline.Reads parts bs
    ∧ ((∀ b ∈ bs, normal b) → parts.flatten = as.flatMap form)
  := by
  induction hparts with
  | nil => exact ⟨[], .nil, fun _ => rfl⟩
  | cons hpart _ ih =>
    obtain ⟨bs, hbs, heq⟩ := ih
    obtain ⟨b, hb, heq'⟩ := h.eq_form _ _ hpart
    use b :: bs, .cons hb hbs
    intro hnormal
    obtain ⟨hhead, htail⟩ := List.forall_mem_cons.mp hnormal
    rw [List.flatten_cons, List.flatMap_cons, heq' hhead, heq htail]

end Normalizes

/-! ## Bytes kept -/

/-- Gives the bytes that `r` takes along with what it gives. -/
def withBytes (r : Reader α) : Reader (List UInt8 × α) := fun c =>
  match r c with
  | .ok (a, c') => .ok ((c.rest.take (c'.position - c.position), a), c')
  | .error e => .error e

instance (r : Reader α) [IsLocal r] : IsLocal (withBytes r) :=
  isLocal_of_reads fun position bytes p c' h => by
    simp only [withBytes] at h
    split at h
    · rename_i a c hr
      obtain ⟨taken, hbytes, hposition, hreads⟩ := IsLocal.reads_of_ok _ _ _ hr
      cases h
      use taken, hbytes, hposition
      intro position' rest
      rw [withBytes, hreads]
      simp only at hbytes hposition
      simp [hbytes, hposition]
    · cases h

@[simp]
theorem reads_withBytes {r : Reader α} {taken bytes : List UInt8} {a : α} :
  (withBytes r).Reads taken (bytes, a) ↔ r.Reads taken a ∧ bytes = taken
  := by
  constructor
  · intro h
    have hreads : r.Reads taken a := by
      intro position rest
      have hall := h position rest
      simp only [withBytes] at hall
      split at hall
      · rename_i heq
        cases hall
        apply heq
      · cases hall
    have hall := h 0 []
    rw [withBytes, hreads] at hall
    simp at hall
    exact ⟨hreads, hall.symm⟩
  · rintro ⟨hreads, rfl⟩ position rest
    rw [withBytes, hreads]
    simp

/-! ## Whole sequences -/

/-- Reading all of `bytes` succeeds when they are a form. -/
theorem runAll_eq_ok {r : Reader α} [IsLocal r] {bytes : List UInt8} {a : α} :
  runAll r bytes = .ok a ↔ r.Reads bytes a
  := by
  constructor
  · intro h
    simp only [runAll, run, bind_apply, finish] at h
    split at h
    · rename_i b c hc
      cases h
      split at hc
      · rename_i a' c' hr
        split at hc
        · rename_i heq
          split at heq
          · cases heq
            cases hc
            rename_i hempty
            obtain ⟨taken, hbytes, -, hreads⟩ := exists_reads hr
            rw [List.isEmpty_iff.mp hempty, List.append_nil] at hbytes
            rw [hbytes]
            apply hreads
          · cases heq
        · cases hc
      · cases hc
    · cases h
  · intro h
    have hall := h 0 []
    rw [List.append_nil] at hall
    simp [runAll, run, bind_apply, map_apply, hall, finish]

end JvmCoverage.Reader
