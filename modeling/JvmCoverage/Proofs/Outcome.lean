import Mathlib.Data.List.Forall2

/-!
# Computations that may fail

When a computation made of several steps succeeds, each of its steps has succeeded.  The lemmas
say so for sequences and for the repetitions over a list.
-/

namespace JvmCoverage

variable {ε α β : Type}

/-- A sequence succeeds when its first part does and its second part on what the first gives. -/
theorem bind_eq_ok {x : Except ε α} {f : α → Except ε β} {b : β} :
  (x >>= f) = .ok b ↔ ∃ a, x = .ok a ∧ f a = .ok b
  := by
  cases x with
  | error e => simp [bind, Except.bind]
  | ok a => simp [bind, Except.bind]

theorem map_eq_ok {x : Except ε α} {f : α → β} {b : β} :
  (f <$> x) = .ok b ↔ ∃ a, x = .ok a ∧ f a = b
  := by
  cases x with
  | error e => simp [Functor.map, Except.map]
  | ok a => simp [Functor.map, Except.map]

@[simp]
theorem pure_eq_ok {a b : α} :
  (pure a : Except ε α) = .ok b ↔ a = b
  := by
  simp [pure, Except.pure]

@[simp]
theorem throw_ne_ok {e : ε} {a : α} :
  (throw e : Except ε α) ≠ .ok a
  := by
  intro h
  cases h

@[simp]
theorem throw_bind {e : ε} {f : α → Except ε β} :
  (throw e >>= f) = throw e
  := rfl

/-- A computation whose result passes a test has succeeded. -/
theorem exists_ok_of_any {x : Except ε α} {p : α → Bool} (h : x.toOption.any p) :
  ∃ a, x = .ok a ∧ p a
  := by
  cases x with
  | error e => cases h
  | ok a => exact ⟨a, rfl, h⟩

/-- A check that fails in one case passes in the other. -/
theorem ite_throw_eq_ok {p : Prop} [Decidable p] {e : ε} {x : Except ε α} {a : α} :
  (if p then throw e else x) = .ok a ↔ ¬ p ∧ x = .ok a
  := by
  split <;> simp_all

/-- A computation with a state that may fail: the second part goes on from the state that the first
part leaves, and only if that part gives something. -/
theorem run_bind {σ : Type} (x : ExceptT ε (StateM σ) α) (f : α → ExceptT ε (StateM σ) β) (s : σ) :
  (x >>= f).run.run s
    = match x.run.run s with
      | (.ok a, s) => (f a).run.run s
      | (.error e, s) => (.error e, s)
  := by
  change (match x.run.run s with | (a, s) => (ExceptT.bindCont f a).run s) = _
  cases x.run.run s with
  | mk result s => cases result <;> rfl

/-- What a member of a list is worked out to is a member of what the list is. -/
theorem exists_of_mem_left {R : α → β → Prop} {as : List α} {bs : List β}
    (h : List.Forall₂ R as bs) {a : α} (ha : a ∈ as) :
  ∃ b ∈ bs, R a b
  := by
  induction h with
  | nil => cases ha
  | @cons a' b as bs hab _ ih =>
    rcases List.mem_cons.mp ha with rfl | ha
    · exact ⟨b, List.mem_cons_self, hab⟩
    · obtain ⟨b', hb', h⟩ := ih ha
      exact ⟨b', List.mem_cons_of_mem _ hb', h⟩

theorem exists_of_mem_right {R : α → β → Prop} {as : List α} {bs : List β}
    (h : List.Forall₂ R as bs) {b : β} (hb : b ∈ bs) :
  ∃ a ∈ as, R a b
  := exists_of_mem_left h.flip hb

/-- Members that are each related to something make up a list that is related to one. -/
theorem exists_forall₂ {R : α → β → Prop} {as : List α} (h : ∀ a ∈ as, ∃ b, R a b) :
  ∃ bs, List.Forall₂ R as bs
  := by
  induction as with
  | nil => exact ⟨[], .nil⟩
  | cons a as ih =>
    obtain ⟨⟨b, hb⟩, has⟩ := List.forall_mem_cons.mp h
    obtain ⟨bs, hbs⟩ := ih has
    exact ⟨b :: bs, .cons hb hbs⟩

/-- Members that are all kept make up a list that is related to what they become. -/
theorem forall₂_filterMap {f : α → Option β} {as : List α} (h : ∀ a ∈ as, ∃ b, f a = some b) :
  List.Forall₂ (fun a b => f a = some b) as (as.filterMap f)
  := by
  induction as with
  | nil => exact .nil
  | cons a as ih =>
    obtain ⟨⟨b, hb⟩, has⟩ := List.forall_mem_cons.mp h
    rw [List.filterMap_cons_some hb]
    exact .cons hb (ih has)

theorem forall₂_flatMap {γ : Type} {R : β → γ → Prop} {f : α → List β} {g : α → List γ}
    {as : List α} (h : ∀ a ∈ as, List.Forall₂ R (f a) (g a)) :
  List.Forall₂ R (as.flatMap f) (as.flatMap g)
  := by
  induction as with
  | nil => exact .nil
  | cons a as ih =>
    obtain ⟨ha, has⟩ := List.forall_mem_cons.mp h
    rw [List.flatMap_cons, List.flatMap_cons]
    exact List.rel_append ha (ih has)

/-- Two lists that are related to the same list are related to each other. -/
theorem forall₂_of_common {γ : Type} {R : α → β → Prop} {S : α → γ → Prop} {T : β → γ → Prop}
    (himp : ∀ a b c, R a b → S a c → T b c) {as : List α} {bs : List β} {cs : List γ}
    (h : List.Forall₂ R as bs) (h' : List.Forall₂ S as cs) :
  List.Forall₂ T bs cs
  := by
  induction h generalizing cs with
  | nil =>
    cases h'
    exact .nil
  | cons hab _ ih =>
    cases h' with
    | cons hac h' => exact .cons (himp _ _ _ hab hac) (ih h')

/-- Lists are related when their members in the same places are. -/
theorem forall₂_of_getElem? {R : α → β → Prop} {as : List α} {bs : List β}
    (hlength : as.length = bs.length)
    (h : ∀ (i : Nat) (a : α) (b : β), as[i]? = some a → bs[i]? = some b → R a b) :
  List.Forall₂ R as bs
  := by
  rw [List.forall₂_iff_get]
  use hlength
  intro i hi hi'
  apply h i _ _ (List.getElem?_eq_getElem hi) (List.getElem?_eq_getElem hi')

/-- Working through a list succeeds when each of its members is worked out. -/
theorem mapM_eq_ok {f : α → Except ε β} {as : List α} {bs : List β} :
  as.mapM f = .ok bs ↔ List.Forall₂ (fun a b => f a = .ok b) as bs
  := by
  induction as generalizing bs with
  | nil =>
    rw [List.mapM_nil, List.forall₂_nil_left_iff, pure_eq_ok, eq_comm]
  | cons a as ih =>
    rw [List.mapM_cons, List.forall₂_cons_left_iff]
    simp only [bind_eq_ok, pure_eq_ok, ih]
    constructor
    · rintro ⟨b, hb, bs, hbs, rfl⟩
      exact ⟨b, bs, hb, hbs, rfl⟩
    · rintro ⟨b, bs, hb, hbs, rfl⟩
      exact ⟨b, hb, bs, hbs, rfl⟩

theorem exists_mapM_iff {f : α → Except ε β} {as : List α} :
  (∃ bs, as.mapM f = .ok bs) ↔ ∀ a ∈ as, ∃ b, f a = .ok b
  := by
  simp only [mapM_eq_ok]
  constructor
  · rintro ⟨bs, hbs⟩ a ha
    obtain ⟨b, -, hb⟩ := exists_of_mem_left hbs ha
    exact ⟨b, hb⟩
  · exact exists_forall₂

/-- A list is worked through by a function when each of its members is. -/
theorem mapM_eq_map {f : α → Except ε β} {g : α → β} {as : List α}
    (h : ∀ a ∈ as, f a = .ok (g a)) :
  as.mapM f = .ok (as.map g)
  := by
  rw [mapM_eq_ok, List.forall₂_map_right_iff, List.forall₂_same]
  apply h

theorem mapIdxM_go_eq_ok {f : Nat → α → Except ε β} {as : List α} {done : Array β}
    {bs : List β} (h : List.mapIdxM.go f as done = .ok bs) :
  ∃ bs', bs = done.toList ++ bs'
    ∧ List.Forall₂ (fun p b => f p.2 p.1 = .ok b) (as.zipIdx done.size) bs'
  := by
  induction as generalizing done with
  | nil =>
    obtain rfl := pure_eq_ok.mp h
    exact ⟨[], (List.append_nil _).symm, .nil⟩
  | cons a as ih =>
    obtain ⟨b, hb, h⟩ := bind_eq_ok.mp h
    obtain ⟨bs', rfl, hbs'⟩ := ih h
    rw [Array.size_push] at hbs'
    exact ⟨b :: bs', by simp, .cons hb hbs'⟩

/-- Working through an array with its indices succeeds when each member is worked out. -/
theorem forall₂_of_mapIdxM {f : Nat → α → Except ε β} {as : Array α} {bs : Array β}
    (h : as.mapIdxM f = .ok bs) :
  List.Forall₂ (fun p b => f p.2 p.1 = .ok b) as.toList.zipIdx bs.toList
  := by
  obtain ⟨as⟩ := as
  rw [List.mapIdxM_toArray] at h
  obtain ⟨bs, hbs, rfl⟩ := map_eq_ok.mp h
  obtain ⟨bs', rfl, hbs'⟩ := mapIdxM_go_eq_ok hbs
  apply hbs'

theorem mapIdxM_go_eq_error {f : Nat → α → Except ε β} {as : List α} {done : Array β} {e : ε}
    (h : List.mapIdxM.go f as done = .error e) :
  ∃ i a, as[i]? = some a ∧ f (done.size + i) a = .error e
  := by
  induction as generalizing done with
  | nil => cases h
  | cons a as ih =>
    rw [List.mapIdxM.go] at h
    cases ha : f done.size a with
    | error e' =>
      rw [ha] at h
      cases h
      exact ⟨0, a, rfl, ha⟩
    | ok b =>
      rw [ha] at h
      obtain ⟨i, a', ha', hi⟩ := ih h
      refine ⟨i + 1, a', ha', ?_⟩
      rw [← hi, Array.size_push, Nat.add_assoc, Nat.add_comm 1]

/-- Working through an array with its indices fails at one of its members. -/
theorem exists_of_mapIdxM_eq_error {f : Nat → α → Except ε β} {as : Array α} {e : ε}
    (h : as.mapIdxM f = .error e) :
  ∃ i a, as[i]? = some a ∧ f i a = .error e
  := by
  obtain ⟨as⟩ := as
  rw [List.mapIdxM_toArray, List.mapIdxM] at h
  cases hgo : List.mapIdxM.go f as #[] with
  | ok bs =>
    rw [hgo] at h
    cases h
  | error e' =>
    rw [hgo] at h
    cases h
    obtain ⟨i, a, ha, hi⟩ := mapIdxM_go_eq_error hgo
    exact ⟨i, a, by simpa using ha, by simpa using hi⟩

theorem forM_eq_ok {f : α → Except ε Unit} {as : List α} {u : Unit} :
  as.forM f = .ok u ↔ ∀ a ∈ as, f a = .ok ()
  := by
  induction as with
  | nil =>
    rw [List.forM, pure_eq_ok]
    simp
  | cons a as ih =>
    rw [List.forM, bind_eq_ok, List.forall_mem_cons, ← ih]
    constructor
    · rintro ⟨⟨⟩, ha, has⟩
      exact ⟨ha, has⟩
    · rintro ⟨ha, has⟩
      exact ⟨(), ha, has⟩

end JvmCoverage
