import JvmCoverage.Ordered
import Mathlib.Data.List.Pairwise
import Mathlib.Data.List.Nodup
import Mathlib.Data.List.Perm.Basic

/-!
# Association lists in order, by their entries

An ascending association list has one entry for each of its keys and is determined by what is looked
up in it (`Ordered.Ascending.eq_of_lookup`), so nothing tells in which order its entries came.
-/

namespace JvmCoverage.Ordered

variable {κ β : Type} [DecidableEq κ] {before : κ → κ → Bool} {key : κ} {value : β}
  {entries : List (κ × β)}

/-- Whether `before` is a strict order in which all keys compare. -/
structure IsOrder (before : κ → κ → Bool) : Prop where
  irrefl : ∀ a, before a a = false
  trans : ∀ {a b c}, before a b → before b c → before a c
  total : ∀ {a b}, a ≠ b → before a b = false → before b a

/-- Whether the keys ascend. -/
def Ascending (before : κ → κ → Bool) (entries : List (κ × β)) : Prop :=
  entries.Pairwise fun a b => before a.1 b.1

theorem mem_insert {entry : κ × β} (h : entry ∈ insert before key value entries) :
  entry = (key, value) ∨ entry ∈ entries
  := by
  fun_induction insert before key value entries with
  | case1 => exact .inl (List.mem_singleton.mp h)
  | case2 previous rest =>
    rcases List.mem_cons.mp h with rfl | h
    · exact .inl rfl
    · exact .inr (List.mem_cons_of_mem _ h)
  | case3 => apply List.mem_cons.mp h
  | case4 other previous rest hne hafter ih =>
    rcases List.mem_cons.mp h with rfl | h
    · exact .inr List.mem_cons_self
    · apply (ih h).imp_right (List.mem_cons_of_mem _)

/-- A new key adds one entry. -/
theorem perm_insert (before : κ → κ → Bool) (value : β) (h : lookup key entries = none) :
  (insert before key value entries).Perm ((key, value) :: entries)
  := by
  fun_induction insert before key value entries with
  | case1 => rfl
  | case2 previous rest => simp [lookup] at h
  | case3 => rfl
  | case4 other previous rest hne hafter ih =>
    rw [lookup, if_neg hne] at h
    apply ((ih h).cons _).trans (.swap _ _ _)

theorem Ascending.insert (horder : IsOrder before) (h : Ascending before entries) (key : κ)
    (value : β) :
  Ascending before (insert before key value entries)
  := by
  fun_induction Ordered.insert before key value entries with
  | case1 => apply List.pairwise_singleton
  | case2 previous rest =>
    obtain ⟨hlt, hrest⟩ := List.pairwise_cons.mp h
    exact .cons hlt hrest
  | case3 other previous rest hne hbefore =>
    refine .cons ?_ h
    rw [List.forall_mem_cons]
    use hbefore
    intro entry hentry
    apply horder.trans hbefore ((List.pairwise_cons.mp h).1 entry hentry)
  | case4 other previous rest hne hafter ih =>
    obtain ⟨hlt, hrest⟩ := List.pairwise_cons.mp h
    refine .cons ?_ (ih hrest)
    intro entry hentry
    rcases mem_insert hentry with rfl | hentry
    · apply horder.total hne (Bool.eq_false_iff.mpr hafter)
    · apply hlt entry hentry

/-- What is looked up is an entry. -/
theorem mem_of_lookup (h : lookup key entries = some value) :
  (key, value) ∈ entries
  := by
  induction entries with
  | nil => cases h
  | cons entry entries ih =>
    obtain ⟨other, previous⟩ := entry
    rw [lookup] at h
    split at h
    · rename_i heq
      obtain rfl := Option.some.inj h
      rw [heq]
      apply List.mem_cons_self
    · apply List.mem_cons_of_mem _ (ih h)

theorem Ascending.lookup_eq_some_iff (horder : IsOrder before) (h : Ascending before entries) :
  lookup key entries = some value ↔ (key, value) ∈ entries
  := by
  use mem_of_lookup
  intro hmem
  induction entries with
  | nil => cases hmem
  | cons entry entries ih =>
    obtain ⟨hlt, hrest⟩ := List.pairwise_cons.mp h
    rw [lookup]
    rcases List.mem_cons.mp hmem with rfl | hmem
    · apply if_pos rfl
    · have hne : key ≠ entry.1 := by
        intro heq
        have hself := hlt _ hmem
        rw [heq, horder.irrefl] at hself
        cases hself
      rw [if_neg hne, ih hrest hmem]

omit [DecidableEq κ] in
/-- No two entries have the same key. -/
theorem Ascending.nodup_keys (horder : IsOrder before) (h : Ascending before entries) :
  (entries.map Prod.fst).Nodup
  := by
  rw [List.Nodup, List.pairwise_map]
  apply h.imp
  intro a b hlt heq
  rw [heq, horder.irrefl] at hlt
  cases hlt

/-- An ascending list is determined by what is looked up in it. -/
theorem Ascending.eq_of_lookup (horder : IsOrder before) {entries' : List (κ × β)}
    (h : Ascending before entries) (h' : Ascending before entries')
    (heq : ∀ key, lookup key entries = lookup key entries') :
  entries = entries'
  := by
  have hperm : entries.Perm entries' := by
    rw [List.perm_ext_iff_of_nodup (.of_map Prod.fst (h.nodup_keys horder))
      (.of_map Prod.fst (h'.nodup_keys horder))]
    rintro ⟨key, value⟩
    rw [← h.lookup_eq_some_iff horder, heq, h'.lookup_eq_some_iff horder]
  apply hperm.eq_of_pairwise _ h h'
  intro a b _ _ hab hba
  have hself := horder.trans hab hba
  rw [horder.irrefl] at hself
  cases hself

end JvmCoverage.Ordered
