import JvmCoverage.Search
import Mathlib.Data.List.Pairwise
import Mathlib.Order.Nat
import Mathlib.Tactic.Common

/-!
# Binary search finds what is there

On items with keys in order the search keeps a range outside of which no item is the one wanted
(`Search.narrow_spec`), so it comes to the last item with a key up to the one wanted
(`Search.lastUpTo?_eq_some`).  When the keys ascend, it finds every key that occurs, at the only
place where it occurs (`Search.find?_eq_some`).
-/

namespace JvmCoverage.Search

variable {α : Type} {key : α → Nat} {items : Array α} {wanted : Nat}

/-- Whether the keys ascend. -/
def Ascending (key : α → Nat) (items : Array α) : Prop :=
  items.toList.Pairwise fun a b => key a < key b

theorem isUpTo_iff {i : Nat} :
  isUpTo key items wanted i ↔ ∃ item, items[i]? = some item ∧ key item ≤ wanted
  := by
  rw [isUpTo]
  split
  · rename_i item hitem
    simp [hitem]
  · rename_i hnone
    simp [hnone]

theorem isUpTo_eq {β : Type} {key' : β → Nat} {items' : Array β}
    (h : items.map key = items'.map key') (i : Nat) :
  isUpTo key items wanted i = isUpTo key' items' wanted i
  := by
  have hi := congrArg (·[i]?) h
  simp only [Array.getElem?_map] at hi
  unfold isUpTo
  cases ha : items[i]? <;> cases hb : items'[i]? <;> simp_all

theorem narrow_eq {β : Type} {key' : β → Nat} {items' : Array β}
    (h : items.map key = items'.map key') (base size : Nat) :
  narrow key items wanted base size = narrow key' items' wanted base size
  := by
  induction size using Nat.strongRecOn generalizing base with
  | ind size ih =>
    conv_lhs => rw [narrow]
    conv_rhs => rw [narrow]
    split
    · simp only [isUpTo_eq h]
      apply ih
      omega
    · rfl

/-- What is found depends on the keys only. -/
theorem find?_eq_of_map_eq {β : Type} {key' : β → Nat} {items' : Array β}
    (h : items.map key = items'.map key') :
  find? key items wanted = find? key' items' wanted
  := by
  have hsize : items.size = items'.size := by simpa using congrArg Array.size h
  have hkey (i : Nat) : items[i]?.map key = items'[i]?.map key' := by
    simpa using congrArg (·[i]?) h
  simp only [find?, lastUpTo?, hsize, narrow_eq h, isUpTo_eq h, hkey]

theorem find?_lt {i : Nat} (h : find? key items wanted = some i) :
  i < items.size
  := by
  obtain ⟨-, hi⟩ := Option.filter_eq_some_iff.mp h
  by_contra hge
  rw [Array.getElem?_eq_none (by omega)] at hi
  simp at hi

/-- Of two items with ascending keys the one in front has the lesser key. -/
theorem Ascending.key_lt (h : Ascending key items) {i j : Nat} {a b : α} (hij : i < j)
    (ha : items[i]? = some a) (hb : items[j]? = some b) :
  key a < key b
  := by
  rw [← Array.getElem?_toList] at ha hb
  obtain ⟨hi, rfl⟩ := List.getElem?_eq_some_iff.mp ha
  obtain ⟨hj, rfl⟩ := List.getElem?_eq_some_iff.mp hb
  apply List.pairwise_iff_getElem.mp h i j hi hj hij

/-- Whether the keys are in order, perhaps with repetitions. -/
def Ordered (key : α → Nat) (items : Array α) : Prop :=
  items.toList.Pairwise fun a b => key a ≤ key b

theorem Ascending.ordered (h : Ascending key items) :
  Ordered key items
  := List.Pairwise.imp Nat.le_of_lt h

/-- An item in front of one with a key up to `wanted` has such a key. -/
theorem Ordered.isUpTo_of_le (h : Ordered key items) {i j : Nat} (hij : i ≤ j)
    (hj : isUpTo key items wanted j) :
  isUpTo key items wanted i
  := by
  rcases Nat.eq_or_lt_of_le hij with rfl | hij
  · apply hj
  obtain ⟨b, hb, hle⟩ := isUpTo_iff.mp hj
  obtain ⟨hj, rfl⟩ := Array.getElem?_eq_some_iff.mp hb
  have hi : i < items.size := hij.trans hj
  have hkeys : key items[i] ≤ key items[j] := by
    have hle := List.pairwise_iff_getElem.mp h i j (by simpa using hi) (by simpa using hj) hij
    rwa [Array.getElem_toList, Array.getElem_toList] at hle
  apply isUpTo_iff.mpr ⟨items[i], Array.getElem?_eq_getElem hi, hkeys.trans hle⟩

/-- The place left is the last one with a key up to `wanted`, or the first when there is none. -/
theorem narrow_spec (h : Ordered key items) {base size : Nat} (hsize : 0 < size)
    (hbase : base = 0 ∨ isUpTo key items wanted base)
    (hlimit : ∀ j, isUpTo key items wanted j → j < base + size) :
  (narrow key items wanted base size = 0
      ∨ isUpTo key items wanted (narrow key items wanted base size))
    ∧ ∀ j, isUpTo key items wanted j → j ≤ narrow key items wanted base size
  := by
  fun_induction narrow key items wanted base size with
  | case1 base size hlarge half middle ih =>
    apply ih (by omega)
    · split
      · rename_i hmiddle
        exact .inr hmiddle
      · apply hbase
    · intro j hj
      have hlt := hlimit j hj
      split
      · omega
      · rename_i hmiddle
        have hnot : j < middle := by
          by_contra hle
          apply hmiddle (h.isUpTo_of_le (Nat.le_of_not_lt hle) hj)
        omega
  | case2 base size hsmall =>
    use hbase
    intro j hj
    have hlt := hlimit j hj
    omega

/-- The search comes to an item when there is one with a key up to the one wanted. -/
theorem exists_lastUpTo? (h : Ordered key items) {i : Nat} (hi : isUpTo key items wanted i) :
  ∃ last, lastUpTo? key items wanted = some last ∧ isUpTo key items wanted last
    ∧ ∀ j, isUpTo key items wanted j → j ≤ last
  := by
  have hlimit : ∀ j, isUpTo key items wanted j → j < 0 + items.size := by
    intro j hj
    obtain ⟨item, hitem, -⟩ := isUpTo_iff.mp hj
    have hlt := (Array.getElem?_eq_some_iff.mp hitem).1
    omega
  have hpos : 0 < items.size := (Nat.zero_le i).trans_lt (by simpa using hlimit i hi)
  obtain ⟨hplace, hlast⟩ := narrow_spec h hpos (.inl rfl) hlimit
  have hup : isUpTo key items wanted (narrow key items wanted 0 items.size) := by
    rcases hplace with hzero | hup
    · rw [hzero]
      apply h.isUpTo_of_le (Nat.zero_le i) hi
    · apply hup
  exact ⟨_, by rw [lastUpTo?, if_pos hup], hup, hlast⟩

/-- The search comes to the last item with a key up to the one wanted. -/
theorem lastUpTo?_eq_some (h : Ordered key items) {i : Nat} :
  lastUpTo? key items wanted = some i
    ↔ isUpTo key items wanted i ∧ ∀ j, isUpTo key items wanted j → j ≤ i
  := by
  constructor
  · intro hi
    have hup : isUpTo key items wanted i := by
      rw [lastUpTo?] at hi
      split at hi
      · rename_i hup
        rwa [← Option.some.inj hi]
      · cases hi
    obtain ⟨last, hlast, hspec⟩ := exists_lastUpTo? h hup
    obtain rfl := Option.some.inj (hlast.symm.trans hi)
    apply hspec
  · rintro ⟨hup, hlast⟩
    obtain ⟨last, hfound, hup', hlast'⟩ := exists_lastUpTo? h hup
    rw [hfound, Nat.le_antisymm (hlast last hup') (hlast' i hup)]

/-- The search comes to nothing when no item has a key up to the one wanted. -/
theorem lastUpTo?_eq_none (h : Ordered key items) :
  lastUpTo? key items wanted = none ↔ ∀ item ∈ items, wanted < key item
  := by
  constructor
  · intro hnone item hitem
    by_contra hle
    obtain ⟨i, hi⟩ := Array.mem_iff_getElem?.mp hitem
    obtain ⟨last, hlast, -⟩ := exists_lastUpTo? h (isUpTo_iff.mpr ⟨item, hi, Nat.le_of_not_lt hle⟩)
    rw [hlast] at hnone
    cases hnone
  · intro hbehind
    rw [lastUpTo?]
    split
    · rename_i hup
      obtain ⟨item, hitem, hle⟩ := isUpTo_iff.mp hup
      exact absurd hle (hbehind item (Array.mem_of_getElem? hitem)).not_ge
    · rfl

/-- The search finds the place of the item with the key wanted. -/
theorem find?_eq_some (h : Ascending key items) {i : Nat} :
  find? key items wanted = some i ↔ ∃ item, items[i]? = some item ∧ key item = wanted
  := by
  simp only [find?, Option.filter_eq_some_iff, lastUpTo?_eq_some h.ordered, beq_iff_eq,
    Option.map_eq_some_iff]
  constructor
  · rintro ⟨-, item, hitem, hkey⟩
    exact ⟨item, hitem, hkey⟩
  · rintro ⟨item, hitem, hkey⟩
    refine ⟨⟨isUpTo_iff.mpr ⟨item, hitem, hkey.le⟩, ?_⟩, item, hitem, hkey⟩
    intro j hj
    obtain ⟨item', hitem', hle⟩ := isUpTo_iff.mp hj
    by_contra hlt
    have hkeys := h.key_lt (Nat.lt_of_not_le hlt) hitem hitem'
    omega

/-- The search fails when no item has the key wanted. -/
theorem find?_eq_none (h : Ascending key items) :
  find? key items wanted = none ↔ ∀ item ∈ items, key item ≠ wanted
  := by
  rw [Option.eq_none_iff_forall_ne_some]
  constructor
  · intro hnone item hitem hkey
    obtain ⟨i, hi⟩ := Array.mem_iff_getElem?.mp hitem
    apply hnone i ((find?_eq_some h).mpr ⟨item, hi, hkey⟩)
  · intro hne i hi
    obtain ⟨item, hitem, hkey⟩ := (find?_eq_some h).mp hi
    apply hne item (Array.mem_of_getElem? hitem) hkey

end JvmCoverage.Search
