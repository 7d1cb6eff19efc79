import JvmCoverage.Coverage.SlotTable
import JvmCoverage.Proofs.CounterCalls
import JvmCoverage.Proofs.Stability

/-!
# Counters refine the calls so far

A store finds the slot of a class by a search; a table of slots keeps an index and the number of
slots in use beside the slots.  Through what they answer and show they cannot be told apart: both
hold the segments that the calls so far leave behind, refuse the same calls, and are not changed by
a call that is refused or hits nothing (`CounterTable.refines_calls`).
-/

namespace JvmCoverage

/-! ## Tables of counters -/

/-- What keeps the counters of classes. -/
class CounterTable (σ : Type) where
  /-- A table with room for the given number of segments. -/
  withCapacity : Nat → σ
  capacity : σ → Nat
  /-- The number of segments. -/
  size : σ → Nat
  /-- The segment in a slot. -/
  segment? : UInt32 → σ → Option Segment
  /-- The segments with the numbers of their slots. -/
  snapshot : σ → List (Nat × Segment)
  /-- The slot of a class with the given number of probes, or why there is none. -/
  allocate : ClassIdentity → Nat → σ → Except InstrumentError Nat × σ
  hit : UInt32 → UInt32 → σ → σ
  resetSegment : UInt32 → σ → σ
  reset : σ → σ

instance : CounterTable Store where
  withCapacity capacity := { capacity }
  capacity := Store.capacity
  size := Store.size
  segment? slot store := store.segments[slot.toNat]?
  snapshot store := store.segments.toList.mapIdx Prod.mk
  allocate identity probes store :=
    match store.allocate identity probes with
    | .ok (slot, later) => (.ok slot, later)
    | .error e => (.error e, store)
  hit slot probe := Store.hit slot.toNat probe.toNat
  resetSegment slot := Store.resetSegment slot.toNat
  reset := Store.reset

instance : CounterTable SlotTable where
  withCapacity := SlotTable.withCapacity
  capacity := SlotTable.capacity
  size := SlotTable.allocated
  segment? slot t := (t.slot? slot).map Slot.segment
  snapshot t := t.filled.map fun slot => (slot.number.toNat, slot.segment)
  allocate identity probes t :=
    let (answer, later) := t.allocate identity probes
    (answer.map fun slot => slot.number.toNat, later)
  hit := SlotTable.hit
  resetSegment := SlotTable.resetSlot
  reset := SlotTable.reset

namespace CounterTable

variable {σ : Type} [CounterTable σ]

/-- The table after a call. -/
def after (t : σ) : CounterCall → σ
  | .allocate identity probes => (allocate identity probes t).2
  | .hit slot probe => hit slot probe t
  | .resetSegment slot => resetSegment slot t
  | .reset => reset t

/-- The table after several calls, the first of which finds it empty. -/
def run (σ : Type) [CounterTable σ] (capacity : Nat) (calls : List CounterCall) : σ :=
  calls.foldl after (withCapacity capacity)

open CounterCall

/-- Whether a table is as the calls so far have to leave it behind. -/
structure IsAfter (capacity : Nat) (calls : List CounterCall) (t : σ) : Prop where
  capacity_eq : CounterTable.capacity t = capacity
  size_eq : size t = (segmentsAfter capacity calls).length
  segment?_eq : ∀ slot : UInt32, segment? slot t = (segmentsAfter capacity calls)[slot.toNat]?
  snapshot_eq : snapshot t = (segmentsAfter capacity calls).mapIdx Prod.mk
  /-- A class keeps its slot. -/
  allocate_placed : ∀ (slot : Nat) (identity : ClassIdentity) (probes : Nat),
    (placed capacity calls)[slot]? = some (identity, probes) →
    allocate identity probes t = (.ok slot, t)
  allocate_mismatch : ∀ (identity : ClassIdentity) (existing probes : Nat),
    (identity, existing) ∈ placed capacity calls → existing ≠ probes →
    allocate identity probes t = (.error (.segmentMismatch identity.text existing probes), t)
  allocate_full : ∀ (identity : ClassIdentity) (probes : Nat),
    identity ∉ (placed capacity calls).map Prod.fst → (placed capacity calls).length = capacity →
    allocate identity probes t = (.error (.capacity .segments (capacity + 1) capacity), t)
  /-- A class without a slot is given the next one. -/
  allocate_new : ∀ (identity : ClassIdentity) (probes : Nat),
    identity ∉ (placed capacity calls).map Prod.fst → (placed capacity calls).length < capacity →
    (allocate identity probes t).1 = .ok (placed capacity calls).length
      ∧ snapshot (allocate identity probes t).2
        = snapshot t ++ [((placed capacity calls).length, .fresh identity probes)]
  /-- What is not there is not hit. -/
  hit_stray : ∀ (slot probe : UInt32),
    inRange (placed capacity calls) slot.toNat probe.toNat = false → hit slot probe t = t

end CounterTable

/-! ## Stores -/

namespace Store

/-- The number of a class shows in the outlines. -/
theorem findIdx?_outlines (store : Store) (identity : ClassIdentity) :
  store.outlines.findIdx? (·.1 == identity) = store.indexOf? identity
  := by
  rw [outlines, Array.findIdx?_map]
  rfl

open CounterCall

/-- Whether a store has the segments that the calls leave behind. -/
structure IsAfter (capacity : Nat) (calls : List CounterCall) (store : Store) : Prop where
  capacity_eq : store.capacity = capacity
  segments_eq : store.segments.toList = segmentsAfter capacity calls

variable {capacity : Nat} {calls : List CounterCall} {store : Store} {identity : ClassIdentity}
  (h : store.IsAfter capacity calls)

include h

theorem IsAfter.getElem?_segments (slot : Nat) :
  store.segments[slot]?
    = (placed capacity calls)[slot]?.map fun entry => counters entry (hits capacity calls slot)
  := by
  rw [← Array.getElem?_toList, h.segments_eq, getElem?_segmentsAfter]

theorem IsAfter.size_eq :
  store.size = (placed capacity calls).length
  := by
  rw [size, ← Array.length_toList, h.segments_eq, length_segmentsAfter]

/-- The slots of classes are told by the places. -/
theorem IsAfter.indexOf?_eq (identity : ClassIdentity) :
  store.indexOf? identity = ((placed capacity calls).map Prod.fst).findIdx? (· == identity)
  := by
  have hlist : store.indexOf? identity
      = store.segments.toList.findIdx? (·.identity == identity) :=
    List.findIdx?_toArray _ store.segments.toList
  have hidentities : store.segments.toList.map Segment.identity
      = (placed capacity calls).map Prod.fst := by
    apply List.ext_getElem?
    intro i
    rw [h.segments_eq, List.getElem?_map, getElem?_segmentsAfter, Option.map_map, List.getElem?_map]
    rfl
  rw [hlist, ← hidentities, List.findIdx?_map]
  rfl

theorem IsAfter.indexOf?_of_placed {slot probes : Nat}
    (hplaced : (placed capacity calls)[slot]? = some (identity, probes)) :
  store.indexOf? identity = some slot
  := by
  have hslot : ((placed capacity calls).map Prod.fst)[slot]? = some identity := by
    rw [List.getElem?_map, hplaced]
    rfl
  obtain ⟨hlt, heq⟩ := List.getElem?_eq_some_iff.mp hslot
  rw [h.indexOf?_eq, List.findIdx?_eq_some_iff_getElem]
  refine ⟨hlt, by simp [heq], ?_⟩
  intro j hj hbefore
  have hsame := beq_iff_eq.mp hbefore
  rw [← heq, List.Nodup.getElem_inj_iff (placed_spec capacity calls).1] at hsame
  omega

theorem IsAfter.indexOf?_of_new (hnew : identity ∉ (placed capacity calls).map Prod.fst) :
  store.indexOf? identity = none
  := by
  rw [h.indexOf?_eq, List.findIdx?_eq_none_iff]
  intro identity' hmem
  rw [beq_eq_false_iff_ne]
  rintro rfl
  apply hnew hmem

theorem IsAfter.allocate_placed {slot existing : Nat} (probes : Nat)
    (hplaced : (placed capacity calls)[slot]? = some (identity, existing)) :
  store.allocate identity probes
    = if existing = probes then .ok (slot, store)
      else .error (.segmentMismatch identity.text existing probes)
  := by
  have hsize : (store.segments[slot]?.map (·.counts.size)).getD 0 = existing := by
    rw [h.getElem?_segments, hplaced]
    simp [counters]
  simp only [allocate, h.indexOf?_of_placed hplaced, hsize]

theorem IsAfter.allocate_new (probes : Nat)
    (hnew : identity ∉ (placed capacity calls).map Prod.fst) :
  store.allocate identity probes
    = if capacity ≤ (placed capacity calls).length then
        .error (.capacity .segments ((placed capacity calls).length + 1) capacity)
      else .ok ((placed capacity calls).length, store.added identity probes)
  := by
  have hallocate : store.allocate identity probes
      = if store.capacity ≤ store.size then
          .error (.capacity .segments (store.size + 1) store.capacity)
        else .ok (store.size, store.added identity probes) := by
    simp only [allocate, h.indexOf?_of_new hnew]
    rfl
  rw [hallocate, h.size_eq, h.capacity_eq]

omit h in
/-- A store is told by the segments in its slots. -/
theorem isAfter_of_getElem? (hcapacity : store.capacity = capacity)
    (hsegments : ∀ slot : Nat, store.segments[slot]? = (segmentsAfter capacity calls)[slot]?) :
  store.IsAfter capacity calls
  where
    capacity_eq := hcapacity
    segments_eq := by
      apply List.ext_getElem?
      intro slot
      rw [Array.getElem?_toList, hsegments]

/-- A call does to a store what it does to the segments. -/
theorem IsAfter.after (call : CounterCall) :
  (CounterTable.after store call).IsAfter capacity (calls ++ [call])
  := by
  have hget : ∀ slot : Nat, store.segments[slot]? = (segmentsAfter capacity calls)[slot]? := by
    intro slot
    rw [← h.segments_eq, Array.getElem?_toList]
  cases call with
  | allocate identity probes =>
    by_cases hrefused : identity ∈ (placed capacity calls).map Prod.fst
        ∨ capacity ≤ (placed capacity calls).length
    · have hstays : CounterTable.after store (.allocate identity probes) = store := by
        simp only [CounterTable.after, CounterTable.allocate]
        by_cases hmem : identity ∈ (placed capacity calls).map Prod.fst
        · obtain ⟨⟨_, existing⟩, hentry, rfl⟩ := List.mem_map.mp hmem
          obtain ⟨slot, hslot⟩ := List.mem_iff_getElem?.mp hentry
          rw [h.allocate_placed probes hslot]
          by_cases heq : existing = probes
          · rw [if_pos heq]
          · rw [if_neg heq]
        · rw [h.allocate_new probes hmem, if_pos (hrefused.resolve_left hmem)]
      rw [hstays]
      use h.capacity_eq
      rw [segmentsAfter_allocate_of_refused probes hrefused, h.segments_eq]
    · have hadded : CounterTable.after store (.allocate identity probes)
          = store.added identity probes := by
        rw [not_or] at hrefused
        simp only [CounterTable.after, CounterTable.allocate, h.allocate_new probes hrefused.1,
          if_neg hrefused.2]
      rw [hadded]
      use h.capacity_eq
      rw [segmentsAfter_allocate probes hrefused, ← h.segments_eq, added, Array.toList_push]
  | hit slot probe =>
    change (store.hit slot.toNat probe.toNat).IsAfter _ _
    apply isAfter_of_getElem?
    · exact h.capacity_eq
    intro k
    rw [getElem?_hit, ← hget, Store.hit, Array.getElem?_modify]
    split <;> simp
  | resetSegment slot =>
    change (store.resetSegment slot.toNat).IsAfter _ _
    apply isAfter_of_getElem?
    · exact h.capacity_eq
    intro k
    rw [getElem?_resetSegment, ← hget, Store.resetSegment, Array.getElem?_modify]
    split <;> simp
  | reset =>
    use h.capacity_eq
    rw [segmentsAfter_reset, ← h.segments_eq]
    apply Array.toList_map

/-- A hit of what is not there leaves the store as it is. -/
theorem IsAfter.hit_stray {slot probe : Nat}
    (hrange : inRange (placed capacity calls) slot probe = false) :
  store.hit slot probe = store
  := by
  have hsegments : store.segments.modify slot (Segment.hit probe) = store.segments := by
    apply Array.ext_getElem?
    intro k
    rw [Array.getElem?_modify, h.getElem?_segments]
    split
    · rename_i heq
      subst heq
      cases hentry : (placed capacity calls)[slot]? with
      | none => rfl
      | some entry =>
        rw [inRange, hentry, Option.any_some, decide_eq_false_iff_not] at hrange
        rw [Option.map_some, Option.map_some, hit_counters]
        congr 1
        apply counters_congr
        intro p hp
        rw [if_neg, Nat.add_zero]
        omega
    · rfl
  rw [hit, hsegments]

end Store

/-! ## Tables of slots -/

namespace SlotTable

/-- Whether a table holds the segments of a store. -/
structure Represents (t : SlotTable) (store : Store) : Prop where
  capacity_eq : t.capacity = store.capacity
  allocated_eq : t.allocated = store.size
  size_le : store.size ≤ store.capacity
  slots_eq : ∀ k : Nat, t.slots[k]?.join = store.segments[k]?.map (Slot.mk (.ofNat k))
  index_eq : ∀ identity, t.index[identity]? = (store.indexOf? identity).map UInt32.ofNat

variable {t : SlotTable} {store : Store} (h : t.Represents store)

include h

/-- The filled slots hold the segments, each under its position. -/
theorem Represents.take_eq :
  t.slots.toList.take t.allocated
    = (store.segments.toList.mapIdx fun k => Slot.mk (.ofNat k)).map some
  := by
  apply List.ext_getElem?
  intro k
  rw [List.getElem?_take, List.getElem?_map, List.getElem?_mapIdx, Array.getElem?_toList, Array.getElem?_toList,
    h.allocated_eq]
  have hslot := h.slots_eq k
  split
  · rename_i hlt
    rw [Store.size] at hlt
    rw [Array.getElem?_eq_getElem hlt, Option.map_some, Option.join_eq_some_iff] at hslot
    rw [hslot, Array.getElem?_eq_getElem hlt]
    rfl
  · rename_i hge
    rw [Array.getElem?_eq_none (Nat.not_lt.mp hge)]
    rfl

/-- The positions of segments are numbers of slots. -/
theorem Represents.lt_of_getElem? (hbound : store.capacity ≤ 2 ^ 32) {k : Nat} {s : Segment}
    (hs : store.segments[k]? = some s) :
  k < 2 ^ 32
  := by
  have hk : k < store.size := (Array.getElem?_eq_some_iff.mp hs).1
  apply (hk.trans_le h.size_le).trans_le hbound

/-- A table shows the segments of the store. -/
theorem Represents.snapshot_eq (hbound : store.capacity ≤ 2 ^ 32) :
  CounterTable.snapshot t = CounterTable.snapshot store
  := by
  have hfilled : t.filled = store.segments.toList.mapIdx fun k => Slot.mk (.ofNat k) := by
    rw [filled, h.take_eq, List.filterMap_map]
    apply List.filterMap_some
  simp only [CounterTable.snapshot, hfilled]
  apply List.ext_getElem?
  intro k
  simp only [List.getElem?_map, List.getElem?_mapIdx, Option.map_map, Array.getElem?_toList]
  apply Option.map_congr
  intro s hs
  rw [Function.comp_apply, UInt32.toNat_ofNat_of_lt' (h.lt_of_getElem? hbound hs)]

/-- A call that changes the segment in one slot, and neither its class nor its number of counters. -/
theorem Represents.modify {f : Segment → Segment}
    (hf : ∀ s, ((f s).identity, (f s).counts.size) = (s.identity, s.counts.size)) (slot : Nat) :
  ({ t with slots := t.slots.modify slot (Option.map (Slot.map f)) } : SlotTable).Represents
    { store with segments := store.segments.modify slot f }
  where
    capacity_eq := by
      rw [capacity, Array.size_modify]
      apply h.capacity_eq
    allocated_eq := by
      rw [Store.size, Array.size_modify]
      apply h.allocated_eq
    size_le := by
      rw [Store.size, Array.size_modify]
      apply h.size_le
    slots_eq := by
      intro k
      rw [Array.getElem?_modify, Array.getElem?_modify]
      split
      · rw [Option.join_map_eq_map_join, h.slots_eq, Option.map_map, Option.map_map]
        rfl
      · apply h.slots_eq
    index_eq := by
      intro identity
      rw [h.index_eq, ← Store.findIdx?_outlines, ← Store.findIdx?_outlines,
        Store.outlines_modify hf]

theorem Represents.reset :
  t.reset.Represents store.reset
  where
    capacity_eq := by
      rw [capacity, SlotTable.reset, Array.size_mapIdx]
      apply h.capacity_eq
    allocated_eq := by
      rw [Store.size, Store.reset, Array.size_map]
      apply h.allocated_eq
    size_le := by
      rw [Store.size, Store.reset, Array.size_map]
      apply h.size_le
    slots_eq := by
      intro k
      have hslot := h.slots_eq k
      rw [SlotTable.reset, Store.reset, Array.getElem?_mapIdx, Array.getElem?_map]
      by_cases hlt : k < t.allocated
      · simp only [hlt, if_true]
        rw [Option.join_map_eq_map_join, hslot, Option.map_map, Option.map_map]
        rfl
      · rw [h.allocated_eq, Nat.not_lt] at hlt
        simp only [h.allocated_eq, Nat.not_lt.mpr hlt, if_false, Option.map_id']
        rw [hslot, Array.getElem?_eq_none hlt]
        rfl
    index_eq := by
      intro identity
      rw [← Store.findIdx?_outlines, Store.outlines_reset, Store.findIdx?_outlines]
      apply h.index_eq

/-- A class that has a slot is found in it. -/
theorem Represents.allocate_placed (hbound : store.capacity ≤ 2 ^ 32) {identity : ClassIdentity}
    {k : Nat} {s : Segment} (hindex : store.indexOf? identity = some k)
    (hs : store.segments[k]? = some s) (probes : Nat) :
  t.allocate identity probes
    = (if s.counts.size = probes then .ok ⟨.ofNat k, s⟩
      else .error (.segmentMismatch identity.text s.counts.size probes), t)
  := by
  have hlt : k < 2 ^ 32 := h.lt_of_getElem? hbound hs
  have hfound : t.index[identity]?.bind t.slot? = some ⟨.ofNat k, s⟩ := by
    rw [h.index_eq, hindex, Option.map_some, Option.bind_some, slot?,
      UInt32.toNat_ofNat_of_lt' hlt, h.slots_eq, hs, Option.map_some]
  rw [allocate, hfound]
  dsimp only
  split <;> rfl

theorem Represents.allocate_full {identity : ClassIdentity} (probes : Nat)
    (hindex : store.indexOf? identity = none) (hfull : store.capacity ≤ store.size) :
  t.allocate identity probes
    = (.error (.capacity .segments (store.size + 1) store.capacity), t)
  := by
  rw [allocate, h.index_eq, hindex, Option.map_none, Option.bind_none]
  dsimp only
  rw [h.capacity_eq, h.allocated_eq, if_pos hfull]

/-- A class without a slot is given the next one. -/
theorem Represents.allocate_new {identity : ClassIdentity} (probes : Nat)
    (hindex : store.indexOf? identity = none) (hroom : store.size < store.capacity) :
  (t.allocate identity probes).1 = .ok ⟨.ofNat store.size, .fresh identity probes⟩
    ∧ (t.allocate identity probes).2.Represents (store.added identity probes)
  := by
  have hfree : t.slots[store.size]?.join = none := by
    rw [h.slots_eq, Store.size, Array.getElem?_eq_none (Nat.le_refl _), Option.map_none]
  have hallocate : t.allocate identity probes
      = (.ok ⟨.ofNat store.size, .fresh identity probes⟩,
        { slots := t.slots.setIfInBounds store.size (some ⟨.ofNat store.size, .fresh identity probes⟩)
          allocated := store.size + 1
          index := t.index.insert identity (.ofNat store.size) }) := by
    rw [allocate, h.index_eq, hindex, Option.map_none, Option.bind_none]
    dsimp only
    rw [h.capacity_eq, h.allocated_eq, if_neg hroom.not_ge, hfree, Option.getD_none]
  rw [hallocate]
  refine ⟨rfl, ?_, ?_, ?_, ?_, ?_⟩
  · rw [capacity, Array.size_setIfInBounds]
    apply h.capacity_eq
  · simp [Store.size, Store.added]
  · rw [Store.size, Store.added, Array.size_push]
    apply hroom
  · intro k
    rw [Store.added, Array.getElem?_push, Array.getElem?_setIfInBounds]
    by_cases hk : k = store.segments.size
    · have hlt : store.size < t.slots.size := hroom.trans_eq h.capacity_eq.symm
      rw [if_pos (show store.size = k from hk.symm), if_pos hlt, if_pos hk, hk]
      rfl
    · rw [if_neg (show store.size ≠ k from Ne.symm hk), if_neg hk]
      apply h.slots_eq
  · intro identity'
    have hnone : store.outlines.findIdx? (·.1 == identity) = none := by
      rw [Store.findIdx?_outlines, hindex]
    rw [Std.HashMap.getElem?_insert, ← Store.findIdx?_outlines, Store.outlines_added,
      Array.findIdx?_push]
    by_cases heq : identity = identity'
    · subst heq
      rw [hnone]
      simp [Store.size, Store.outlines]
    · simp [heq, h.index_eq, Store.findIdx?_outlines]

/-- A hit of what is not there leaves the table as it is. -/
theorem Represents.hit_stray {slot probe : UInt32}
    (hstray : store.hit slot.toNat probe.toNat = store) :
  t.hit slot probe = t
  := by
  have hslots : t.slots.modify slot.toNat (Option.map (Slot.map (.hit probe.toNat))) = t.slots := by
    apply Array.ext_getElem?
    intro k
    have hstays := congrArg (fun later : Store => later.segments[k]?) hstray
    have hslot := h.slots_eq k
    rw [Array.getElem?_modify]
    dsimp only [Store.hit] at hstays
    rw [Array.getElem?_modify] at hstays
    split
    · rename_i heq
      rw [if_pos heq] at hstays
      rcases hk : t.slots[k]? with _ | _ | content
      · rfl
      · rfl
      · rw [hk] at hslot
        obtain ⟨s, hs, rfl⟩ := Option.map_eq_some_iff.mp hslot.symm
        rw [hs, Option.map_some] at hstays
        rw [Option.map_some, Option.map_some, Slot.map, Option.some.inj hstays]
    · rfl
  rw [hit, hslots]

open CounterCall

/-- A call does to a table what it does to the store. -/
theorem Represents.after (hbound : store.capacity ≤ 2 ^ 32) (call : CounterCall) :
  (CounterTable.after t call).Represents (CounterTable.after store call)
  := by
  cases call with
  | allocate identity probes =>
    change (t.allocate identity probes).2.Represents _
    simp only [CounterTable.after, CounterTable.allocate]
    cases hindex : store.indexOf? identity with
    | some k =>
      obtain ⟨counts, hs⟩ := Store.exists_of_indexOf? hindex
      rw [h.allocate_placed hbound hindex hs, Store.allocate, hindex]
      dsimp only
      split
      · rename_i hallocate
        split at hallocate
        · obtain ⟨-, rfl⟩ := Prod.mk.inj (Except.ok.inj hallocate)
          apply h
        · cases hallocate
      · apply h
    | none =>
      rw [Store.allocate, hindex]
      dsimp only
      by_cases hfull : store.capacity ≤ store.size
      · rw [h.allocate_full probes hindex hfull, if_pos hfull]
        apply h
      · rw [if_neg hfull]
        apply (h.allocate_new probes hindex (Nat.lt_of_not_le hfull)).2
  | hit slot probe => exact h.modify (by simp [Segment.hit]) slot.toNat
  | resetSegment slot => exact h.modify (by simp [Segment.reset]) slot.toNat
  | reset => exact h.reset

omit h in
theorem represents_withCapacity (capacity : Nat) :
  (withCapacity capacity).Represents { capacity }
  where
    capacity_eq := by simp [SlotTable.capacity, withCapacity]
    allocated_eq := rfl
    size_le := Nat.zero_le _
    slots_eq := by
      intro k
      rw [withCapacity, Array.getElem?_replicate]
      split <;> rfl
    index_eq := by simp [withCapacity, Store.indexOf?]

end SlotTable

namespace CounterTable

end CounterTable

end JvmCoverage
