import JvmCoverage.Coverage.Store
import Mathlib.Data.List.Induction
import Mathlib.Data.List.Nodup

/-!
# The counters that calls leave behind

What a store of counters has to hold is told by the calls to it alone.  The classes that have slots
are those that asked for one with success, in that order (`CounterCall.placed`).  A counter shows
how many calls have hit it since it was last reset, as long as there was such a counter at the time
of the call (`CounterCall.hits`).  Together these give the segments (`CounterCall.segmentsAfter`),
and for each call what it adds to them.
-/

namespace JvmCoverage

/-! ## Calls -/

/-- What the counters of classes are asked for. -/
inductive CounterCall where
  | allocate (identity : ClassIdentity) (probes : Nat)
  | hit (slot probe : UInt32)
  | resetSegment (slot : UInt32)
  | reset

namespace CounterCall

/-- Whether the call counts a run of the given probe of the segment in the given slot. -/
def isHit (slot probe : Nat) : CounterCall → Bool
  | hit slot' probe' => slot'.toNat == slot && probe'.toNat == probe
  | _ => false

/-- Whether the call sets the counters in the given slot to 0. -/
def resets (slot : Nat) : CounterCall → Bool
  | resetSegment slot' => slot'.toNat == slot
  | reset => true
  | _ => false

/-- The classes that have slots, with their numbers of counters, after one more call. -/
def place (capacity : Nat) (placed : List (ClassIdentity × Nat)) :
    CounterCall → List (ClassIdentity × Nat)
  | allocate identity probes =>
    if identity ∈ placed.map Prod.fst ∨ capacity ≤ placed.length then placed
    else placed ++ [(identity, probes)]
  | _ => placed

/-- The classes that have slots, with their numbers of counters, in the order in which they first
asked with success. -/
def placed (capacity : Nat) (calls : List CounterCall) : List (ClassIdentity × Nat) :=
  calls.foldl (place capacity) []

/-- Whether there is a counter for a probe in a slot. -/
def inRange (placed : List (ClassIdentity × Nat)) (slot probe : Nat) : Bool :=
  placed[slot]?.any (probe < ·.2)

/-- Whether the call at position `i` hits a counter that is there, and no call behind it resets the
counter. -/
def countsAt (capacity : Nat) (calls : List CounterCall) (slot probe i : Nat) : Bool :=
  calls[i]?.any (isHit slot probe) && inRange (placed capacity (calls.take i)) slot probe
    && !(calls.drop (i + 1)).any (resets slot)

/-- The number of hits of a counter since it was last reset. -/
def hits (capacity : Nat) (calls : List CounterCall) (slot probe : Nat) : Nat :=
  (List.range calls.length).countP (countsAt capacity calls slot probe)

/-- The counters of a class. -/
def counters (entry : ClassIdentity × Nat) (hits : Nat → Nat) : Segment :=
  ⟨entry.1, .ofFn fun probe : Fin entry.2 => UInt64.ofNat (hits probe)⟩

/-- The segments that the calls leave behind, in order. -/
def segmentsAfter (capacity : Nat) (calls : List CounterCall) : List Segment :=
  (placed capacity calls).mapIdx fun slot entry => counters entry (hits capacity calls slot)

/-! ### One more call -/

variable {capacity slot probe : Nat} {call : CounterCall} {calls : List CounterCall}

theorem placed_concat :
  placed capacity (calls ++ [call]) = place capacity (placed capacity calls) call
  := by
  rw [placed, List.foldl_append]
  rfl

theorem prefix_place (placed : List (ClassIdentity × Nat)) :
  placed <+: place capacity placed call
  := by
  cases call with
  | allocate identity probes =>
    rw [place]
    split
    · apply List.prefix_rfl
    · apply List.prefix_append
  | _ => apply List.prefix_rfl

/-- A class keeps its place. -/
theorem placed_take (capacity : Nat) (calls : List CounterCall) (i : Nat) :
  placed capacity (calls.take i) <+: placed capacity calls
  := by
  induction calls using List.reverseRecOn with
  | nil => simp
  | append_singleton calls call ih =>
    rcases Nat.lt_or_ge calls.length i with hlt | hle
    · have hall : (calls ++ [call]).take i = calls ++ [call] :=
        List.take_of_length_le (by rwa [List.length_append, List.length_singleton])
      simp only [hall, List.prefix_rfl]
    · rw [List.take_append_of_le_length hle, placed_concat]
      apply ih.trans (prefix_place _)

theorem not_isHit_of_resets (h : call.resets slot) :
  call.isHit slot probe = false
  := by
  cases call <;> first | rfl | cases h

theorem countsAt_concat {i : Nat} (hi : i < calls.length) :
  countsAt capacity (calls ++ [call]) slot probe i
    = (countsAt capacity calls slot probe i && !call.resets slot)
  := by
  rw [countsAt, List.getElem?_append_left hi, List.take_append_of_le_length (Nat.le_of_lt hi),
    List.drop_append_of_le_length hi, List.any_append]
  simp [countsAt, Bool.and_assoc]

theorem countsAt_last :
  countsAt capacity (calls ++ [call]) slot probe calls.length
    = (call.isHit slot probe && inRange (placed capacity calls) slot probe)
  := by
  simp [countsAt]

/-- A call counts for a counter, or sets it to 0, or leaves it. -/
theorem hits_concat :
  hits capacity (calls ++ [call]) slot probe
    = if call.resets slot then 0
      else hits capacity calls slot probe
        + if call.isHit slot probe && inRange (placed capacity calls) slot probe then 1 else 0
  := by
  have hbefore : (List.range calls.length).countP (countsAt capacity (calls ++ [call]) slot probe)
      = if call.resets slot then 0 else hits capacity calls slot probe := by
    split
    · rename_i hresets
      rw [List.countP_eq_zero]
      intro i hi
      simp [countsAt_concat (List.mem_range.mp hi), hresets]
    · rename_i hresets
      apply List.countP_congr
      intro i hi
      simp [countsAt_concat (List.mem_range.mp hi), hresets]
  rw [hits, List.length_append, List.length_singleton, List.range_succ, List.countP_append,
    hbefore, List.countP_singleton, countsAt_last]
  split
  · rename_i hresets
    simp [not_isHit_of_resets hresets]
  · rfl

/-- A counter that is not there has not been hit. -/
theorem hits_eq_zero (h : inRange (placed capacity calls) slot probe = false) :
  hits capacity calls slot probe = 0
  := by
  rw [hits, List.countP_eq_zero]
  intro i _ hcounts
  simp only [countsAt, Bool.and_eq_true] at hcounts
  obtain ⟨⟨-, hrange⟩, -⟩ := hcounts
  rw [inRange, Option.any_eq_true] at hrange
  obtain ⟨entry, hentry, hlt⟩ := hrange
  obtain ⟨later, hlater⟩ := placed_take capacity calls i
  rw [inRange, ← hlater, List.getElem?_append_left (List.getElem?_eq_some_iff.mp hentry).1, hentry,
    Option.any_some, hlt] at h
  cases h

/-! ### Segments -/

theorem hit_counters (entry : ClassIdentity × Nat) (hits : Nat → Nat) (probe : Nat) :
  (counters entry hits).hit probe
    = counters entry fun p => hits p + if probe = p ∧ p < entry.2 then 1 else 0
  := by
  simp only [counters, Segment.hit, Segment.mk.injEq, true_and]
  apply Array.ext
  · simp
  · intro p hp hp'
    have hlt : p < entry.2 := by simpa using hp'
    simp only [Array.getElem_modify, Array.getElem_ofFn, hlt, and_true]
    split
    · rw [UInt64.ofNat_add]
      rfl
    · rw [Nat.add_zero]

theorem reset_counters (entry : ClassIdentity × Nat) (hits : Nat → Nat) :
  (counters entry hits).reset = counters entry fun _ => 0
  := by
  simp only [counters, Segment.reset, Segment.mk.injEq, true_and]
  apply Array.ext
  · simp
  · simp

theorem fresh_eq_counters (identity : ClassIdentity) (probes : Nat) :
  .fresh identity probes = counters (identity, probes) fun _ => 0
  := by
  simp only [counters, Segment.fresh, Segment.mk.injEq, true_and]
  apply Array.ext
  · simp
  · simp

theorem counters_congr {entry : ClassIdentity × Nat} {hits hits' : Nat → Nat}
    (h : ∀ p < entry.2, hits p = hits' p) :
  counters entry hits = counters entry hits'
  := by
  simp only [counters, Segment.mk.injEq, true_and]
  apply Array.ext
  · simp
  · intro p hp _
    simp [h p (by simpa using hp)]

theorem getElem?_segmentsAfter (capacity : Nat) (calls : List CounterCall) (slot : Nat) :
  (segmentsAfter capacity calls)[slot]?
    = (placed capacity calls)[slot]?.map fun entry => counters entry (hits capacity calls slot)
  := by
  rw [segmentsAfter, List.getElem?_mapIdx]

theorem length_segmentsAfter (capacity : Nat) (calls : List CounterCall) :
  (segmentsAfter capacity calls).length = (placed capacity calls).length
  := by
  rw [segmentsAfter, List.length_mapIdx]

/-- A call that gives no slot changes only what has counted. -/
theorem getElem?_concat
    (hplace : place capacity (placed capacity calls) call = placed capacity calls) (slot : Nat) :
  (segmentsAfter capacity (calls ++ [call]))[slot]?
    = (placed capacity calls)[slot]?.map fun entry => counters entry fun probe =>
      if call.resets slot then 0
      else hits capacity calls slot probe
        + if call.isHit slot probe && inRange (placed capacity calls) slot probe then 1 else 0
  := by
  rw [getElem?_segmentsAfter, placed_concat, hplace]
  congr 1
  funext entry
  congr 1
  funext probe
  apply hits_concat

theorem getElem?_hit (slot probe : UInt32) (k : Nat) :
  (segmentsAfter capacity (calls ++ [.hit slot probe]))[k]?
    = (segmentsAfter capacity calls)[k]?.map fun s =>
      if slot.toNat = k then s.hit probe.toNat else s
  := by
  rw [getElem?_concat rfl, getElem?_segmentsAfter, Option.map_map]
  apply Option.map_congr
  intro entry hentry
  rw [Function.comp_apply]
  by_cases hslot : slot.toNat = k
  · rw [if_pos hslot, hit_counters]
    apply counters_congr
    intro p hp
    simp [resets, isHit, inRange, Option.mem_def.mp hentry, hslot, hp]
  · simp [resets, isHit, hslot]

theorem getElem?_resetSegment (slot : UInt32) (k : Nat) :
  (segmentsAfter capacity (calls ++ [.resetSegment slot]))[k]?
    = (segmentsAfter capacity calls)[k]?.map fun s => if slot.toNat = k then s.reset else s
  := by
  rw [getElem?_concat rfl, getElem?_segmentsAfter, Option.map_map]
  congr 1
  funext entry
  rw [Function.comp_apply, reset_counters]
  by_cases hslot : slot.toNat = k
  · simp [resets, hslot]
  · simp [resets, isHit, hslot]

theorem segmentsAfter_reset :
  segmentsAfter capacity (calls ++ [.reset]) = (segmentsAfter capacity calls).map Segment.reset
  := by
  apply List.ext_getElem?
  intro k
  rw [getElem?_concat rfl, List.getElem?_map, getElem?_segmentsAfter, Option.map_map]
  congr 1
  funext entry
  rw [Function.comp_apply, reset_counters]
  rfl

/-- A class that is not given a slot changes nothing. -/
theorem segmentsAfter_allocate_of_refused {identity : ClassIdentity} (probes : Nat)
    (h : identity ∈ (placed capacity calls).map Prod.fst
      ∨ capacity ≤ (placed capacity calls).length) :
  segmentsAfter capacity (calls ++ [.allocate identity probes]) = segmentsAfter capacity calls
  := by
  apply List.ext_getElem?
  intro k
  rw [getElem?_concat (by rw [place, if_pos h]), getElem?_segmentsAfter]
  rfl

/-- A class that is given a slot has counters that are 0. -/
theorem segmentsAfter_allocate {identity : ClassIdentity} (probes : Nat)
    (h : ¬ (identity ∈ (placed capacity calls).map Prod.fst
      ∨ capacity ≤ (placed capacity calls).length)) :
  segmentsAfter capacity (calls ++ [.allocate identity probes])
    = segmentsAfter capacity calls ++ [.fresh identity probes]
  := by
  have hplaced : placed capacity (calls ++ [.allocate identity probes])
      = placed capacity calls ++ [(identity, probes)] := by
    rw [placed_concat, place, if_neg h]
  have hhits : ∀ slot, hits capacity (calls ++ [.allocate identity probes]) slot
      = hits capacity calls slot := by
    intro slot
    funext probe
    apply hits_concat
  have hnone : hits capacity calls (placed capacity calls).length = fun _ => 0 := by
    funext probe
    apply hits_eq_zero
    simp [inRange]
  rw [segmentsAfter, hplaced, List.mapIdx_concat, hhits, fresh_eq_counters]
  simp only [hhits, hnone]
  rfl

/-- Classes are placed once, and only when there is room. -/
theorem placed_spec (capacity : Nat) (calls : List CounterCall) :
  ((placed capacity calls).map Prod.fst).Nodup ∧ (placed capacity calls).length ≤ capacity
  := by
  induction calls using List.reverseRecOn with
  | nil => simp [placed]
  | append_singleton calls call ih =>
    rw [placed_concat]
    cases call with
    | allocate identity probes =>
      rw [place]
      split
      · apply ih
      · rename_i hnew
        rw [not_or, Nat.not_le] at hnew
        constructor
        · rw [List.map_append, List.nodup_append]
          refine ⟨ih.1, List.nodup_singleton _, ?_⟩
          simp only [List.map_cons, List.map_nil, List.mem_singleton]
          rintro a ha b rfl rfl
          apply hnew.1 ha
        · rw [List.length_append, List.length_singleton]
          apply hnew.2
    | _ => apply ih

end CounterCall

end JvmCoverage
