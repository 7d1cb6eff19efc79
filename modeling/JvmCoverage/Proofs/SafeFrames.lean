import JvmCoverage.Proofs.Following

/-!
# Reading stack map frames does not fault

A frame stands at most `2 ^ 16` behind the one before it, and a table has at most `2 ^ 16 - 1`
frames, so no offset has more than 32 bits.  Some table gets as far as a table can.
-/

namespace JvmCoverage.Machine

theorem follows_readType :
  Follows readType VerificationType.read
  := by
  apply follows_field8.bind
  intro tag _
  split
  · apply follows_pure
  · apply follows_pure
  · apply follows_pure
  · apply follows_pure
  · apply follows_pure
  · apply follows_pure
  · apply follows_pure
  · exact follows_field16.map _
  · exact follows_field16.map _
  · -- no other tag is that of a type
    try split
    all_goals first | contradiction | apply follows_throw

theorem follows_readFrame :
  Follows readFrame FrameShape.read
  := by
  apply follows_field8.bind
  intro type _
  apply Follows.ite (fun _ => follows_pure _)
  intro hsame
  apply Follows.ite
  · intro _
    have hle : 64 ≤ type := by
      rw [UInt8.not_le, UInt8.lt_iff_toNat_lt] at hsame
      exact UInt8.le_iff_toNat_le.mpr hsame
    rw [sub8_eq hle, pure_bind]
    apply follows_readType.bind
    intro operand _
    rw [UInt8.toNat_sub_of_le _ _ hle]
    apply follows_pure
  intro hone
  apply Follows.ite (fun _ => follows_throw _)
  intro hreserved
  apply (follows_unsigned 2).bind
  intro distance _
  apply Follows.ite
  · intro _
    apply follows_readType.bind
    intro operand _
    apply follows_pure
  intro _
  apply Follows.ite
  · intro hle
    rw [sub8_eq (UInt8.le_trans hle (by decide)), pure_bind]
    apply follows_pure
  intro hchop
  apply Follows.ite (fun _ => follows_pure _)
  intro hextended
  apply Follows.ite
  · intro _
    have hle : 251 ≤ type := by
      rw [UInt8.not_le, UInt8.lt_iff_toNat_lt] at hchop
      exact UInt8.le_iff_toNat_le.mpr hchop
    rw [sub8_eq hle, pure_bind, UInt8.toNat_sub_of_le _ _ hle]
    apply (follows_readType.times _).bind
    intro locals _
    apply follows_pure
  · intro _
    apply follows_readType.counted.bind
    intro locals _
    apply follows_readType.counted.bind
    intro stack _
    apply follows_pure

/-- Where the next frame stands at the earliest. -/
def floor (previous : Option Nat) : Nat :=
  previous.elim 0 Nat.succ

theorem offsetAfter_eq {previous : Option Nat} {distance : Nat}
    (h : floor previous + distance < 2 ^ 32) :
  offsetAfter previous distance = pure (Frame.offsetAfter previous distance)
    ∧ floor (some (Frame.offsetAfter previous distance)) = floor previous + distance + 1
  := by
  cases previous with
  | none => simp [offsetAfter, Frame.offsetAfter, floor]
  | some offset =>
    simp only [floor, Option.elim_some] at h
    simp only [offsetAfter, Frame.offsetAfter, floor, Option.elim_some]
    rw [add_eq (by omega), pure_bind, add_eq (by omega)]
    exact ⟨rfl, by omega⟩

/-- Every frame moves on by at most `2 ^ 16`. -/
theorem follows_readFrames {n : Nat} {previous : Option Nat}
    (h : floor previous + 2 ^ 16 * n ≤ 2 ^ 32) :
  Follows (readFrames n previous)
    (Frame.placeAfter previous <$> Reader.times n FrameShape.read)
  := by
  induction n generalizing previous with
  | zero => exact follows_pure []
  | succ n ih =>
    rw [Reader.times_succ, map_bind]
    apply follows_readFrame.bind
    rintro ⟨distance, shape⟩ ⟨_, hframe⟩
    have hdistance : distance ≤ 65535 := (FrameShape.reads_read.mp hframe).2.1
    obtain ⟨hoffset, hfloor⟩ := offsetAfter_eq (show floor previous + distance < 2 ^ 32 by omega)
    have htail := (@ih (some (Frame.offsetAfter previous distance)) (by omega)).map
      fun frames => ⟨Frame.offsetAfter previous distance, shape⟩ :: frames
    simp only [hoffset, pure_bind, bind_pure_comp, Functor.map_map]
    rw [Functor.map_map] at htail
    exact htail

/-- A table has at most `2 ^ 16 - 1` frames, so the last of them stands below `2 ^ 32`. -/
theorem readFrameTable_eq {payload : List UInt8} (hlength : payload.length < 2 ^ 64) :
  readFrameTable payload = faultless (Frame.readTable payload)
  := by
  have hfollows : Follows (do let n ← unsigned 2; readFrames n none)
      (Frame.placeAfter none <$> Reader.counted FrameShape.read) := by
    rw [Reader.counted, map_bind]
    apply (follows_unsigned 2).bind
    rintro n ⟨_, hn⟩
    have hn := (Reader.reads_unsigned.mp hn).1
    apply follows_readFrames
    rw [floor, Option.elim_none]
    omega
  have hplace : Frame.placeAfter none = Frame.place := funext fun frames => (Frame.place_eq frames).symm
  rw [readFrameTable, runAll_eq hfollows hlength, Frame.readTable, hplace, runAll_map]

theorem offset_lt_of_mem_placeAfter {previous : Option Nat} {placed : List (Nat × FrameShape)}
    (hplaced : ∀ p ∈ placed, p.1 ≤ 65535) {frame : Frame}
    (hframe : frame ∈ Frame.placeAfter previous placed) :
  frame.offset < floor previous + 2 ^ 16 * placed.length
  := by
  induction placed generalizing previous with
  | nil => cases hframe
  | cons p placed ih =>
    obtain ⟨hp, hplaced⟩ := List.forall_mem_cons.mp hplaced
    have hoffset : Frame.offsetAfter previous p.1 = floor previous + p.1 := by
      cases previous <;> simp only [Frame.offsetAfter, floor, Option.elim] <;> omega
    rw [Frame.placeAfter, List.mem_cons] at hframe
    rw [List.length_cons]
    obtain rfl | hframe := hframe
    · dsimp only
      omega
    · have hlt := ih hplaced hframe
      rw [hoffset] at hlt
      change _ < floor previous + p.1 + 1 + _ at hlt
      omega

/-- The last frame of a table stays clear of the greatest number of 32 bits by `2 ^ 16`. -/
theorem offset_le_of_readFrameTable {payload : List UInt8} (hlength : payload.length < 2 ^ 64)
    {frames : List Frame} (hread : readFrameTable payload = .ok frames) {frame : Frame}
    (hframe : frame ∈ frames) :
  frame.offset + 2 ^ 16 ≤ 2 ^ 32 - 1
  := by
  rw [readFrameTable_eq hlength] at hread
  cases htable : Frame.readTable payload with
  | error e =>
    rw [htable] at hread
    cases hread
  | ok table =>
    rw [htable] at hread
    obtain rfl := Except.ok.inj hread
    obtain ⟨hordered, hcount, hgaps⟩ := (Frame.of_readTable htable).1
    rw [← Frame.placeAfter_gaps hordered] at hframe
    have hlt := offset_lt_of_mem_placeAfter (fun p hp => (hgaps p hp).1) hframe
    rw [Frame.length_gaps, floor, Option.elim_none] at hlt
    omega

/-- Frames of which each is as far behind the one before as it can be. -/
def farFrames (n : Nat) : List Frame :=
  Frame.placeAfter none (.replicate n (65535, .same))

theorem exists_mem_placeAfter_replicate (previous : Option Nat) (n : Nat) :
  ∃ frame ∈ Frame.placeAfter previous (.replicate (n + 1) (65535, .same)),
    frame.offset + 1 = floor previous + 2 ^ 16 * (n + 1)
  := by
  induction n generalizing previous with
  | zero =>
    refine ⟨_, List.mem_cons_self, ?_⟩
    cases previous <;> simp only [Frame.offsetAfter, floor, Option.elim] <;> omega
  | succ n ih =>
    obtain ⟨frame, hframe, hoffset⟩ := ih (some (Frame.offsetAfter previous 65535))
    refine ⟨frame, List.mem_cons_of_mem _ hframe, ?_⟩
    rw [hoffset]
    cases previous <;> simp only [Frame.offsetAfter, floor, Option.elim] <;> omega

theorem length_farFrames (n : Nat) :
  (farFrames n).length = n
  := by
  rw [← Frame.length_gaps none, farFrames, Frame.gaps_placeAfter, List.length_replicate]

theorem wellFormed_farFrames {n : Nat} (h : n ≤ 65535) :
  Frame.WellFormed (farFrames n)
  where
    ordered := Frame.ordered_placeAfter none _
    length_le := by rwa [length_farFrames]
    gaps_valid := by
      intro p hp
      rw [farFrames, Frame.gaps_placeAfter] at hp
      obtain rfl := List.eq_of_mem_replicate hp
      exact ⟨le_rfl, trivial⟩

theorem length_tableForm_farFrames (n : Nat) :
  (Frame.tableForm (farFrames n)).length = 2 + 3 * n
  := by
  have hframe : (FrameShape.same.toBytes 65535).length = 3 := rfl
  rw [Frame.tableForm, farFrames, Frame.gaps_placeAfter, Frame.gapsForm, List.length_append,
    Bytes.length_count16, List.length_flatMap, List.map_replicate, List.sum_replicate_nat, hframe,
    Nat.mul_comm]

/-- Some table with the most frames gets as far as that. -/
theorem readFrameTable_farFrames :
  readFrameTable (Frame.tableForm (farFrames 65535)) = .ok (farFrames 65535)
    ∧ ∃ frame ∈ farFrames 65535, frame.offset + 2 ^ 16 = 2 ^ 32 - 1
  := by
  constructor
  · rw [readFrameTable_eq (by rw [length_tableForm_farFrames]; omega),
      Frame.readTable_tableForm (wellFormed_farFrames le_rfl)]
    rfl
  · obtain ⟨frame, hframe, hoffset⟩ := exists_mem_placeAfter_replicate none 65534
    refine ⟨frame, hframe, ?_⟩
    rw [floor, Option.elim_none] at hoffset
    omega

end JvmCoverage.Machine
