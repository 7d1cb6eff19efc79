import JvmCoverage.Proofs.SafeWriting

/-!
# Frames come back from their table

A table can tell frames when their offsets increase, no frame is further behind the one before it
than two bytes can say, and there is a tag for the shape of each (`Frame.IsTabular`).  Exactly these
frames come back from the table that is written for them.  The frames of a table that was read are
of this kind, and the table that is written for them is not longer (`Frame.readTable_writeTable`).
-/

namespace JvmCoverage

instance : (shape : FrameShape) → Decidable shape.Valid
  | .same | .oneOperand _ => .isTrue trivial
  | .chop _ | .append _ | .full _ _ => inferInstanceAs (Decidable (_ ∧ _))

namespace Frame

/-! ## Frames that a table can tell -/

/-- Whether a table can tell the frames. -/
structure IsTabular (frames : List Frame) : Prop where
  increasing : (frames.map Frame.offset).Pairwise (· < ·)
  first : ∀ frame ∈ frames.head?, frame.offset ≤ 65535
  /-- The code bytes between two frames are at most 65535. -/
  next : frames.IsChain fun a b => b.offset ≤ a.offset + 65536
  length_le : frames.length ≤ 65535
  shapes : ∀ frame ∈ frames, frame.shape.Valid

variable {previous : Option Nat} {frames : List Frame}

/-- Frames stand in order when their offsets increase. -/
theorem ordered_iff :
  Ordered previous frames
    ↔ (∀ before ∈ previous, ∀ frame ∈ frames, before < frame.offset)
      ∧ (frames.map Frame.offset).Pairwise (· < ·)
  := by
  induction frames generalizing previous with
  | nil => simp [Ordered]
  | cons frame frames ih =>
    simp only [Ordered, ih, List.map_cons, List.pairwise_cons, List.forall_mem_cons,
      List.forall_mem_map, Option.mem_some_iff, forall_eq']
    constructor
    · rintro ⟨hbefore, hnext, hframes⟩
      refine ⟨fun before hprevious => ⟨hbefore before hprevious, ?_⟩, hnext, hframes⟩
      exact fun later hlater => (hbefore before hprevious).trans (hnext later hlater)
    · rintro ⟨hbefore, hnext, hframes⟩
      exact ⟨fun before hprevious => (hbefore before hprevious).1, hnext, hframes⟩

/-- Distances fit when that of the first frame does and no frame is too far behind another. -/
theorem forall_gaps_iff :
  (∀ p ∈ gaps previous frames, p.1 ≤ 65535 ∧ p.2.Valid)
    ↔ (∀ frame ∈ frames.head?, gap previous frame.offset ≤ 65535)
      ∧ (frames.IsChain fun a b => b.offset ≤ a.offset + 65536)
      ∧ ∀ frame ∈ frames, frame.shape.Valid
  := by
  induction frames generalizing previous with
  | nil => simp [gaps]
  | cons frame frames ih =>
    have hgap (next : Frame) :
        gap (some frame.offset) next.offset ≤ 65535 ↔ next.offset ≤ frame.offset + 65536 := by
      rw [gap]
      omega
    simp only [gaps, List.forall_mem_cons, ih, hgap, List.isChain_cons, List.head?_cons,
      Option.mem_some_iff, forall_eq']
    tauto

theorem wellFormed_iff :
  WellFormed frames ↔ IsTabular frames
  := by
  constructor
  · rintro ⟨hordered, hlength, hgaps⟩
    obtain ⟨hfirst, hnext, hshapes⟩ := forall_gaps_iff.mp hgaps
    exact ⟨(ordered_iff.mp hordered).2, hfirst, hnext, hlength, hshapes⟩
  · rintro ⟨hincreasing, hfirst, hnext, hlength, hshapes⟩
    have hordered : Ordered none frames := ordered_iff.mpr ⟨nofun, hincreasing⟩
    exact ⟨hordered, hlength, forall_gaps_iff.mpr ⟨hfirst, hnext, hshapes⟩⟩

/-! ## Tables of frames -/

/-- Frames come back from the table that is written for them exactly when a table can tell them.
The frames of a table that was read have increasing offsets and are written into a table that is
not longer and has the same frames.  In both directions the offsets keep to their 32 bits. -/
theorem readTable_writeTable :
  (∀ frames, IsTabular frames
      ↔ ∃ payload, writeTable frames = .ok payload ∧ readTable payload = .ok frames)
    ∧ (∀ payload frames, readTable payload = .ok frames →
      (frames.map Frame.offset).Pairwise (· < ·)
        ∧ ∃ written, writeTable frames = .ok written ∧ written.length ≤ payload.length
          ∧ readTable written = .ok frames)
    ∧ (∀ frames, IsTabular frames →
      Machine.frameTable frames = Machine.faultless (writeTable frames))
    ∧ ∀ payload : List UInt8, payload.length < 2 ^ 64 →
      Machine.readFrameTable payload = Machine.faultless (readTable payload)
  := by
  refine ⟨?_, ?_, ?_, ?_⟩
  · intro frames
    rw [← wellFormed_iff]
    constructor
    · intro hwf
      exact ⟨tableForm frames, writeTable_eq hwf, readTable_tableForm hwf⟩
    · rintro ⟨payload, -, hread⟩
      exact (of_readTable hread).1
  · intro payload frames hread
    obtain ⟨hwf, hle, -⟩ := of_readTable hread
    use (wellFormed_iff.mp hwf).increasing, tableForm frames
    exact ⟨writeTable_eq hwf, hle, readTable_tableForm hwf⟩
  · intro frames htabular
    have hwf := wellFormed_iff.mpr htabular
    rw [Machine.frameTable_eq hwf, writeTable_eq hwf, Machine.faultless_ok]
  · exact fun payload => Machine.readFrameTable_eq

/-- Frames of every shape, at and behind the distances at which the compact forms end and as far
behind one another as two bytes can say. -/
def shapedFrames : List Frame :=
  [⟨63, .same⟩, ⟨127, .oneOperand .integer⟩, ⟨192, .oneOperand (.object 7)⟩, ⟨257, .same⟩,
    ⟨258, .chop 3⟩, ⟨260, .append [.long, .top]⟩,
    ⟨65796, .full [.uninitializedThis] [.uninitialized 12]⟩]

theorem isTabular_shapedFrames :
  IsTabular shapedFrames
  where
    increasing := by decide
    first := by decide
    next := by decide
    length_le := by decide
    shapes := by decide

/-- The second table has two frames in long forms where the compact ones do. -/
theorem readTable_writeTable_shapedFrames :
  IsTabular shapedFrames
    ∧ readTable [0, 7, 63, 127, 1, 247, 0, 64, 7, 0, 7, 251, 0, 64, 248, 0, 0, 253, 0, 1, 4, 0,
      255, 255, 255, 0, 1, 6, 0, 1, 8, 0, 12] = .ok shapedFrames
    ∧ readTable [0, 2, 251, 0, 5, 247, 0, 3, 1] = .ok [⟨5, .same⟩, ⟨9, .oneOperand .integer⟩]
    ∧ ∃ written, writeTable [⟨5, .same⟩, ⟨9, .oneOperand .integer⟩] = .ok written
      ∧ written.length ≤ 9
  := by
  obtain ⟨hback, hshorter, -⟩ := readTable_writeTable
  obtain ⟨payload, hwrite, hread⟩ := (hback shapedFrames).mp isTabular_shapedFrames
  have hpayload : writeTable shapedFrames = .ok [0, 7, 63, 127, 1, 247, 0, 64, 7, 0, 7, 251, 0, 64,
      248, 0, 0, 253, 0, 1, 4, 0, 255, 255, 255, 0, 1, 6, 0, 1, 8, 0, 12] := by decide
  obtain rfl := Except.ok.inj (hwrite.symm.trans hpayload)
  have hlong : readTable [0, 2, 251, 0, 5, 247, 0, 3, 1]
      = .ok [⟨5, .same⟩, ⟨9, .oneOperand .integer⟩] := by decide
  obtain ⟨-, written, hwritten, hle, -⟩ := hshorter _ _ hlong
  exact ⟨isTabular_shapedFrames, hread, hlong, written, hwritten, hle⟩

end Frame

end JvmCoverage
