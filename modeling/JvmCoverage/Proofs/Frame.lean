import JvmCoverage.ClassFile.Frame
import JvmCoverage.Proofs.Fields
import JvmCoverage.Proofs.Outcome
import Mathlib.Tactic.IntervalCases

/-!
# The forms of stack map frames

A type has one form.  A frame with the same locals has a short form for distances up to 63 and a
long form for all; every other frame has one form (`FrameShape.reads_read`).  Offsets of frames
and the distances between them determine one another (`Frame.writeTable_place`,
`Frame.exists_place`).
-/

namespace JvmCoverage

open Reader

/-! ## Types -/

namespace VerificationType

/-- Reads what follows the tag of a type. -/
def readOperand (tag : UInt8) : Reader VerificationType :=
  match tag with
  | 0 => return top
  | 1 => return integer
  | 2 => return float
  | 3 => return double
  | 4 => return long
  | 5 => return null
  | 6 => return uninitializedThis
  | 7 => object <$> field16
  | 8 => uninitialized <$> field16
  | tag => throw (.malformed (.unknownVerificationType tag))

instance (tag : UInt8) : IsLocal (readOperand tag) := by
  unfold readOperand
  split <;> infer_instance

instance : IsLocal read :=
  inferInstanceAs (IsLocal (field8 >>= readOperand))

theorem reads_read {taken : List UInt8} {type : VerificationType} :
  read.Reads taken type ↔ ∃ tag back, (readOperand tag).Reads back type ∧ taken = tag :: back
  := reads_tag (f := readOperand)

/-- A type has one form. -/
theorem hasForm_read :
  read.HasForm (fun _ => True) toBytes
  := by
  intro taken type
  rw [reads_read, true_and]
  constructor
  · rintro ⟨tag, back, h, rfl⟩
    unfold readOperand at h
    split at h
    case h_8 =>
      obtain ⟨index, hindex, rfl⟩ := reads_map.mp h
      rw [reads_field16.mp hindex, toBytes]
    case h_9 =>
      obtain ⟨offset, hoffset, rfl⟩ := reads_map.mp h
      rw [reads_field16.mp hoffset, toBytes]
    case h_10 => exact absurd h not_reads_throw
    all_goals
      obtain ⟨rfl, rfl⟩ := reads_pure.mp h
      rfl
  · rintro rfl
    cases type with
    | object index => exact ⟨7, _, reads_map.mpr ⟨index, reads_field16.mpr rfl, rfl⟩, rfl⟩
    | uninitialized offset =>
      exact ⟨8, _, reads_map.mpr ⟨offset, reads_field16.mpr rfl, rfl⟩, rfl⟩
    | _ => exact ⟨_, [], reads_pure.mpr ⟨rfl, rfl⟩, rfl⟩

end VerificationType

/-! ## Shapes -/

namespace FrameShape

/-- Whether a shape can be read. -/
def Valid : FrameShape → Prop
  | same | oneOperand _ => True
  | chop count => 1 ≤ count ∧ count ≤ 3
  | append locals => 1 ≤ locals.length ∧ locals.length ≤ 3
  | full locals stack => locals.length ≤ 65535 ∧ stack.length ≤ 65535

/-- Whether the frame has the locals of the frame before it. -/
def keepsLocals : FrameShape → Bool
  | same | oneOperand _ => true
  | _ => false

/-- The form with the distance behind the tag. -/
def longForm (distance : Nat) : FrameShape → List UInt8
  | same => 251 :: Bytes.count16 distance
  | oneOperand type => 247 :: (Bytes.count16 distance ++ type.toBytes)
  | shape => shape.toBytes distance

/-- Whether `taken` is a form of the frame. -/
def IsForm (taken : List UInt8) (frame : Nat × FrameShape) : Prop :=
  frame.2.Valid ∧ frame.1 ≤ 65535
    ∧ (taken = frame.2.toBytes frame.1 ∨ taken = frame.2.longForm frame.1)

/-- Reads what follows the distance of a frame whose tag is at least 247. -/
def readLong (tag : UInt8) (distance : Nat) : Reader (Nat × FrameShape) := do
  if tag = 247 then
    let operand ← VerificationType.read
    return (distance, oneOperand operand)
  else if tag ≤ 250 then
    return (distance, chop (251 - tag))
  else if tag = 251 then
    return (distance, same)
  else if tag ≤ 254 then
    let locals ← times (tag.toNat - 251) VerificationType.read
    return (distance, append locals)
  else
    let locals ← counted VerificationType.read
    let stack ← counted VerificationType.read
    return (distance, full locals stack)

/-- Reads what follows the tag of a frame. -/
def readBehind (tag : UInt8) : Reader (Nat × FrameShape) := do
  if tag ≤ 63 then
    return (tag.toNat, same)
  else if tag ≤ 127 then
    let operand ← VerificationType.read
    return (tag.toNat - 64, oneOperand operand)
  else if tag ≤ 246 then
    throw (.malformed (.reservedFrameType tag))
  else
    let distance ← unsigned 2
    readLong tag distance

instance (tag : UInt8) (distance : Nat) : IsLocal (readLong tag distance) := by
  rw [readLong]
  infer_instance

instance (tag : UInt8) : IsLocal (readBehind tag) := by
  rw [readBehind]
  infer_instance

instance : IsLocal read :=
  inferInstanceAs (IsLocal (field8 >>= readBehind))

theorem reads_behind {taken : List UInt8} {frame : Nat × FrameShape} :
  read.Reads taken frame ↔ ∃ tag back, (readBehind tag).Reads back frame ∧ taken = tag :: back
  := reads_tag (f := readBehind)

theorem chop_tag (tag : UInt8) :
  247 ≤ tag → tag ≠ 247 → tag ≤ 250 →
    (1 ≤ 251 - tag ∧ 251 - tag ≤ 3) ∧ 251 - (251 - tag) = tag
  := by
  revert tag
  apply Bytes.forall_of_lt
  decide +kernel

theorem append_tag (tag : UInt8) :
  ¬ tag ≤ 250 → tag ≠ 251 → tag ≤ 254 →
    (1 ≤ tag.toNat - 251 ∧ tag.toNat - 251 ≤ 3) ∧ 251 + UInt8.ofNat (tag.toNat - 251) = tag
  := by
  revert tag
  apply Bytes.forall_of_lt
  decide +kernel

theorem full_tag (tag : UInt8) :
  ¬ tag ≤ 254 → tag = 255
  := by
  revert tag
  apply Bytes.forall_of_lt
  decide +kernel

theorem isForm_of_reads_long {tag : UInt8} {distance : Nat} {back : List UInt8}
    {frame : Nat × FrameShape} (htag : 247 ≤ tag) (hdistance : distance ≤ 65535)
    (h : (readLong tag distance).Reads back frame) :
  IsForm (tag :: (Bytes.count16 distance ++ back)) frame
  := by
  unfold readLong at h
  split at h
  · rename_i htag'
    simp only [reads_bind, VerificationType.hasForm_read _ _, reads_pure] at h
    obtain ⟨type, _, ⟨-, rfl⟩, _, ⟨rfl, rfl⟩, rfl⟩ := h
    refine ⟨trivial, hdistance, .inr ?_⟩
    rw [htag', List.append_nil, longForm]
  split at h
  · rename_i hne hle
    obtain ⟨rfl, rfl⟩ := reads_pure.mp h
    obtain ⟨hvalid, heq⟩ := chop_tag tag htag hne hle
    refine ⟨hvalid, hdistance, .inl ?_⟩
    rw [toBytes, heq, List.append_nil]
  split at h
  · rename_i htag'
    obtain ⟨rfl, rfl⟩ := reads_pure.mp h
    refine ⟨trivial, hdistance, .inr ?_⟩
    rw [htag', List.append_nil, longForm]
  split at h
  · rename_i hgt hne hle
    simp only [reads_bind, VerificationType.hasForm_read.times _ _ _, reads_pure] at h
    obtain ⟨locals, _, ⟨⟨hlength, -⟩, rfl⟩, _, ⟨rfl, rfl⟩, rfl⟩ := h
    obtain ⟨hvalid, heq⟩ := append_tag tag hgt hne hle
    rw [← hlength] at hvalid heq
    refine ⟨hvalid, hdistance, .inl ?_⟩
    rw [toBytes, heq, List.append_nil, typeBytes]
  · rename_i hgt
    simp only [reads_bind, VerificationType.hasForm_read.counted _ _, reads_pure] at h
    obtain ⟨locals, _, ⟨⟨hlocals, -⟩, rfl⟩, _, ⟨stack, _, ⟨⟨hstack, -⟩, rfl⟩, _, ⟨rfl, rfl⟩, rfl⟩,
      rfl⟩ := h
    refine ⟨⟨hlocals, hstack⟩, hdistance, .inl ?_⟩
    simp [toBytes, full_tag tag hgt, typeBytes]

/-- What is read is a form. -/
theorem isForm_of_reads {taken : List UInt8} {frame : Nat × FrameShape}
    (h : read.Reads taken frame) :
  IsForm taken frame
  := by
  obtain ⟨tag, back, hback, rfl⟩ := reads_behind.mp h
  unfold readBehind at hback
  split at hback
  · rename_i hle
    rw [UInt8.le_iff_toNat_le] at hle
    change tag.toNat ≤ 63 at hle
    obtain ⟨rfl, rfl⟩ := reads_pure.mp hback
    refine ⟨trivial, ?_, .inl ?_⟩
    · apply hle.trans (by decide)
    · rw [toBytes, if_pos hle, UInt8.ofNat_toNat]
  split at hback
  · rename_i hgt hle
    rw [UInt8.le_iff_toNat_le] at hgt hle
    change tag.toNat ≤ 127 at hle
    change ¬ tag.toNat ≤ 63 at hgt
    simp only [reads_bind, VerificationType.hasForm_read _ _, reads_pure] at hback
    obtain ⟨type, _, ⟨-, rfl⟩, _, ⟨rfl, rfl⟩, rfl⟩ := hback
    have hdistance : tag.toNat - 64 ≤ 63 := by omega
    refine ⟨trivial, hdistance.trans (by decide), .inl ?_⟩
    rw [toBytes, if_pos hdistance, Nat.add_sub_cancel' (by omega), UInt8.ofNat_toNat]
    simp
  split at hback
  · exact absurd hback not_reads_throw
  · rename_i hgt
    simp only [reads_bind, reads_unsigned] at hback
    obtain ⟨distance, _, ⟨hdistance, rfl⟩, back, hback, rfl⟩ := hback
    apply isForm_of_reads_long _ (Nat.le_of_lt_succ hdistance) hback
    rw [UInt8.le_iff_toNat_le] at hgt ⊢
    change ¬ tag.toNat ≤ 246 at hgt
    change 247 ≤ tag.toNat
    omega

theorem tag_chop (count : UInt8) :
  1 ≤ count ∧ count ≤ 3 →
    247 ≤ 251 - count ∧ 251 - count ≠ 247 ∧ 251 - count ≤ 250 ∧ 251 - (251 - count) = count
  := by
  revert count
  apply Bytes.forall_of_lt
  decide +kernel

theorem tag_append (n : Nat) :
  1 ≤ n ∧ n ≤ 3 →
    247 ≤ 251 + UInt8.ofNat n ∧ 251 + UInt8.ofNat n ≠ 247 ∧ ¬ 251 + UInt8.ofNat n ≤ 250
      ∧ 251 + UInt8.ofNat n ≠ 251 ∧ 251 + UInt8.ofNat n ≤ 254
      ∧ (251 + UInt8.ofNat n).toNat - 251 = n
  := by
  rintro ⟨hlow, hhigh⟩
  interval_cases n <;> decide

theorem reads_of_long {tag : UInt8} {distance : Nat} {back : List UInt8}
    {frame : Nat × FrameShape} (htag : 247 ≤ tag) (hdistance : distance ≤ 65535)
    (h : (readLong tag distance).Reads back frame) :
  read.Reads (tag :: (Bytes.count16 distance ++ back)) frame
  := by
  refine reads_behind.mpr ⟨tag, _, ?_, rfl⟩
  rw [UInt8.le_iff_toNat_le] at htag
  change 247 ≤ tag.toNat at htag
  have hnot : ∀ bound : UInt8, bound.toNat ≤ 246 → ¬ tag ≤ bound := by
    intro bound hbound hle
    rw [UInt8.le_iff_toNat_le] at hle
    omega
  rw [readBehind, if_neg (hnot 63 (by decide)), if_neg (hnot 127 (by decide)),
    if_neg (hnot 246 (by decide))]
  apply (reads_unsigned.mpr ⟨Nat.lt_succ_of_le hdistance, rfl⟩).bind h

/-- The long form is read. -/
theorem reads_longForm {distance : Nat} {shape : FrameShape} (hvalid : shape.Valid)
    (hdistance : distance ≤ 65535) :
  read.Reads (shape.longForm distance) (distance, shape)
  := by
  cases shape with
  | same =>
    rw [longForm, ← List.append_nil (Bytes.count16 distance)]
    apply reads_of_long (by decide) hdistance (reads_pure.mpr ⟨rfl, rfl⟩)
  | oneOperand type =>
    apply reads_of_long (by decide) hdistance
    rw [← List.append_nil type.toBytes]
    exact (VerificationType.hasForm_read.reads trivial).bind (reads_pure.mpr ⟨rfl, rfl⟩)
  | chop count =>
    obtain ⟨htag, hne, hle, heq⟩ := tag_chop count hvalid
    rw [longForm, toBytes, ← List.append_nil (Bytes.count16 distance)]
    · apply reads_of_long htag hdistance
      rw [readLong, if_neg hne, if_pos hle, heq]
      apply reads_pure.mpr ⟨rfl, rfl⟩
    · simp
    · simp
  | append locals =>
    obtain ⟨htag, hne, hgt, hne', hle, heq⟩ := tag_append locals.length hvalid
    have hlocals : (times locals.length VerificationType.read).Reads (typeBytes locals) locals :=
      (VerificationType.hasForm_read.times _).reads ⟨rfl, fun _ _ => trivial⟩
    rw [longForm, toBytes, ← List.append_nil (typeBytes locals)]
    · apply reads_of_long htag hdistance
      rw [readLong, if_neg hne, if_neg hgt, if_neg hne', if_pos hle, heq]
      exact hlocals.bind (reads_pure.mpr ⟨rfl, rfl⟩)
    · simp
    · simp
  | full locals stack =>
    have hlocals : (counted VerificationType.read).Reads _ locals :=
      VerificationType.hasForm_read.counted.reads ⟨hvalid.1, fun _ _ => trivial⟩
    have hstack : (counted VerificationType.read).Reads _ stack :=
      VerificationType.hasForm_read.counted.reads ⟨hvalid.2, fun _ _ => trivial⟩
    have hback : (readLong 255 distance).Reads _ (distance, full locals stack) :=
      hlocals.bind (hstack.bind (reads_pure.mpr ⟨rfl, rfl⟩))
    have hreads := reads_of_long (by decide) hdistance hback
    simpa [longForm, toBytes, typeBytes] using hreads

/-- The tag of a short form. -/
theorem toNat_ofNat {n : Nat} (h : n ≤ 127) :
  (UInt8.ofNat n).toNat = n
  := by
  rw [UInt8.toNat_ofNat']
  omega

/-- The form that is written is read. -/
theorem reads_toBytes {distance : Nat} {shape : FrameShape} (hvalid : shape.Valid)
    (hdistance : distance ≤ 65535) :
  read.Reads (shape.toBytes distance) (distance, shape)
  := by
  have hlong := reads_longForm hvalid hdistance
  cases shape with
  | same =>
    rw [toBytes]
    split
    · rename_i hshort
      have htag : (UInt8.ofNat distance).toNat = distance := toNat_ofNat (by omega)
      refine reads_behind.mpr ⟨UInt8.ofNat distance, [], ?_, rfl⟩
      rw [readBehind, if_pos (by rw [UInt8.le_iff_toNat_le, htag]; exact hshort), htag]
      apply reads_pure.mpr ⟨rfl, rfl⟩
    · apply hlong
  | oneOperand type =>
    rw [toBytes]
    split
    · rename_i hshort
      have htag : (UInt8.ofNat (64 + distance)).toNat = 64 + distance := toNat_ofNat (by omega)
      refine reads_behind.mpr ⟨UInt8.ofNat (64 + distance), type.toBytes, ?_, rfl⟩
      have hgt : ¬ UInt8.ofNat (64 + distance) ≤ 63 := by
        rw [UInt8.le_iff_toNat_le, htag]
        change ¬ 64 + distance ≤ 63
        omega
      have hle : UInt8.ofNat (64 + distance) ≤ 127 := by
        rw [UInt8.le_iff_toNat_le, htag]
        change 64 + distance ≤ 127
        omega
      rw [readBehind, if_neg hgt, if_pos hle, htag, Nat.add_sub_cancel_left,
        ← List.append_nil type.toBytes]
      exact (VerificationType.hasForm_read.reads trivial).bind (reads_pure.mpr ⟨rfl, rfl⟩)
    · apply hlong
  | chop count => apply hlong
  | append locals => apply hlong
  | full locals stack => apply hlong

/-- Reading accepts exactly the forms. -/
theorem reads_read {taken : List UInt8} {frame : Nat × FrameShape} :
  read.Reads taken frame ↔ IsForm taken frame
  := by
  constructor
  · apply isForm_of_reads
  · rintro ⟨hvalid, hdistance, rfl | rfl⟩
    · apply reads_toBytes hvalid hdistance
    · apply reads_longForm hvalid hdistance

/-- The form that is written is the shortest. -/
theorem length_toBytes_le {taken : List UInt8} {frame : Nat × FrameShape}
    (h : IsForm taken frame) :
  (frame.2.toBytes frame.1).length ≤ taken.length
  := by
  obtain ⟨distance, shape⟩ := frame
  rcases h with ⟨-, -, rfl | rfl⟩
  · exact le_rfl
  · cases shape with
    | same =>
      rw [toBytes]
      split <;> simp [longForm]
    | oneOperand type =>
      rw [toBytes]
      split <;> simp [longForm]
    | _ => exact le_rfl

/-- Only at a distance of 64 and more a form is longer than another, and then by two bytes. -/
theorem mul_length_toBytes_le {distance distance' : Nat} (shape : FrameShape) :
  32 * (shape.toBytes distance).length ≤ 32 * (shape.toBytes distance').length + distance
  := by
  cases shape with
  | same =>
    simp only [toBytes]
    split <;> split <;> simp <;> omega
  | oneOperand type =>
    simp only [toBytes, List.length_append]
    split <;> split <;> simp <;> omega
  | _ => simp [toBytes]

/-- Whether a frame with the same locals at a distance up to 63 has a tag that holds the
distance. -/
def IsShort (taken : List UInt8) (frame : Nat × FrameShape) : Prop :=
  frame.2.keepsLocals → frame.1 ≤ 63 → ∃ tag ∈ taken.head?, tag ≤ 127

/-- A short form is the form that is written. -/
theorem eq_toBytes_of_isShort {taken : List UInt8} {frame : Nat × FrameShape}
    (h : IsForm taken frame) (hshort : IsShort taken frame) :
  taken = frame.2.toBytes frame.1
  := by
  obtain ⟨distance, shape⟩ := frame
  rcases h with ⟨-, -, rfl | rfl⟩
  · rfl
  · cases shape with
    | same =>
      rw [toBytes]
      split
      · rename_i hdistance
        obtain ⟨tag, htag, hle⟩ := hshort rfl hdistance
        cases htag
        exact absurd hle (by decide)
      · rfl
    | oneOperand type =>
      rw [toBytes]
      split
      · rename_i hdistance
        obtain ⟨tag, htag, hle⟩ := hshort rfl hdistance
        cases htag
        exact absurd hle (by decide)
      · rfl
    | _ => rfl

/-- A frame is written when it is short. -/
theorem normalizes_read :
  read.Normalizes (fun frame => frame.1 ≤ 65535 ∧ frame.2.Valid)
    (fun frame => frame.2.toBytes frame.1) (withBytes read) (fun entry => IsShort entry.1 entry.2)
  where
    reads_form frame hframe := reads_toBytes hframe.2 hframe.1
    valid_of_reads taken frame hreads := by
      obtain ⟨hvalid, hdistance, -⟩ := isForm_of_reads hreads
      exact ⟨hdistance, hvalid⟩
    length_le taken frame hreads := length_toBytes_le (isForm_of_reads hreads)
    eq_form taken frame hreads :=
      ⟨(taken, frame), reads_withBytes.mpr ⟨hreads, rfl⟩,
        eq_toBytes_of_isShort (isForm_of_reads hreads)⟩

end FrameShape

/-! ## Distances -/

namespace Frame

/-- The frames at absolute offsets for frames that hold distances, behind the frame at
`previous`. -/
def placeAfter (previous : Option Nat) : List (Nat × FrameShape) → List Frame
  | [] => []
  | (distance, shape) :: rest =>
    ⟨offsetAfter previous distance, shape⟩
      :: placeAfter (some (offsetAfter previous distance)) rest

/-- The distance from the frame at `previous` to a frame at `offset` behind it. -/
def gap (previous : Option Nat) (offset : Nat) : Nat :=
  match previous with
  | none => offset
  | some before => offset - before - 1

/-- The frames with their distances, behind the frame at `previous`. -/
def gaps (previous : Option Nat) : List Frame → List (Nat × FrameShape)
  | [] => []
  | ⟨offset, shape⟩ :: rest => (gap previous offset, shape) :: gaps (some offset) rest

theorem foldl_placeNext (placed : List Frame) (frames : List (Nat × FrameShape)) :
  (frames.foldl placeNext placed).reverse
    = placed.reverse ++ placeAfter (placed.head?.map Frame.offset) frames
  := by
  induction frames generalizing placed with
  | nil => simp [placeAfter]
  | cons frame frames ih => simp [ih, placeNext, placeAfter]

theorem place_eq (frames : List (Nat × FrameShape)) :
  place frames = placeAfter none frames
  := by
  simp [place, foldl_placeNext]

/-- A placed frame is at the distance it was placed at. -/
theorem gap_offsetAfter (previous : Option Nat) (distance : Nat) :
  gap previous (offsetAfter previous distance) = distance
  := by
  cases previous with
  | none => rfl
  | some before =>
    rw [offsetAfter, gap]
    omega

/-- Placed frames are at the distances they were placed at. -/
theorem gaps_placeAfter (previous : Option Nat) (frames : List (Nat × FrameShape)) :
  gaps previous (placeAfter previous frames) = frames
  := by
  induction frames generalizing previous with
  | nil => rfl
  | cons frame frames ih =>
    rw [placeAfter, gaps, gap_offsetAfter, ih]

theorem length_gaps (previous : Option Nat) (frames : List Frame) :
  (gaps previous frames).length = frames.length
  := by
  induction frames generalizing previous with
  | nil => rfl
  | cons frame frames ih => rw [gaps, List.length_cons, List.length_cons, ih]

/-- Whether the frames stand in order, all behind the frame at `previous`. -/
def Ordered : (previous : Option Nat) → List Frame → Prop
  | _, [] => True
  | previous, frame :: rest => (∀ before ∈ previous, before < frame.offset)
      ∧ Ordered (some frame.offset) rest

theorem lt_offsetAfter {previous : Option Nat} {distance before : Nat}
    (h : before ∈ previous) :
  before < offsetAfter previous distance
  := by
  cases h
  rw [offsetAfter]
  omega

/-- Placed frames stand in order. -/
theorem ordered_placeAfter (previous : Option Nat) (frames : List (Nat × FrameShape)) :
  Ordered previous (placeAfter previous frames)
  := by
  induction frames generalizing previous with
  | nil => trivial
  | cons frame frames ih => exact ⟨fun before => lt_offsetAfter, ih _⟩

theorem offsetAfter_gap {previous : Option Nat} {offset : Nat}
    (h : ∀ before ∈ previous, before < offset) :
  offsetAfter previous (gap previous offset) = offset
  := by
  cases previous with
  | none => rfl
  | some before =>
    have hlt := h before rfl
    rw [gap, offsetAfter]
    omega

/-- Frames in order are where their distances place them. -/
theorem placeAfter_gaps {previous : Option Nat} {frames : List Frame}
    (h : Ordered previous frames) :
  placeAfter previous (gaps previous frames) = frames
  := by
  induction frames generalizing previous with
  | nil => rfl
  | cons frame frames ih =>
    obtain ⟨hbefore, hframes⟩ := h
    rw [gaps, placeAfter, offsetAfter_gap hbefore, ih hframes]

theorem distance_eq {previous : Option Nat} {offset : Nat}
    (h : ∀ before ∈ previous, before < offset) :
  distance previous offset = .ok (gap previous offset)
  := by
  cases previous with
  | none => rfl
  | some before => apply if_pos (h before rfl)

/-! ## Tables -/

/-- Whether the frames can stand in a table. -/
structure WellFormed (frames : List Frame) : Prop where
  ordered : Ordered none frames
  length_le : frames.length ≤ 65535
  gaps_valid : ∀ frame ∈ gaps none frames, frame.1 ≤ 65535 ∧ frame.2.Valid

/-- The bytes of frames with their distances. -/
def gapsForm (frames : List (Nat × FrameShape)) : List UInt8 :=
  frames.flatMap fun frame => frame.2.toBytes frame.1

/-- The table that is written. -/
def tableForm (frames : List Frame) : List UInt8 :=
  Bytes.count16 frames.length ++ gapsForm (gaps none frames)

/-- Whether every frame of a table with the same locals at a distance up to 63 has a tag that
holds the distance. -/
def IsShortTable (payload : List UInt8) : Prop :=
  ∀ entries, runAll (counted (withBytes FrameShape.read)) payload = .ok entries →
    ∀ entry ∈ entries, FrameShape.IsShort entry.1 entry.2

theorem foldlM_writeNext {previous : Option Nat} {frames : List Frame}
    (hordered : Ordered previous frames)
    (hgaps : ∀ frame ∈ gaps previous frames, frame.1 ≤ 65535 ∧ frame.2.Valid)
    (written : Array UInt8) :
  ∃ last, frames.foldlM writeNext (previous, written)
    = .ok (last, written ++ gapsForm (gaps previous frames))
  := by
  induction frames generalizing previous written with
  | nil => exact ⟨previous, by simp [gaps, gapsForm, pure, Except.pure]⟩
  | cons frame frames ih =>
    obtain ⟨hbefore, hordered⟩ := hordered
    obtain ⟨⟨hgap, -⟩, hgaps⟩ := List.forall_mem_cons.mp hgaps
    have hwrite : writeNext (previous, written) frame
        = .ok (some frame.offset, written ++ frame.shape.toBytes (gap previous frame.offset)) := by
      simp only [writeNext, distance_eq hbefore, throw_bind, bind_eq_ok, ite_throw_eq_ok]
      exact ⟨_, rfl, Nat.not_lt.mpr hgap, rfl⟩
    obtain ⟨last, hlast⟩ := ih hordered hgaps
      (written ++ frame.shape.toBytes (gap previous frame.offset))
    use last
    rw [List.foldlM_cons, hwrite]
    apply hlast.trans
    congr 2
    apply Array.ext'
    simp [gaps, gapsForm]

/-- A well-formed table is written. -/
theorem writeTable_eq {frames : List Frame} (h : WellFormed frames) :
  writeTable frames = .ok (tableForm frames)
  := by
  obtain ⟨last, hlast⟩ := foldlM_writeNext h.ordered h.gaps_valid #[]
  rw [writeTable, hlast]
  simp [bind, Except.bind, pure, Except.pure, tableForm]

theorem readTable_eq_ok {payload : List UInt8} {frames : List Frame} :
  readTable payload = .ok frames
    ↔ ∃ placed, (counted FrameShape.read).Reads payload placed ∧ frames = placeAfter none placed
  := by
  simp only [readTable, ← runAll_eq_ok]
  cases runAll (counted FrameShape.read) payload with
  | error e => simp [Except.map]
  | ok placed => simp [Except.map, place_eq, eq_comm]

/-- A well-formed table is read back. -/
theorem readTable_tableForm {frames : List Frame} (h : WellFormed frames) :
  readTable (tableForm frames) = .ok frames
  := by
  refine readTable_eq_ok.mpr ⟨gaps none frames, ?_, (placeAfter_gaps h.ordered).symm⟩
  have hreads := FrameShape.normalizes_read.counted.reads_form (gaps none frames)
    ⟨(length_gaps none frames).le.trans h.length_le, h.gaps_valid⟩
  rw [length_gaps] at hreads
  apply hreads

/-- A table that was read is well formed, the one that is written for it is not longer, and it is
the same when every frame is short. -/
theorem of_readTable {payload : List UInt8} {frames : List Frame}
    (h : readTable payload = .ok frames) :
  WellFormed frames ∧ (tableForm frames).length ≤ payload.length
    ∧ (IsShortTable payload → payload = tableForm frames)
  := by
  obtain ⟨placed, hreads, rfl⟩ := readTable_eq_ok.mp h
  have hnormalizes := FrameShape.normalizes_read.counted
  obtain ⟨hlength, hvalid⟩ := hnormalizes.valid_of_reads _ _ hreads
  have hgaps := gaps_placeAfter none placed
  have hcount : (placeAfter none placed).length = placed.length := by
    rw [← length_gaps none, hgaps]
  rw [tableForm, hcount, hgaps]
  refine ⟨⟨ordered_placeAfter none placed, ?_, ?_⟩, hnormalizes.length_le _ _ hreads, ?_⟩
  · rw [hcount]
    apply hlength
  · rw [hgaps]
    apply hvalid
  · intro hshort
    obtain ⟨entries, hentries, heq⟩ := hnormalizes.eq_form _ _ hreads
    apply heq (hshort entries (runAll_eq_ok.mpr hentries))

end Frame

end JvmCoverage
