import JvmCoverage.Probe.Insertion
import JvmCoverage.Proofs.Body
import JvmCoverage.Proofs.Layout

/-!
# Moved tables

Every offset in the tables of a body moves with the instruction it belongs to, and a table that
fits the body fits the moved code (`Layout.moveTables_fits`).  Only an object without its
constructor run may be known by an offset that is no instruction; the tables are moved exactly
when there is none (`Layout.exists_moveTables_iff`).
-/

namespace JvmCoverage

/-! ## Types in frames -/

/-- The offset that stands for an object without its constructor run. -/
def VerificationType.newOffset? : VerificationType → Option Nat
  | uninitialized offset => some offset.toNat
  | _ => none

namespace FrameShape

/-- The types that a frame states. -/
def types : FrameShape → List VerificationType
  | same | chop _ => []
  | oneOperand type => [type]
  | append locals => locals
  | full locals stack => locals ++ stack

variable {ε : Type} {f : VerificationType → Except ε VerificationType} {shape shape' : FrameShape}

/-- The types of a frame are worked through when each of them is. -/
theorem exists_mapTypes_iff :
  (∃ shape', shape.mapTypes f = .ok shape') ↔ ∀ type ∈ shape.types, ∃ type', f type = .ok type'
  := by
  cases shape with
  | same => simp [mapTypes, types]
  | chop count => simp [mapTypes, types]
  | oneOperand type => simp [mapTypes, types, map_eq_ok]
  | append locals => simp [mapTypes, types, map_eq_ok, exists_mapM_iff]
  | full locals stack =>
    simp only [mapTypes, types, List.forall_mem_append, ← exists_mapM_iff, seq_eq_bind_map,
      bind_eq_ok, map_eq_ok]
    constructor
    · rintro ⟨shape', _, ⟨locals', hlocals, rfl⟩, stack', hstack, rfl⟩
      exact ⟨⟨locals', hlocals⟩, stack', hstack⟩
    · rintro ⟨⟨locals', hlocals⟩, stack', hstack⟩
      exact ⟨_, _, ⟨locals', hlocals, rfl⟩, stack', hstack, rfl⟩

/-- A frame whose types keep their length is as valid and as long as before. -/
theorem mapTypes_spec (h : shape.mapTypes f = .ok shape')
    (hlength : ∀ type type', f type = .ok type' → type'.toBytes.length = type.toBytes.length) :
  (shape.Valid → shape'.Valid)
    ∧ ∀ distance, (shape'.toBytes distance).length = (shape.toBytes distance).length
  := by
  have hmapM : ∀ {types types' : List VerificationType}, types.mapM f = .ok types' →
      types'.length = types.length ∧ (typeBytes types').length = (typeBytes types).length := by
    intro types types' htypes
    have hforall := mapM_eq_ok.mp htypes
    clear htypes
    induction hforall with
    | nil => exact ⟨rfl, rfl⟩
    | cons hhead _ ih =>
      obtain ⟨hcount, hbytes⟩ := ih
      simp only [typeBytes, List.flatMap_cons, List.length_append, List.length_cons] at hbytes ⊢
      rw [hcount, hbytes, hlength _ _ hhead]
      exact ⟨rfl, rfl⟩
  cases shape with
  | same =>
    cases h
    exact ⟨id, fun _ => rfl⟩
  | chop count =>
    cases h
    exact ⟨id, fun _ => rfl⟩
  | oneOperand type =>
    obtain ⟨type', htype, rfl⟩ := map_eq_ok.mp h
    refine ⟨id, fun distance => ?_⟩
    simp only [toBytes, List.length_append, hlength _ _ htype]
  | append locals =>
    obtain ⟨locals', hlocals, rfl⟩ := map_eq_ok.mp h
    obtain ⟨hcount, hbytes⟩ := hmapM hlocals
    simp only [Valid, toBytes, hcount, List.length_cons, List.length_append, hbytes]
    exact ⟨id, fun _ => trivial⟩
  | full locals stack =>
    obtain ⟨_, hfull, stack', hstack, rfl⟩ := by
      simpa only [mapTypes, seq_eq_bind_map, bind_eq_ok, map_eq_ok] using h
    obtain ⟨locals', hlocals, rfl⟩ := hfull
    obtain ⟨hlocalsCount, hlocalsBytes⟩ := hmapM hlocals
    obtain ⟨hstackCount, hstackBytes⟩ := hmapM hstack
    simp only [Valid, toBytes, hlocalsCount, hstackCount, List.length_cons, List.length_append,
      hlocalsBytes, hstackBytes, Bytes.length_count16]
    exact ⟨id, fun _ => trivial⟩

end FrameShape

namespace Layout

open Code

/-! ## What is moved -/

theorem moved_eq_ok {role : OffsetRole} {old offset : Nat} {new : Option Nat} :
  moved role old new = .ok offset ↔ new = some offset
  := by
  cases new <;> simp [moved]

variable {layout : Layout}

theorem moveHandler_eq_ok {h h' : ExceptionHandler} :
  layout.moveHandler h = .ok h' ↔ layout.label? h.start = some h'.start
    ∧ layout.limit? h.limit = some h'.limit ∧ layout.label? h.handler = some h'.handler
    ∧ h'.catchType = h.catchType
  := by
  simp only [moveHandler, bind_eq_ok, moved_eq_ok, pure_eq_ok]
  constructor
  · rintro ⟨start, hstart, limit, hlimit, handler, hhandler, rfl⟩
    exact ⟨hstart, hlimit, hhandler, rfl⟩
  · rintro ⟨hstart, hlimit, hhandler, htype⟩
    refine ⟨_, hstart, _, hlimit, _, hhandler, ?_⟩
    rw [← htype]

theorem moveLine_eq_ok {entry entry' : LineEntry} :
  layout.moveLine entry = .ok entry'
    ↔ layout.label? entry.start = some entry'.start ∧ entry'.line = entry.line
  := by
  simp only [moveLine, bind_eq_ok, moved_eq_ok, pure_eq_ok]
  constructor
  · rintro ⟨start, hstart, rfl⟩
    exact ⟨hstart, rfl⟩
  · rintro ⟨hstart, hline⟩
    refine ⟨_, hstart, ?_⟩
    rw [← hline]

theorem moveFrame_eq_ok {frame frame' : Frame} :
  layout.moveFrame frame = .ok frame' ↔ layout.label? frame.offset = some frame'.offset
    ∧ frame.shape.mapTypes layout.moveType = .ok frame'.shape
  := by
  simp only [moveFrame, bind_eq_ok, moved_eq_ok, pure_eq_ok]
  constructor
  · rintro ⟨offset, hoffset, shape, hshape, rfl⟩
    exact ⟨hoffset, hshape⟩
  · rintro ⟨hoffset, hshape⟩
    exact ⟨_, hoffset, _, hshape, rfl⟩

/-! ## Moved offsets -/

/-- Whether the instructions fill the layout and one of them stands at every label. -/
structure Holds (layout : Layout) (insns : List Instruction) : Prop where
  tiles : CodeArray.Tiles 0 insns layout.length
  starts : ∀ site label, (site, label) ∈ layout.places → label ∈ insns.map Instruction.offset

variable {code : Code} {probeAt : Nat → Option Nat} {insns : List Instruction}
  (hlayout : layout.IsFor code probeAt)
  (htiles : CodeArray.Tiles 0 code.instructions code.length)

include hlayout htiles

/-- A moved offset is that of an instruction. -/
theorem Holds.start (h : layout.Holds insns) {old new : Nat}
    (hnew : layout.label? old = some new) :
  new ≤ 65535 ∧ new ∈ insns.map Instruction.offset
  := by
  obtain ⟨site, hplace, -⟩ := (label?_eq_some (hlayout.ascending htiles)).mp hnew
  have hlt := (site.label_lt_limit new).trans_le (hlayout.limit_le hplace)
  exact ⟨hlt.le.trans hlayout.length_le, h.starts site new hplace⟩

/-- A moved end of a range is one. -/
theorem Holds.limit (h : layout.Holds insns) {old new : Nat}
    (hnew : layout.limit? old = some new) :
  new ≤ 65535 ∧ (new = layout.length ∨ new ∈ insns.map Instruction.offset)
  := by
  rcases (hlayout.limit?_eq_some htiles).mp hnew with ⟨-, rfl⟩ | ⟨site, hplace, -⟩
  · exact ⟨hlayout.length_le, .inl rfl⟩
  · have hlt := (site.label_lt_limit new).trans_le (hlayout.limit_le hplace)
    exact ⟨hlt.le.trans hlayout.length_le, .inr (h.starts site new hplace)⟩

/-- The end of a range of code is moved. -/
theorem exists_limit {old : Nat}
    (h : old = code.length ∨ old ∈ code.instructions.map Instruction.offset) :
  ∃ new, layout.limit? old = some new
  := by
  rcases h with rfl | hold
  · exact ⟨layout.length, (hlayout.limit?_eq_some htiles).mpr (.inl ⟨rfl, rfl⟩)⟩
  · obtain ⟨new, hnew⟩ := (hlayout.exists_label htiles).mpr hold
    exact ⟨new, hlayout.limit?_of_label? htiles hnew⟩

/-! ## Handlers, lines and variables -/

theorem exists_moveHandler {h : ExceptionHandler}
    (hfits : HandlerFits (boundaries code.instructions code.length) h) :
  ∃ h', layout.moveHandler h = .ok h'
  := by
  obtain ⟨-, -, hstart, hlimit, hhandler⟩ := handlerFits_boundaries.mp hfits
  obtain ⟨start, hstart⟩ := (hlayout.exists_label htiles).mpr hstart
  obtain ⟨limit, hlimit⟩ := exists_limit hlayout htiles hlimit
  obtain ⟨handler, hhandler⟩ := (hlayout.exists_label htiles).mpr hhandler
  use ⟨start, limit, handler, h.catchType⟩
  exact moveHandler_eq_ok.mpr ⟨hstart, hlimit, hhandler, rfl⟩

/-- A moved handler fits moved code. -/
theorem moveHandler_fits (hholds : layout.Holds insns) {h h' : ExceptionHandler}
    (hfits : HandlerFits (boundaries code.instructions code.length) h)
    (hmove : layout.moveHandler h = .ok h') :
  HandlerFits (boundaries insns layout.length) h'
  := by
  obtain ⟨-, hlt, -⟩ := handlerFits_boundaries.mp hfits
  obtain ⟨hstart, hlimit, hhandler, -⟩ := moveHandler_eq_ok.mp hmove
  obtain ⟨hstartLe, hstartMem⟩ := hholds.start hlayout htiles hstart
  obtain ⟨hlimitLe, hlimitMem⟩ := hholds.limit hlayout htiles hlimit
  obtain ⟨hhandlerLe, hhandlerMem⟩ := hholds.start hlayout htiles hhandler
  have hlt' := hlayout.limit?_lt htiles (hlayout.limit?_of_label? htiles hstart) hlimit hlt
  apply handlerFits_boundaries.mpr
    ⟨⟨hstartLe, hlimitLe, hhandlerLe⟩, hlt', hstartMem, hlimitMem, hhandlerMem⟩

theorem exists_moveLine {entry : LineEntry}
    (hfits : LineFits (boundaries code.instructions code.length) entry) :
  ∃ entry', layout.moveLine entry = .ok entry'
  := by
  obtain ⟨-, hstart⟩ := lineFits_boundaries.mp hfits
  obtain ⟨start, hstart⟩ := (hlayout.exists_label htiles).mpr hstart
  exact ⟨⟨start, entry.line⟩, moveLine_eq_ok.mpr ⟨hstart, rfl⟩⟩

/-- A moved line entry fits moved code. -/
theorem moveLine_fits (hholds : layout.Holds insns) {entry entry' : LineEntry}
    (hmove : layout.moveLine entry = .ok entry') :
  LineFits (boundaries insns layout.length) entry'
  := by
  obtain ⟨hstart, -⟩ := moveLine_eq_ok.mp hmove
  apply lineFits_boundaries.mpr (hholds.start hlayout htiles hstart)

theorem exists_moveVariable {v : LocalVariable}
    (hfits : VariableFits (boundaries code.instructions code.length) v) :
  ∃ v', layout.moveVariable v = .ok v'
  := by
  obtain ⟨-, hstart, hlimit⟩ := variableFits_boundaries.mp hfits
  obtain ⟨start, hstart⟩ := (hlayout.exists_label htiles).mpr hstart
  obtain ⟨limit, hlimit⟩ := exists_limit hlayout htiles hlimit
  simp only [moveVariable, bind_eq_ok, moved_eq_ok, pure_eq_ok]
  exact ⟨_, start, hstart, limit, hlimit, rfl⟩

/-- A moved local variable fits moved code. -/
theorem moveVariable_fits (hholds : layout.Holds insns) {v v' : LocalVariable}
    (hmove : layout.moveVariable v = .ok v') :
  VariableFits (boundaries insns layout.length) v'
  := by
  simp only [moveVariable, bind_eq_ok, moved_eq_ok, pure_eq_ok] at hmove
  obtain ⟨start, hstart, limit, hlimit, rfl⟩ := hmove
  obtain ⟨hstartLe, hstartMem⟩ := hholds.start hlayout htiles hstart
  obtain ⟨hlimitLe, hlimitMem⟩ := hholds.limit hlayout htiles hlimit
  have hle : start ≤ limit := by
    have hstart' := hlayout.limit?_of_label? htiles hstart
    rcases Nat.eq_zero_or_pos v.length with hzero | hpos
    · rw [hzero, Nat.add_zero, hstart'] at hlimit
      apply (Option.some.inj hlimit).le
    · apply (hlayout.limit?_lt htiles hstart' hlimit (Nat.lt_add_of_pos_right hpos)).le
  refine variableFits_boundaries.mpr ⟨⟨hstartLe, ?_⟩, hstartMem, ?_⟩
  · apply (Nat.sub_le _ _).trans hlimitLe
  · simpa only [Nat.add_sub_cancel' hle] using hlimitMem

/-! ## Frames -/

/-- A type is moved unless it stands for an object that no instruction makes. -/
theorem exists_moveType_iff {type : VerificationType} :
  (∃ type', layout.moveType type = .ok type')
    ↔ ∀ offset ∈ type.newOffset?, offset ∈ code.instructions.map Instruction.offset
  := by
  cases type with
  | uninitialized offset =>
    simp only [moveType, throw_bind, bind_eq_ok, moved_eq_ok, ite_throw_eq_ok, pure_eq_ok,
      VerificationType.newOffset?, Option.mem_some_iff, forall_eq',
      ← hlayout.exists_position htiles]
    constructor
    · rintro ⟨_, position, hposition, -⟩
      exact ⟨position, hposition⟩
    · rintro ⟨position, hposition⟩
      obtain ⟨site, label, hplace, -, rfl⟩ :=
        (position?_eq_some (hlayout.ascending htiles)).mp hposition
      have hlt := (site.position_lt_limit label).trans_le (hlayout.limit_le hplace)
      exact ⟨_, _, hposition, (hlt.le.trans hlayout.length_le).not_gt, rfl⟩
  | _ => simp [moveType, VerificationType.newOffset?]

omit hlayout htiles in
theorem length_moveType {type type' : VerificationType} (h : layout.moveType type = .ok type') :
  type'.toBytes.length = type.toBytes.length
  := by
  cases type with
  | uninitialized offset =>
    simp only [moveType, throw_bind, bind_eq_ok, ite_throw_eq_ok, pure_eq_ok] at h
    obtain ⟨position, -, -, rfl⟩ := h
    simp [VerificationType.toBytes]
  | _ =>
    cases h
    rfl

/-- A frame is moved unless it mentions an object that no instruction makes. -/
theorem exists_moveFrame_iff {frame : Frame}
    (hstart : frame.offset ∈ code.instructions.map Instruction.offset) :
  (∃ frame', layout.moveFrame frame = .ok frame')
    ↔ ∀ type ∈ frame.shape.types, ∀ offset ∈ type.newOffset?,
      offset ∈ code.instructions.map Instruction.offset
  := by
  simp only [moveFrame_eq_ok, ← exists_moveType_iff hlayout htiles,
    ← FrameShape.exists_mapTypes_iff]
  obtain ⟨offset, hoffset⟩ := (hlayout.exists_label htiles).mpr hstart
  constructor
  · rintro ⟨frame', -, hshape⟩
    exact ⟨frame'.shape, hshape⟩
  · rintro ⟨shape, hshape⟩
    exact ⟨⟨offset, shape⟩, hoffset, hshape⟩

/-- Moved frames stand in order, and their forms are longer by two bytes for each of them that is
far behind the one before. -/
theorem moveFrames_spec {frames frames' : List Frame} {previous previous' : Option Nat}
    (hmove : List.Forall₂ (fun frame frame' => layout.moveFrame frame = .ok frame') frames frames')
    (hprevious : Option.Rel (fun old new => layout.label? old = some new) previous previous')
    (hordered : Frame.Ordered previous frames)
    (hgaps : ∀ frame ∈ Frame.gaps previous frames, frame.1 ≤ 65535 ∧ frame.2.Valid) :
  Frame.Ordered previous' frames'
    ∧ (∀ frame ∈ Frame.gaps previous' frames', frame.1 ≤ 65535 ∧ frame.2.Valid)
    ∧ 32 * (Frame.gapsForm (Frame.gaps previous' frames')).length
      ≤ 32 * (Frame.gapsForm (Frame.gaps previous frames)).length
        + (layout.length - previous'.elim 0 Nat.succ)
  := by
  induction hmove generalizing previous previous' with
  | nil => exact ⟨trivial, by simp [Frame.gaps], Nat.zero_le _⟩
  | @cons frame frame' frames frames' hframe _ ih =>
    obtain ⟨hbefore, hordered⟩ := hordered
    obtain ⟨⟨-, hvalid⟩, hgaps⟩ := List.forall_mem_cons.mp hgaps
    obtain ⟨hoffset, hshape⟩ := moveFrame_eq_ok.mp hframe
    obtain ⟨hvalid', hbytes⟩ := FrameShape.mapTypes_spec hshape fun _ _ => length_moveType
    obtain ⟨hordered', hgaps', hlength⟩ := ih (.some hoffset) hordered hgaps
    have hlt : ∀ before' ∈ previous', before' < frame'.offset := by
      intro before' hbefore'
      cases hprevious with
      | none => cases hbefore'
      | @some before _ hlabel =>
        obtain rfl := Option.some.inj hbefore'
        apply hlayout.limit?_lt htiles (hlayout.limit?_of_label? htiles hlabel)
          (hlayout.limit?_of_label? htiles hoffset) (hbefore before rfl)
    have hlimit : frame'.offset < layout.length := by
      obtain ⟨site, hplace, -⟩ := (label?_eq_some (hlayout.ascending htiles)).mp hoffset
      apply (site.label_lt_limit _).trans_le (hlayout.limit_le hplace)
    have hgap : Frame.gap previous' frame'.offset + previous'.elim 0 Nat.succ = frame'.offset := by
      cases previous' with
      | none => rfl
      | some before' =>
        have hlt := hlt before' rfl
        rw [Frame.gap, Option.elim_some]
        omega
    have hle : layout.length ≤ 65535 := hlayout.length_le
    have hgapLe : Frame.gap previous' frame'.offset ≤ 65535 := by omega
    refine ⟨⟨hlt, hordered'⟩, List.forall_mem_cons.mpr ⟨⟨hgapLe, hvalid' hvalid⟩, hgaps'⟩, ?_⟩
    have hadd : 32 * (frame.shape.toBytes (Frame.gap previous' frame'.offset)).length
        ≤ 32 * (frame.shape.toBytes (Frame.gap previous frame.offset)).length
          + Frame.gap previous' frame'.offset :=
      FrameShape.mul_length_toBytes_le frame.shape
    simp only [Frame.gaps, Frame.gapsForm, List.flatMap_cons, List.length_append, hbytes,
      Option.elim_some] at hlength ⊢
    omega

end Layout

/-! ## Attributes -/

/-- The frames of the attribute. -/
def CodeAttribute.frames : CodeAttribute → List Frame
  | stackMap _ frames => frames
  | _ => []

/-- The offsets that stand for objects without their constructor run. -/
def Code.newOffsets (code : Code) : List Nat :=
  (code.attributes.flatMap CodeAttribute.frames).flatMap fun frame =>
    frame.shape.types.filterMap VerificationType.newOffset?

namespace Layout

open Code

variable {layout : Layout} {code : Code} {probeAt : Nat → Option Nat} {insns : List Instruction}
  (hlayout : layout.IsFor code probeAt)
  (htiles : CodeArray.Tiles 0 code.instructions code.length)

include hlayout htiles

/-- An attribute with offsets is moved unless it mentions an object that no instruction makes. -/
theorem exists_moveAttribute_iff {attr : CodeAttribute} {name : List UInt8}
    (hfits : attr.Fits (boundaries code.instructions code.length) name)
    (hne : ∀ raw, attr ≠ .other raw) :
  (∃ attr', layout.moveAttribute attr = .ok attr')
    ↔ ∀ frame ∈ attr.frames, ∀ type ∈ frame.shape.types, ∀ offset ∈ type.newOffset?,
      offset ∈ code.instructions.map Instruction.offset
  := by
  cases attr with
  | lineNumbers nameIndex entries =>
    obtain ⟨entries', hentries⟩ := exists_mapM_iff.mpr fun entry hentry =>
      exists_moveLine hlayout htiles (hfits.2.2 entry hentry)
    simp [moveAttribute, CodeAttribute.frames, hentries]
  | localVariables nameIndex types entries =>
    obtain ⟨entries', hentries⟩ := exists_mapM_iff.mpr fun v hv =>
      exists_moveVariable hlayout htiles (hfits.2.2 v hv)
    simp [moveAttribute, CodeAttribute.frames, hentries]
  | stackMap nameIndex frames =>
    have hiff : (∃ frames', frames.mapM layout.moveFrame = .ok frames')
        ↔ ∀ frame ∈ frames, ∀ type ∈ frame.shape.types, ∀ offset ∈ type.newOffset?,
          offset ∈ code.instructions.map Instruction.offset := by
      rw [exists_mapM_iff]
      apply forall₂_congr
      intro frame hframe
      apply exists_moveFrame_iff hlayout htiles (isStart_boundaries.mp (hfits.2.2 frame hframe))
    rw [CodeAttribute.frames, ← hiff]
    simp only [moveAttribute, map_eq_ok]
    constructor
    · rintro ⟨attr', frames', hframes, -⟩
      exact ⟨frames', hframes⟩
    · rintro ⟨frames', hframes⟩
      exact ⟨_, frames', hframes, rfl⟩
  | other raw => exact absurd rfl (hne raw)

/-- A moved attribute fits moved code, and its content is at most 2047 bytes longer. -/
theorem moveAttribute_fits (hholds : layout.Holds insns) {attr attr' : CodeAttribute}
    {name : List UInt8} (hfits : attr.Fits (boundaries code.instructions code.length) name)
    (hmove : layout.moveAttribute attr = .ok attr') :
  attr'.nameIndex = attr.nameIndex ∧ attr'.Fits (boundaries insns layout.length) name
    ∧ attr'.content.length ≤ attr.content.length + 2047
  := by
  cases attr with
  | lineNumbers nameIndex entries =>
    obtain ⟨entries', hentries, rfl⟩ := map_eq_ok.mp hmove
    have hforall := mapM_eq_ok.mp hentries
    obtain ⟨hname, hlength, -⟩ := hfits
    have hcount := hforall.length_eq
    refine ⟨rfl, ⟨hname, hcount ▸ hlength, ?_⟩, ?_⟩
    · intro entry' hentry'
      obtain ⟨entry, -, hentry⟩ := exists_of_mem_right hforall hentry'
      apply moveLine_fits hlayout htiles hholds hentry
    · simp only [CodeAttribute.content, List.length_append, Bytes.length_count16,
        length_flatMap_lineForm, hcount]
      omega
  | localVariables nameIndex types entries =>
    obtain ⟨entries', hentries, rfl⟩ := map_eq_ok.mp hmove
    have hforall := mapM_eq_ok.mp hentries
    obtain ⟨hname, hlength, -⟩ := hfits
    have hcount := hforall.length_eq
    refine ⟨rfl, ⟨hname, hcount ▸ hlength, ?_⟩, ?_⟩
    · intro v' hv'
      obtain ⟨v, -, hv⟩ := exists_of_mem_right hforall hv'
      apply moveVariable_fits hlayout htiles hholds hv
    · simp only [CodeAttribute.content, List.length_append, Bytes.length_count16,
        length_flatMap_variableForm, hcount]
      omega
  | stackMap nameIndex frames =>
    obtain ⟨frames', hframes, rfl⟩ := map_eq_ok.mp hmove
    have hforall := mapM_eq_ok.mp hframes
    obtain ⟨hname, hwf, -⟩ := hfits
    have hcount := hforall.length_eq
    obtain ⟨hordered, hgaps, hlength⟩ :=
      moveFrames_spec hlayout htiles hforall .none hwf.ordered hwf.gaps_valid
    refine ⟨rfl, ⟨hname, ⟨hordered, hcount ▸ hwf.length_le, hgaps⟩, ?_⟩, ?_⟩
    · intro frame' hframe'
      obtain ⟨frame, -, hframe⟩ := exists_of_mem_right hforall hframe'
      apply isStart_boundaries.mpr
        (hholds.start hlayout htiles (moveFrame_eq_ok.mp hframe).1).2
    · have hle : layout.length ≤ 65535 := hlayout.length_le
      simp only [CodeAttribute.content, Frame.tableForm, List.length_append, Bytes.length_count16,
        Option.elim_none] at hlength ⊢
      omega
  | other raw => cases hmove

/-! ## Bodies -/

omit hlayout htiles in
theorem moveTables_eq_ok {handlers : List ExceptionHandler} {attributes : List CodeAttribute} :
  layout.moveTables code = .ok (handlers, attributes)
    ↔ List.Forall₂ (fun h h' => layout.moveHandler h = .ok h') code.handlers handlers
      ∧ List.Forall₂ (fun attr attr' => layout.moveAttribute attr = .ok attr')
        code.attributes attributes
  := by
  simp only [moveTables, bind_eq_ok, pure_eq_ok, Prod.mk.injEq, ← mapM_eq_ok]
  constructor
  · rintro ⟨_, hhandlers, _, hattributes, rfl, rfl⟩
    exact ⟨hhandlers, hattributes⟩
  · rintro ⟨hhandlers, hattributes⟩
    exact ⟨_, hhandlers, _, hattributes, rfl, rfl⟩

/-- Moved tables fit moved code, and every attribute is at most 2047 bytes longer. -/
theorem moveTables_fits {pool : ConstantPool} (hcode : code.WellFormed pool)
    (hholds : layout.Holds insns) {moved : Code}
    (hmove : layout.moveTables code = .ok (moved.handlers, moved.attributes)) :
  (moved.handlers.length ≤ 65535
      ∧ ∀ h ∈ moved.handlers, HandlerFits (boundaries insns layout.length) h)
    ∧ (moved.attributes.length ≤ 65535
      ∧ ∀ attr ∈ moved.attributes, attr.WellFormed pool (boundaries insns layout.length))
    ∧ moved.tablesForm.length ≤ code.tablesForm.length + 2047 * code.attributes.length
  := by
  obtain ⟨hhandlers, hattributes⟩ := moveTables_eq_ok.mp hmove
  have hhandlersCount := hhandlers.length_eq
  have hattributesCount := hattributes.length_eq
  have hmoved : ∀ attr' ∈ moved.attributes, ∃ attr ∈ code.attributes,
      layout.moveAttribute attr = .ok attr' := fun attr' hattr' =>
    exists_of_mem_right hattributes hattr'
  refine ⟨⟨hhandlersCount ▸ hcode.handlers_le, ?_⟩,
    ⟨hattributesCount ▸ hcode.attributes_le, ?_⟩, ?_⟩
  · intro h' hmem'
    obtain ⟨h, hmem, hmoveHandler⟩ := exists_of_mem_right hhandlers hmem'
    apply moveHandler_fits hlayout htiles hholds (hcode.handlers h hmem) hmoveHandler
  · intro attr' hattr'
    obtain ⟨attr, hattr, hmoveAttribute⟩ := hmoved attr' hattr'
    obtain ⟨name, hname, hfits⟩ := hcode.attributes attr hattr
    obtain ⟨hindex, hfits', -⟩ := moveAttribute_fits hlayout htiles hholds hfits hmoveAttribute
    exact ⟨name, hindex ▸ hname, hfits'⟩
  · have hforms : (moved.attributes.flatMap CodeAttribute.form).length
        ≤ (code.attributes.flatMap CodeAttribute.form).length + 2047 * code.attributes.length := by
      have hwf := hcode.attributes
      generalize code.attributes = attributes at hattributes hwf
      generalize moved.attributes = attributes' at hattributes
      clear hhandlers hmoved hattributesCount hhandlersCount hmove
      induction hattributes with
      | nil => apply Nat.zero_le _
      | cons hattribute _ ih =>
        obtain ⟨⟨name, -, hfits⟩, hwf⟩ := List.forall_mem_cons.mp hwf
        obtain ⟨-, -, hle⟩ := moveAttribute_fits hlayout htiles hholds hfits hattribute
        have hrest := ih hwf
        simp only [List.flatMap_cons, List.length_append, List.length_cons, CodeAttribute.form,
          attributeBytes, Bytes.length_field16, Bytes.length_count32] at hrest ⊢
        omega
    simp only [tablesForm, List.length_append, Bytes.length_count16, length_flatMap_handlerForm,
      ← hhandlersCount]
    omega

/-- The tables of a body are moved unless they mention an object that no instruction makes. -/
theorem exists_moveTables_iff {pool : ConstantPool} (hcode : code.WellFormed pool)
    (hmovable : ∀ raw, .other raw ∉ code.attributes) :
  (∃ tables, layout.moveTables code = .ok tables)
    ↔ ∀ offset ∈ code.newOffsets, offset ∈ code.instructions.map Instruction.offset
  := by
  obtain ⟨handlers, hhandlers⟩ := exists_mapM_iff.mpr fun h hmem =>
    exists_moveHandler hlayout htiles (hcode.handlers h hmem)
  have hattributes : (∃ attributes, code.attributes.mapM layout.moveAttribute = .ok attributes)
      ↔ ∀ offset ∈ code.newOffsets, offset ∈ code.instructions.map Instruction.offset := by
    have hiff : (∃ attributes, code.attributes.mapM layout.moveAttribute = .ok attributes)
        ↔ ∀ attr ∈ code.attributes, ∀ frame ∈ attr.frames, ∀ type ∈ frame.shape.types,
          ∀ offset ∈ type.newOffset?, offset ∈ code.instructions.map Instruction.offset := by
      rw [exists_mapM_iff]
      apply forall₂_congr
      intro attr hattr
      obtain ⟨name, -, hfits⟩ := hcode.attributes attr hattr
      apply exists_moveAttribute_iff hlayout htiles hfits
      rintro raw rfl
      apply hmovable raw hattr
    rw [hiff]
    simp only [newOffsets, List.mem_flatMap, List.mem_filterMap, Option.mem_def]
    constructor
    · rintro h offset ⟨frame, ⟨attr, hattr, hframe⟩, type, htype, hoffset⟩
      apply h attr hattr frame hframe type htype offset hoffset
    · intro h attr hattr frame hframe type htype offset hoffset
      apply h offset ⟨frame, ⟨attr, hattr, hframe⟩, type, htype, hoffset⟩
  rw [← hattributes]
  simp only [moveTables, hhandlers, bind_eq_ok, pure_eq_ok]
  constructor
  · rintro ⟨tables, _, -, attributes, hmove, -⟩
    exact ⟨attributes, hmove⟩
  · rintro ⟨attributes, hmove⟩
    exact ⟨_, handlers, rfl, attributes, hmove, rfl⟩

end Layout

end JvmCoverage
