import JvmCoverage.Proofs.Probed
import Mathlib.Logic.Relator

/-!
# Tables keep what they say

Line entries, handlers, local variables and frames say something about offsets of the code.  With
probes in the code they say the same about the places of the instructions, an instruction's place
being its probe and itself (`Layout.InPlace`).  Only an object without its constructor run is known
by the instruction alone.  `Layout.KeepsTables` is what holds of each table, and
`ClassPlan.keepsTables_of_apply` says that it holds of every planned method.
-/

namespace JvmCoverage

open Relator
open scoped Relator

/-! ## Reading tables -/

namespace LocalVariable

/-- Whether the variable has a value at `offset`. -/
def covers (v : LocalVariable) (offset : Nat) : Bool :=
  v.start ≤ offset && offset < v.start + v.length

end LocalVariable

/-- The local variables of the attribute. -/
def CodeAttribute.variableEntries : CodeAttribute → List LocalVariable
  | localVariables _ _ entries => entries
  | _ => []

namespace Code

/-- The instruction at `offset`. -/
def instructionAt? (code : Code) (offset : Nat) : Option Instruction :=
  (code.indexOf? offset).bind fun i => code.instructions[i]?

theorem instructionAt?_eq_some {code : Code} {limit : Nat}
    (htiles : CodeArray.Tiles 0 code.instructions limit) {offset : Nat} {insn : Instruction} :
  code.instructionAt? offset = some insn ↔ insn ∈ code.instructions ∧ insn.offset = offset
  := by
  have hascending : Search.Ascending Instruction.offset code.instructions.toArray := by
    apply htiles.pairwise.imp
    exact fun hle => (CodeArray.offset_lt_limit _).trans_le hle
  simp only [instructionAt?, indexOf?, Option.bind_eq_some_iff, Search.find?_eq_some hascending,
    List.getElem?_toArray, List.mem_iff_getElem?]
  constructor
  · rintro ⟨i, ⟨insn', hinsn', hoffset⟩, hinsn⟩
    obtain rfl := Option.some.inj (hinsn.symm.trans hinsn')
    exact ⟨⟨i, hinsn⟩, hoffset⟩
  · rintro ⟨⟨i, hinsn⟩, hoffset⟩
    exact ⟨i, ⟨insn, hinsn, hoffset⟩, hinsn⟩

end Code

/-! ## Frames with related types -/

namespace FrameShape

/-- Whether two frames differ in their types only, and these are related. -/
inductive Rel (R : VerificationType → VerificationType → Prop) : FrameShape → FrameShape → Prop
  | same : Rel R .same .same
  | oneOperand {type type' : VerificationType} (h : R type type') :
      Rel R (.oneOperand type) (.oneOperand type')
  | chop (count : UInt8) : Rel R (.chop count) (.chop count)
  | append {locals locals' : List VerificationType} (h : List.Forall₂ R locals locals') :
      Rel R (.append locals) (.append locals')
  | full {locals locals' stack stack' : List VerificationType}
      (hlocals : List.Forall₂ R locals locals') (hstack : List.Forall₂ R stack stack') :
      Rel R (.full locals stack) (.full locals' stack')

variable {R S : VerificationType → VerificationType → Prop}

theorem Rel.imp (h : ∀ type type', R type type' → S type type') {shape shape' : FrameShape}
    (hshape : Rel R shape shape') :
  Rel S shape shape'
  := by
  cases hshape with
  | same => exact .same
  | oneOperand htype => exact .oneOperand (h _ _ htype)
  | chop count => exact .chop count
  | append hlocals => exact .append (hlocals.imp h)
  | full hlocals hstack => exact .full (hlocals.imp h) (hstack.imp h)

theorem biUnique_rel (h : BiUnique R) :
  BiUnique (Rel R)
  := by
  obtain ⟨hleft, hright⟩ := h.forall₂
  constructor
  · intro shape₁ shape₂ shape' h₁ h₂
    cases h₁ with
    | same => cases h₂; rfl
    | oneOperand h₁ => cases h₂ with | oneOperand h₂ => rw [h.left h₁ h₂]
    | chop count => cases h₂; rfl
    | append h₁ => cases h₂ with | append h₂ => rw [hleft h₁ h₂]
    | full hlocals₁ hstack₁ =>
      cases h₂ with
      | full hlocals₂ hstack₂ => rw [hleft hlocals₁ hlocals₂, hleft hstack₁ hstack₂]
  · intro shape shape₁ shape₂ h₁ h₂
    cases h₁ with
    | same => cases h₂; rfl
    | oneOperand h₁ => cases h₂ with | oneOperand h₂ => rw [h.right h₁ h₂]
    | chop count => cases h₂; rfl
    | append h₁ => cases h₂ with | append h₂ => rw [hright h₁ h₂]
    | full hlocals₁ hstack₁ =>
      cases h₂ with
      | full hlocals₂ hstack₂ => rw [hright hlocals₁ hlocals₂, hright hstack₁ hstack₂]

/-- A frame is worked through by working through its types. -/
theorem rel_of_mapTypes {ε : Type} {f : VerificationType → Except ε VerificationType}
    {shape shape' : FrameShape} (h : shape.mapTypes f = .ok shape') :
  Rel (fun type type' => f type = .ok type') shape shape'
  := by
  cases shape with
  | same =>
    cases h
    exact .same
  | oneOperand type =>
    obtain ⟨type', htype, rfl⟩ := map_eq_ok.mp h
    exact .oneOperand htype
  | chop count =>
    cases h
    exact .chop count
  | append locals =>
    obtain ⟨locals', hlocals, rfl⟩ := map_eq_ok.mp h
    exact .append (mapM_eq_ok.mp hlocals)
  | full locals stack =>
    obtain ⟨_, ⟨locals', hlocals, rfl⟩, stack', hstack, rfl⟩ := by
      simpa only [mapTypes, seq_eq_bind_map, bind_eq_ok, map_eq_ok] using h
    exact .full (mapM_eq_ok.mp hlocals) (mapM_eq_ok.mp hstack)

end FrameShape

/-! ## What is kept -/

namespace Layout

/-- Whether `offset` is that of the instruction that was at `old`, or lies in the probe in front of
it. -/
def InPlace (layout : Layout) (old offset : Nat) : Prop :=
  ∃ label position, layout.label? old = some label ∧ layout.position? old = some position
    ∧ label ≤ offset ∧ offset ≤ position

/-- Whether `op'` is the operation with every target replaced by its label.  A `goto` or `jsr` may
have taken the form with a four-byte distance. -/
def MovesOperation (layout : Layout) (op op' : Operation) : Prop :=
  ∃ label : Nat → Nat, (∀ target ∈ op.targets, layout.label? target = some (label target))
    ∧ (op' = op.mapTargets label
      ∨ ∃ target, op = .branch Opcode.goto target ∧ op' = .branch Opcode.gotoWide (label target)
        ∨ op = .branch Opcode.jsr target ∧ op' = .branch Opcode.jsrWide (label target))

/-- Whether the types are the same.  An object without its constructor run is known by the new
offset of the instruction that makes it. -/
def MovesType (layout : Layout) (type type' : VerificationType) : Prop :=
  match type with
  | .uninitialized old =>
    ∃ new : UInt16, type' = .uninitialized new ∧ layout.position? old.toNat = some new.toNat
  | type => type' = type

/-- Whether the frame stands at the label of the offset where the other stood, and has the same
shape. -/
def MovesFrame (layout : Layout) (frame frame' : Frame) : Prop :=
  layout.label? frame.offset = some frame'.offset ∧ frame.shape.Rel layout.MovesType frame'.shape

/-- Whether the handler covers the places of the instructions that the other covered, and handles
the same exceptions at the label of the entry. -/
structure KeepsHandler (layout : Layout) (h h' : ExceptionHandler) : Prop where
  covers : ∀ old offset, layout.InPlace old offset → h'.covers offset = h.covers old
  entry : layout.label? h.handler = some h'.handler
  catchType : h'.catchType = h.catchType

/-- Whether the variable is the other, with a value at the places of the instructions where it had
one. -/
structure KeepsVariable (layout : Layout) (v v' : LocalVariable) : Prop where
  covers : ∀ old offset, layout.InPlace old offset → v'.covers offset = v.covers old
  name : v'.nameIndex = v.nameIndex
  descriptor : v'.descriptorIndex = v.descriptorIndex
  slot : v'.slot = v.slot

/-- Whether the attribute has the entries of the other. -/
structure KeepsAttribute (layout : Layout) (attr attr' : CodeAttribute) : Prop where
  name : attr'.nameIndex = attr.nameIndex
  variableEntries : List.Forall₂ layout.KeepsVariable attr.variableEntries attr'.variableEntries
  frames : List.Forall₂ layout.MovesFrame attr.frames attr'.frames
  frame_iff : ∀ frame frame', layout.MovesFrame frame frame' →
    (frame ∈ attr.frames ↔ frame' ∈ attr'.frames)

/-- Whether the tables of `moved` say about the places of the instructions what those of `code`
said about the instructions. -/
structure KeepsTables (layout : Layout) (code moved : Code) : Prop where
  instructions : ∀ insn ∈ code.instructions, ∃ position op,
    layout.position? insn.offset = some position
      ∧ moved.instructionAt? position = some ⟨position, op⟩ ∧ layout.MovesOperation insn.op op
  lines : ∀ old offset, layout.InPlace old offset → moved.lineAt? offset = code.lineAt? old
  handlers : List.Forall₂ layout.KeepsHandler code.handlers moved.handlers
  attributes : List.Forall₂ layout.KeepsAttribute code.attributes moved.attributes

/-! ## Offsets in places -/

variable {layout : Layout} {code moved : Code} {probeAt : Nat → Option Nat}
  (hlayout : layout.IsFor code probeAt)
  (htiles : CodeArray.Tiles 0 code.instructions code.length)

include hlayout htiles

/-- A place is that of a site. -/
theorem InPlace.exists_place {old offset : Nat} (h : layout.InPlace old offset) :
  ∃ site label, (site, label) ∈ layout.places ∧ site.old = old ∧ label ≤ offset
    ∧ offset < site.limit label
  := by
  obtain ⟨label, position, hlabel, hposition, hle, hlt⟩ := h
  obtain ⟨site, hplace, rfl⟩ := (label?_eq_some (hlayout.ascending htiles)).mp hlabel
  obtain ⟨site', label', hplace', hold, rfl⟩ :=
    (position?_eq_some (hlayout.ascending htiles)).mp hposition
  obtain ⟨rfl, rfl⟩ := hlayout.place_unique htiles hplace' hplace hold
  exact ⟨site', label', hplace, rfl, hle, hlt.trans_lt (site'.position_lt_limit label')⟩

/-- A place lies behind the ends of the ranges that the instruction lay behind. -/
theorem InPlace.limit?_le_iff {old offset : Nat} (h : layout.InPlace old offset)
    {limit limit' : Nat} (hlimit : layout.limit? limit = some limit') :
  limit' ≤ offset ↔ limit ≤ old
  := by
  obtain ⟨site, label, hplace, rfl, hle, hlt⟩ := h.exists_place hlayout htiles
  apply hlayout.limit?_le_iff htiles hplace hlimit hle hlt

/-- A place lies in the ranges that the instruction lay in. -/
theorem InPlace.range_iff {old offset : Nat} (h : layout.InPlace old offset)
    {start start' limit limit' : Nat} (hstart : layout.label? start = some start')
    (hlimit : layout.limit? limit = some limit') :
  start' ≤ offset ∧ offset < limit' ↔ start ≤ old ∧ old < limit
  := by
  rw [h.limit?_le_iff hlayout htiles (hlayout.limit?_of_label? htiles hstart), ← Nat.not_le,
    h.limit?_le_iff hlayout htiles hlimit, Nat.not_le]

/-- Labels are in the order of the offsets. -/
theorem label?_le_iff {old old' label label' : Nat} (h : layout.label? old = some label)
    (h' : layout.label? old' = some label') :
  label ≤ label' ↔ old ≤ old'
  := by
  obtain ⟨site, hplace, rfl⟩ := (label?_eq_some (hlayout.ascending htiles)).mp h'
  apply hlayout.limit?_le_iff htiles hplace (hlayout.limit?_of_label? htiles h) le_rfl
    (site.label_lt_limit label')

/-- Positions tell instructions apart. -/
theorem position?_inj {old old' position : Nat} (h : layout.position? old = some position)
    (h' : layout.position? old' = some position) :
  old = old'
  := by
  obtain ⟨site, label, hplace, rfl, rfl⟩ :=
    (position?_eq_some (hlayout.ascending htiles)).mp h
  obtain ⟨site', label', hplace', rfl, hposition⟩ :=
    (position?_eq_some (hlayout.ascending htiles)).mp h'
  have hlabel := site.label_le_position label
  have hlabel' := site'.label_le_position label'
  have hlimit := site.position_lt_limit label
  have hlimit' := site'.position_lt_limit label'
  obtain ⟨rfl, -⟩ := hlayout.place_unique_of_lt htiles hplace hplace' (by omega) (by omega)
  rfl

/-! ## Handlers, variables and lines -/

theorem keepsHandler {h h' : ExceptionHandler} (hmove : layout.moveHandler h = .ok h') :
  layout.KeepsHandler h h'
  := by
  obtain ⟨hstart, hlimit, hentry, htype⟩ := moveHandler_eq_ok.mp hmove
  refine ⟨?_, hentry, htype⟩
  intro old offset hplace
  rw [Bool.eq_iff_iff, ExceptionHandler.covers, ExceptionHandler.covers]
  simp only [Bool.and_eq_true, decide_eq_true_eq]
  apply hplace.range_iff hlayout htiles hstart hlimit

theorem keepsVariable {v v' : LocalVariable} (hmove : layout.moveVariable v = .ok v') :
  layout.KeepsVariable v v'
  := by
  simp only [moveVariable, bind_eq_ok, moved_eq_ok, pure_eq_ok] at hmove
  obtain ⟨start, hstart, limit, hlimit, rfl⟩ := hmove
  refine ⟨?_, rfl, rfl, rfl⟩
  intro old offset hplace
  have hrange := hplace.range_iff hlayout htiles hstart hlimit
  rw [Bool.eq_iff_iff, LocalVariable.covers, LocalVariable.covers]
  simp only [Bool.and_eq_true, decide_eq_true_eq, ← hrange]
  omega

/-- Whether the line entry stands at the label of the offset where the other stood. -/
def MovesLine (layout : Layout) (entry entry' : LineEntry) : Prop :=
  layout.label? entry.start = some entry'.start ∧ entry'.line = entry.line

/-- Of two moved entries the later one is that of the two. -/
theorem rel_laterLine {best best' : Option LineEntry} {next next' : LineEntry}
    (hbest : Option.Rel layout.MovesLine best best') (hnext : layout.MovesLine next next') :
  Option.Rel layout.MovesLine (Code.laterLine best next) (Code.laterLine best' next')
  := by
  cases hbest with
  | none => exact .some hnext
  | @some entry entry' hentry =>
    have hle := label?_le_iff hlayout htiles hentry.1 hnext.1
    rw [Code.laterLine, Code.laterLine]
    simp only [hle]
    split
    · exact .some hnext
    · exact .some hentry

/-- The moved entries give the places of an instruction the line of the instruction. -/
theorem lineAt?_eq (hlines : List.Forall₂ layout.MovesLine code.lineEntries moved.lineEntries)
    {old offset : Nat} (hplace : layout.InPlace old offset) :
  moved.lineAt? offset = code.lineAt? old
  := by
  -- the entries that start before the place are the moved ones that started before the instruction
  have hfilter : List.Forall₂ layout.MovesLine (code.lineEntries.filter (·.start ≤ old))
      (moved.lineEntries.filter (·.start ≤ offset)) := by
    apply List.rel_filter _ hlines
    rintro entry entry' ⟨hstart, -⟩
    simp only [decide_eq_true_eq]
    apply (hplace.limit?_le_iff hlayout htiles (hlayout.limit?_of_label? htiles hstart)).symm
  have hlater : (Option.Rel layout.MovesLine ⇒ layout.MovesLine ⇒ Option.Rel layout.MovesLine)
      Code.laterLine Code.laterLine := fun _ _ hbest _ _ hnext =>
    rel_laterLine hlayout htiles hbest hnext
  have hline : ∀ {found found' : Option LineEntry}, Option.Rel layout.MovesLine found found' →
      found'.map LineEntry.line = found.map LineEntry.line := by
    intro found found' hfound
    cases hfound with
    | none => rfl
    | some hentry => rw [Option.map_some, Option.map_some, hentry.2]
  apply hline (List.rel_foldl hlater .none hfilter)

/-! ## Frames -/

omit hlayout htiles in
theorem movesType_of_moveType {type type' : VerificationType}
    (hmove : layout.moveType type = .ok type') :
  layout.MovesType type type'
  := by
  cases type with
  | uninitialized old =>
    simp only [moveType, throw_bind, bind_eq_ok, moved_eq_ok, ite_throw_eq_ok, pure_eq_ok] at hmove
    obtain ⟨position, hposition, hle, rfl⟩ := hmove
    refine ⟨_, rfl, ?_⟩
    have hlt : position < 2 ^ 16 := by omega
    rw [hposition, UInt16.toNat_ofNat_of_lt' hlt]
  | _ =>
    cases hmove
    rfl

theorem biUnique_movesType :
  BiUnique layout.MovesType
  := by
  constructor
  · intro type₁ type₂ type' h₁ h₂
    cases type₁ with
    | uninitialized old₁ =>
      obtain ⟨new₁, rfl, hnew₁⟩ := h₁
      cases type₂ with
      | uninitialized old₂ =>
        obtain ⟨new₂, heq, hnew₂⟩ := h₂
        obtain rfl := VerificationType.uninitialized.inj heq
        rw [UInt16.toNat_inj.mp (position?_inj hlayout htiles hnew₁ hnew₂)]
      | _ => cases h₂
    | _ =>
      cases h₁
      cases type₂ with
      | uninitialized old₂ =>
        obtain ⟨new₂, heq, -⟩ := h₂
        cases heq
      | _ => apply h₂
  · intro type type₁ type₂ h₁ h₂
    cases type with
    | uninitialized old =>
      obtain ⟨new₁, rfl, hnew₁⟩ := h₁
      obtain ⟨new₂, rfl, hnew₂⟩ := h₂
      rw [UInt16.toNat_inj.mp (Option.some.inj (hnew₁.symm.trans hnew₂))]
    | _ => apply h₁.trans h₂.symm

theorem biUnique_movesFrame :
  BiUnique layout.MovesFrame
  := by
  obtain ⟨hleft, hright⟩ := FrameShape.biUnique_rel (biUnique_movesType hlayout htiles)
  constructor
  · rintro ⟨offset₁, shape₁⟩ ⟨offset₂, shape₂⟩ frame' ⟨hoffset₁, hshape₁⟩ ⟨hoffset₂, hshape₂⟩
    obtain rfl : shape₁ = shape₂ := hleft hshape₁ hshape₂
    obtain rfl : offset₁ = offset₂ := by
      apply Nat.le_antisymm
      · apply (label?_le_iff hlayout htiles hoffset₁ hoffset₂).mp le_rfl
      · apply (label?_le_iff hlayout htiles hoffset₂ hoffset₁).mp le_rfl
    rfl
  · rintro frame ⟨offset₁, shape₁⟩ ⟨offset₂, shape₂⟩ ⟨hoffset₁, hshape₁⟩ ⟨hoffset₂, hshape₂⟩
    obtain rfl : shape₁ = shape₂ := hright hshape₁ hshape₂
    obtain rfl : offset₁ = offset₂ := Option.some.inj (hoffset₁.symm.trans hoffset₂)
    rfl

omit hlayout htiles in
theorem movesFrame_of_moveFrame {frame frame' : Frame}
    (hmove : layout.moveFrame frame = .ok frame') :
  layout.MovesFrame frame frame'
  := by
  obtain ⟨hoffset, hshape⟩ := moveFrame_eq_ok.mp hmove
  use hoffset
  apply (FrameShape.rel_of_mapTypes hshape).imp
  exact fun _ _ htype => movesType_of_moveType htype

/-! ## Attributes -/

theorem keepsAttribute {attr attr' : CodeAttribute}
    (hmove : layout.moveAttribute attr = .ok attr') :
  layout.KeepsAttribute attr attr'
    ∧ List.Forall₂ layout.MovesLine attr.lineEntries attr'.lineEntries
  := by
  have hframes := List.rel_mem (biUnique_movesFrame hlayout htiles)
  cases attr with
  | lineNumbers nameIndex entries =>
    obtain ⟨entries', hentries, rfl⟩ := map_eq_ok.mp hmove
    refine ⟨⟨rfl, .nil, .nil, fun _ _ h => hframes h .nil⟩, ?_⟩
    apply (mapM_eq_ok.mp hentries).imp
    exact fun _ _ hentry => moveLine_eq_ok.mp hentry
  | localVariables nameIndex types entries =>
    obtain ⟨entries', hentries, rfl⟩ := map_eq_ok.mp hmove
    refine ⟨⟨rfl, ?_, .nil, fun _ _ h => hframes h .nil⟩, .nil⟩
    apply (mapM_eq_ok.mp hentries).imp
    exact fun _ _ hentry => keepsVariable hlayout htiles hentry
  | stackMap nameIndex frames =>
    obtain ⟨frames', hmoved, rfl⟩ := map_eq_ok.mp hmove
    have hforall : List.Forall₂ layout.MovesFrame frames frames' := by
      apply (mapM_eq_ok.mp hmoved).imp
      exact fun _ _ hframe => movesFrame_of_moveFrame hframe
    exact ⟨⟨rfl, .nil, hforall, fun _ _ h => hframes h hforall⟩, .nil⟩
  | other raw => cases hmove

/-! ## Instructions -/

/-- A moved operation goes to the labels of the targets. -/
theorem movesOperation_movedOperation {site : Site} {label : Nat}
    (hlands : CodeArray.Lands code.instructions) (hplace : (site, label) ∈ layout.places) :
  layout.MovesOperation site.insn.op (layout.movedOperation site)
  := by
  use layout.moveTarget
  constructor
  · intro target htarget
    obtain ⟨new, hnew⟩ := (hlayout.exists_label htiles).mpr
      (hlands site.insn (hlayout.insn_mem hplace) target htarget)
    rw [moveTarget, hnew]
    rfl
  · rw [movedOperation]
    split
    · rename_i hwidened
      obtain ⟨opcode, target, hop, hjump, hnarrow⟩ :=
        hlayout.widenable site (hlayout.site_mem hplace) hwidened
      right
      use target
      rw [hop, Operation.mapTargets, Operation.widen]
      simp only [Opcode.isGoto, Opcode.isJsr, Opcode.isWideBranch, Bool.or_eq_true,
        Bool.or_eq_false_iff, beq_iff_eq, beq_eq_false_iff_ne] at hjump hnarrow
      rcases hjump with (rfl | hwide) | (rfl | hwide)
      · exact .inl ⟨rfl, rfl⟩
      · exact absurd hwide hnarrow.1
      · exact .inr ⟨rfl, rfl⟩
      · exact absurd hwide hnarrow.2
    · exact .inl rfl

end Layout

namespace Layout

variable {layout : Layout} {code moved : Code} {probeAt : Nat → Option Nat}
  {base pool : ConstantPool} {bridge : Bridge} {segment : UInt32}

/-- Code with probes keeps its tables. -/
theorem IsMoved.keepsTables (h : layout.IsMoved pool bridge segment code moved)
    (hlayout : layout.IsFor code probeAt) (hcode : code.WellFormed base) :
  layout.KeepsTables code moved
  := by
  have htiles := hcode.instructions.tiles
  obtain ⟨hhandlers, hattributes⟩ := moveTables_eq_ok.mp h.tables
  have hkept := hattributes.imp fun _ _ hattr => keepsAttribute hlayout htiles hattr
  have hlines : List.Forall₂ layout.MovesLine code.lineEntries moved.lineEntries := by
    apply List.rel_flatMap hkept
    exact fun _ _ hattr => hattr.2
  refine ⟨?_, ?_, ?_, ?_⟩
  · intro insn hinsn
    obtain ⟨site, label, hplace, rfl⟩ := hlayout.exists_place hinsn
    refine ⟨site.position label, layout.movedOperation site, ?_, ?_, ?_⟩
    · apply (position?_eq_some (hlayout.ascending htiles)).mpr ⟨site, label, hplace, rfl, rfl⟩
    · apply (Code.instructionAt?_eq_some (tiles_pieces h.pieces hlayout)).mpr
        ⟨(h.pieces.exists_piece hplace).1, rfl⟩
    · apply movesOperation_movedOperation hlayout htiles hcode.instructions.lands hplace
  · intro old offset hplace
    apply lineAt?_eq hlayout htiles hlines hplace
  · exact hhandlers.imp fun _ _ hmove => keepsHandler hlayout htiles hmove
  · exact hkept.imp fun _ _ hattr => hattr.1

end Layout

/-! ## Classes -/

namespace ClassPlan

/-- In a class with probes every planned method keeps its tables. -/
theorem keepsTables_of_apply {bytes : List UInt8} {policy : Policy} {c c' : ClassFile}
    {classPlan : ClassPlan} {segment : UInt32} (hread : ClassFile.read bytes = .ok c)
    (hplan : ofClass policy c = .ok classPlan) (happly : classPlan.apply segment c = .ok c')
    {methodPlan : MethodPlan} (hmem : methodPlan ∈ classPlan.planned) :
  ∃ m m' code moved, c.methods[methodPlan.method]? = some m ∧ m.code? = some code
    ∧ c'.methods[methodPlan.method]? = some m' ∧ m'.code? = some moved
    ∧ methodPlan.layout.KeepsTables code moved
  := by
  obtain ⟨hc, hof⟩ := isOf_of_read hread hplan
  obtain ⟨m, code, moved, first, hm, hcode, hm', hcode', hmethod, hwf, hmoved⟩ :=
    ((apply_spec hof hc).1 c' happly).exists_moved hof hc hmem
  exact ⟨m, _, code, moved, hm, hcode, hm', hcode', hmoved.keepsTables hmethod.layout hwf⟩

end ClassPlan

/-! ## A class with tables -/

namespace ClassFile

/-- A body with a line, a variable, and a frame that knows an object by the first instruction. -/
def tableBody : Code where
  maxStack := 1
  maxLocals := 1
  instructions := [⟨0, .plain 0xbb [0, 2]⟩, ⟨3, .plain 0x57 []⟩, ⟨4, .methodReturn 0xb1⟩]
  handlers := []
  attributes := [.lineNumbers 7 [⟨0, 7⟩], .localVariables 8 false [⟨0, 4, 3, 4, 0⟩],
    .stackMap 6 [⟨3, .full [] [.uninitialized 0]⟩]]

/-- A method with the body `tableBody`. -/
def tableMethod : Method := ⟨9, 3, 4, "f", "()V", [.code 5 tableBody]⟩

/-- A class with the method `tableMethod`. -/
def tableClass : ClassFile :=
  { jumpClass with
    pool := ⟨jumpClass.pool.entries
      ++ #[.utf8 Code.lineNumberTable, .utf8 Code.localVariableTable]⟩
    methods := [tableMethod] }

theorem wellFormed_tableBody :
  tableBody.WellFormed tableClass.pool
  where
    instructions := by decide +kernel
    handlers_le := by decide
    handlers := by simp [tableBody]
    attributes_le := by decide
    attributes := by
      simp only [tableBody, List.forall_mem_cons, List.not_mem_nil, false_implies, implies_true,
        and_true]
      refine ⟨⟨Code.lineNumberTable, rfl, rfl, by decide, ?_⟩,
        ⟨Code.localVariableTable, rfl, rfl, by decide, ?_⟩,
        ⟨Code.stackMapTable, rfl, rfl, ⟨by simp [Frame.Ordered], by decide, ?_⟩, ?_⟩⟩
      · simp only [Code.lineFits_boundaries]
        decide
      · simp only [Code.variableFits_boundaries]
        decide
      · simp [Frame.gaps, Frame.gap, FrameShape.Valid]
      · simp [Code.isStart_boundaries]

theorem wellFormed_tableClass :
  tableClass.WellFormed
  := {
    wellFormed_jumpClass with
    pool := ⟨⟨tableClass.pool.entries.toList.tail, by decide, by decide +kernel⟩, by decide,
      by decide +kernel⟩
    name := by decide +kernel
    fields := by simp [tableClass, jumpClass]
    methods_le := by decide
    methods := by
      intro m hm
      obtain rfl := List.mem_singleton.mp hm
      exact Method.wellFormed_of_body (by decide +kernel) (by decide +kernel) rfl rfl
        wellFormed_tableBody
    attributes := by simp [tableClass, jumpClass] }

theorem read_form_tableClass :
  read tableClass.form = .ok tableClass
  := (read_form_iff wellFormed_tableClass).mpr (lengthsFit_of_forms (by decide +kernel))

/-- The only block of `tableBody`, with the given lines. -/
def tableBlocks (lines : List UInt16) : Array BasicBlock :=
  #[{ id := 0, start := 0, first := 0, count := 3, last := ⟨4, .methodReturn 0xb1⟩, lines,
      successors := [] }]

theorem ofCode_tableBody :
  FlowGraph.ofCode tableBody = ⟨tableBlocks [7]⟩
  := by
  have hindex : LineIndex.ofCode tableBody = ⟨#[⟨0, 7⟩]⟩ := by
    simp [LineIndex.ofCode, Code.lineEntries, CodeAttribute.lineEntries, tableBody]
  have hline : ∀ offset, LineIndex.lineAt? ⟨#[⟨0, 7⟩]⟩ offset = some 7 := by
    simp [LineIndex.lineAt?, Search.lastUpTo?, Search.narrow, Search.isUpTo]
  have hlines : LineIndex.linesOf ⟨#[⟨0, 7⟩]⟩ tableBody.instructions = [7] := by
    simp only [LineIndex.linesOf, tableBody, hline]
    rw [List.mergeSort_of_pairwise (by decide)]
    rfl
  have hruns : FlowGraph.runs (.ofList (FlowGraph.leaders tableBody)) tableBody.instructions
      = [tableBody.instructions] := by
    rw [FlowGraph.runs_ofList]
    decide +kernel
  have houtline : FlowGraph.outline tableBody = tableBlocks [7] := by
    rw [FlowGraph.outline, hruns, hindex, ← hlines]
    rfl
  rw [FlowGraph.ofCode, houtline]
  decide +kernel

/-- The class with tables has a plan with probes. -/
theorem exists_plan_tableClass :
  ∃ plan, ClassPlan.ofClass {} tableClass = .ok plan ∧ plan.planned ≠ []
  := by
  have hmethods : tableClass.methods = [tableMethod] := rfl
  have hcode : MethodOutcome.eligible {} tableClass.pool tableMethod = .ok tableBody := by
    decide +kernel
  have hplanned : (ClassPlan.ofClass {} tableClass).toOption.any fun plan =>
      !plan.planned.isEmpty := by
    rw [ClassPlan.ofClass, MethodOutcome.ofClass_eq, hmethods]
    simp only [MethodOutcome.outcomesFrom, MethodOutcome.ofMethod, hcode, bind, Except.bind,
      PlannedMethod.ofCode, ofCode_tableBody]
    decide +kernel
  obtain ⟨plan, hplan, hne⟩ := exists_ok_of_any hplanned
  exact ⟨plan, hplan, by simpa using hne⟩

end ClassFile

namespace ClassPlan

open ClassFile

/-- The class with tables keeps them. -/
theorem keepsTables_of_apply_tableClass :
  ∃ plan c' methodPlan m' moved, ofClass {} tableClass = .ok plan
    ∧ plan.apply 0 tableClass = .ok c' ∧ methodPlan ∈ plan.planned
    ∧ c'.methods[methodPlan.method]? = some m' ∧ m'.code? = some moved
    ∧ methodPlan.layout.KeepsTables tableBody moved
  := by
  obtain ⟨plan, hplan, hne⟩ := exists_plan_tableClass
  obtain ⟨methodPlan, hmem⟩ := List.exists_mem_of_ne_nil _ hne
  have happly : ∃ c', plan.apply 0 tableClass = .ok c' := by
    apply ((isOf_of_ofClass hplan wellFormed_tableClass).exists_apply_iff_newOffsets
      wellFormed_tableClass 0).mpr
    intro methodPlan _ m code hm hcode
    obtain rfl := List.mem_singleton.mp (List.mem_of_getElem? hm)
    obtain rfl : tableBody = code := Option.some.inj hcode
    decide
  obtain ⟨c', happly⟩ := happly
  obtain ⟨m, m', code, moved, hm, hcode, hm', hcode', hkeeps⟩ :=
    keepsTables_of_apply read_form_tableClass hplan happly hmem
  obtain rfl := List.mem_singleton.mp (List.mem_of_getElem? hm)
  obtain rfl : tableBody = code := Option.some.inj hcode
  exact ⟨plan, c', methodPlan, m', moved, hplan, happly, hmem, hm', hcode', hkeeps⟩

end ClassPlan

end JvmCoverage
