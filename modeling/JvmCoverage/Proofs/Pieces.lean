import JvmCoverage.Probe.Insertion
import JvmCoverage.Proofs.Additions
import JvmCoverage.Proofs.Plan

/-!
# Moved code is made of pieces

A probe pushes the number of a segment and that of a counter and calls the bridge
(`Probe.IsProbe`).  Moved code has one piece for each instruction, the instruction at its new
position behind its probe (`Layout.IsPiece`), and the pieces fill the places of the layout
(`Layout.tiles_pieces`).
-/

namespace JvmCoverage

open Text.Utf8 (encode)

/-! ## Probes -/

namespace Probe

variable {pool later : ConstantPool} {room : Nat}

/-- Whether `op` pushes the integer `value`. -/
def Pushes (pool : ConstantPool) (value : Int32) (op : Operation) : Prop :=
  (∃ index, op = pushInteger index ∧ pool.get? index = some (.integer value))
    ∨ ∃ n < firstPooled, op = .plain Opcode.sipush (Bytes.count16 n) ∧ value = Int32.ofNat n

/-- Whether `op` calls the static method `bridge`. -/
def Calls (pool : ConstantPool) (bridge : Bridge) (op : Operation) : Prop :=
  ∃ index c, op = .invoke Opcode.invokestatic index 0 ∧ pool.get? index = some c
    ∧ pool.isMethodRef (encode bridge.owner) (encode bridge.name) (encode bridge.descriptor) c

/-- Whether `insns` are the instructions of a probe at `offset`, which pushes the number of a
segment and that of a counter and calls the bridge. -/
def IsProbe (pool : ConstantPool) (bridge : Bridge) (segment : UInt32) (number offset : Nat)
    (insns : List Instruction) : Prop :=
  ∃ first second third, insns = [⟨offset, first⟩, ⟨offset + 3, second⟩, ⟨offset + 6, third⟩]
    ∧ Pushes pool segment.toInt32 first ∧ Pushes pool (Int32.ofNat number) second
    ∧ Calls pool bridge third

/-- Whether `insns` are the instructions of a probe of which the first takes the number of the
segment from the pool. -/
def IsSequence (pool : ConstantPool) (bridge : Bridge) (segment : UInt32) (number offset : Nat)
    (insns : List Instruction) : Prop :=
  IsProbe pool bridge segment number offset insns
    ∧ ∃ index, insns.head? = some ⟨offset, pushInteger index⟩

theorem Pushes.mono {value : Int32} {op : Operation} (h : Pushes pool value op)
    (hextends : pool.Extends later room) :
  Pushes later value op
  := by
  rcases h with ⟨index, rfl, hget⟩ | hsmall
  · exact .inl ⟨index, rfl, hextends.get? hget⟩
  · exact .inr hsmall

theorem Calls.mono {bridge : Bridge} {op : Operation} (h : Calls pool bridge op)
    (hextends : pool.Extends later room) :
  Calls later bridge op
  := by
  obtain ⟨index, c, rfl, hget, hmethod⟩ := h
  exact ⟨index, c, rfl, hextends.get? hget, hextends.isMethodRef hmethod⟩

theorem IsProbe.mono {bridge : Bridge} {segment : UInt32} {number offset : Nat}
    {insns : List Instruction} (h : IsProbe pool bridge segment number offset insns)
    (hextends : pool.Extends later room) :
  IsProbe later bridge segment number offset insns
  := by
  obtain ⟨first, second, third, rfl, hfirst, hsecond, hthird⟩ := h
  exact ⟨first, second, third, rfl, hfirst.mono hextends, hsecond.mono hextends,
    hthird.mono hextends⟩

theorem IsSequence.mono {bridge : Bridge} {segment : UInt32} {number offset : Nat}
    {insns : List Instruction} (h : IsSequence pool bridge segment number offset insns)
    (hextends : pool.Extends later room) :
  IsSequence later bridge segment number offset insns
  := ⟨h.1.mono hextends, h.2⟩

/-- Pushing an integer takes three bytes and goes on to the next instruction. -/
theorem Pushes.spec {value : Int32} {op : Operation} (h : Pushes pool value op) :
  op.WellFormed ∧ op.targets = [] ∧ (∀ offset, op.size offset = 3) ∧ op.endsBlock = false
  := by
  rcases h with ⟨index, rfl, -⟩ | ⟨n, -, rfl, -⟩
  · refine ⟨.inl ⟨?_, by decide⟩, rfl, fun _ => rfl, rfl⟩
    rw [Bytes.length_field16]
    decide
  · refine ⟨.inl ⟨?_, by decide⟩, rfl, fun _ => rfl, rfl⟩
    rw [Bytes.length_count16]
    decide

/-- Calling the bridge takes three bytes and goes on to the next instruction. -/
theorem Calls.spec {bridge : Bridge} {op : Operation} (h : Calls pool bridge op) :
  op.WellFormed ∧ op.targets = [] ∧ (∀ offset, op.size offset = 3) ∧ op.endsBlock = false
  := by
  obtain ⟨index, c, rfl, -⟩ := h
  exact ⟨.inl ⟨by decide, rfl⟩, rfl, fun _ => rfl, rfl⟩

/-- A probe fills its place with straight code. -/
theorem IsProbe.spec {bridge : Bridge} {segment : UInt32} {number offset : Nat}
    {insns : List Instruction} (h : IsProbe pool bridge segment number offset insns) :
  CodeArray.Tiles offset insns (offset + length)
    ∧ ∀ insn ∈ insns, insn.op.WellFormed ∧ insn.op.targets = [] ∧ insn.op.endsBlock = false
  := by
  obtain ⟨first, second, third, rfl, hfirst, hsecond, hthird⟩ := h
  obtain ⟨hfirstWf, hfirstTargets, hfirstSize, hfirstEnds⟩ := hfirst.spec
  obtain ⟨hsecondWf, hsecondTargets, hsecondSize, hsecondEnds⟩ := hsecond.spec
  obtain ⟨hthirdWf, hthirdTargets, hthirdSize, hthirdEnds⟩ := hthird.spec
  constructor
  · simp [CodeArray.Tiles, Instruction.limit, hfirstSize, hsecondSize, hthirdSize, length]
  · simp only [List.forall_mem_cons, List.not_mem_nil, false_implies, implies_true, and_true]
    exact ⟨⟨hfirstWf, hfirstTargets, hfirstEnds⟩, ⟨hsecondWf, hsecondTargets, hsecondEnds⟩,
      hthirdWf, hthirdTargets, hthirdEnds⟩

/-- Whether the slots of `context` hold the number of the segment and the bridge. -/
def Context.IsFor (context : Context) (pool : ConstantPool) (bridge : Bridge) (segment : UInt32) :
    Prop :=
  Pushes pool segment.toInt32 (pushInteger context.segment)
    ∧ Calls pool bridge (.invoke Opcode.invokestatic context.bridge 0)

theorem Context.IsFor.mono {context : Context} {bridge : Bridge} {segment : UInt32}
    (h : context.IsFor pool bridge segment) (hextends : pool.Extends later room) :
  context.IsFor later bridge segment
  := ⟨h.1.mono hextends, h.2.mono hextends⟩

/-- The number of pool entries that probes with the given numbers may take. -/
def pooled (numbers : List Nat) : Nat :=
  numbers.countP fun n => decide (firstPooled ≤ n)

theorem pooled_append (numbers numbers' : List Nat) :
  pooled (numbers ++ numbers') = pooled numbers + pooled numbers'
  := List.countP_append

/-- Of the numbers from 0 on, those behind the operands of `sipush` take an entry. -/
theorem pooled_range (n : Nat) :
  pooled (List.range n) = n - firstPooled
  := by
  induction n with
  | zero => rfl
  | succ n ih =>
    rw [List.range_succ, pooled_append, ih, pooled]
    simp only [List.countP_singleton, decide_eq_true_eq]
    split <;> omega

theorem adds_pushCounter (number : Nat) :
  (pushCounter number).Adds pool (pooled [number]) fun op later =>
    Pushes later (Int32.ofNat number) op ∧ (pool.WellFormed → later.WellFormed)
  := by
  rw [pushCounter]
  split
  · rename_i hsmall
    have hroom : pooled [number] = 0 := by
      simp [pooled, Nat.not_le_of_lt hsmall]
    rw [hroom]
    exact .pure ⟨.inr ⟨number, hsmall, rfl, rfl⟩, id⟩
  · rename_i hlarge
    have hroom : pooled [number] = 1 := by
      simp [pooled, Nat.le_of_not_lt hlarge]
    rw [hroom, map_eq_pure_bind]
    apply (PoolBuilder.adds_integer (Int32.ofNat number)).bind
    rintro index middle - ⟨hget, hwf⟩
    exact .pure ⟨.inl ⟨index, rfl, hget⟩, hwf⟩

theorem adds_instructions {context : Context} {bridge : Bridge} {segment : UInt32}
    (hcontext : context.IsFor pool bridge segment) (offset number : Nat) :
  (instructions context offset number).Adds pool (pooled [number]) fun insns later =>
    IsSequence later bridge segment number offset insns ∧ (pool.WellFormed → later.WellFormed)
  := by
  rw [instructions]
  rw [← Nat.zero_add (pooled [number])]
  apply (adds_pushCounter number).bind
  rintro counter middle hextends ⟨hcounter, hwf⟩
  obtain ⟨hsegment, hbridge⟩ := hcontext.mono hextends
  obtain ⟨-, -, hsegmentSize, -⟩ := hsegment.spec
  obtain ⟨-, -, hcounterSize, -⟩ := hcounter.spec
  refine .pure ⟨⟨⟨_, counter, _, ?_, hsegment, hcounter, hbridge⟩, context.segment, rfl⟩, hwf⟩
  simp [runFrom, Instruction.limit, hsegmentSize, hcounterSize]

end Probe

/-! ## Moved operations -/

namespace Operation

theorem targets_mapTargets (f : Nat → Nat) (op : Operation) :
  (op.mapTargets f).targets = op.targets.map f
  := by
  cases op with
  | switch opcode default cases => cases cases <;> simp [mapTargets, targets,
      SwitchCases.mapTargets, SwitchCases.targets]
  | _ => rfl

theorem size_mapTargets (f : Nat → Nat) (op : Operation) (offset : Nat) :
  (op.mapTargets f).size offset = op.size offset
  := by
  cases op with
  | switch opcode default cases => cases cases <;> simp [mapTargets, size,
      SwitchCases.mapTargets, SwitchCases.size]
  | _ => rfl

theorem wellFormed_mapTargets {f : Nat → Nat} {op : Operation} (h : op.WellFormed) :
  (op.mapTargets f).WellFormed
  := by
  cases op with
  | switch opcode default cases =>
    cases cases with
    | table low targets => simpa [mapTargets, WellFormed, SwitchCases.mapTargets] using h
    | lookup pairs => simpa [mapTargets, WellFormed, SwitchCases.mapTargets] using h
  | _ => apply h

theorem fallsThrough_mapTargets (f : Nat → Nat) (op : Operation) :
  (op.mapTargets f).fallsThrough = op.fallsThrough
  := by
  cases op <;> rfl

theorem targets_widen (op : Operation) :
  op.widen.targets = op.targets
  := by
  cases op <;> rfl

/-- A jump in its wide form has an opcode of the wide form and of the same kind. -/
theorem widen_branch {opcode : Opcode} (target : Nat) (h : opcode.isGoto || opcode.isJsr)
    (hnarrow : opcode.isWideBranch = false) :
  ∃ wide : Opcode, (branch opcode target).widen = branch wide target
    ∧ wide.layout? = some .branch32 ∧ wide.isWideBranch ∧ wide.isGoto = opcode.isGoto
    ∧ wide.isJsr = opcode.isJsr
  := by
  refine ⟨_, rfl, ?_⟩
  revert opcode
  apply Bytes.forall_of_lt
  decide +kernel

end Operation

namespace Layout

/-- The offset that a jump to `old` leads to. -/
def moveTarget (layout : Layout) (old : Nat) : Nat := (layout.label? old).getD old

/-- The operation of an instruction in moved code. -/
def movedOperation (layout : Layout) (site : Site) : Operation :=
  let op := site.insn.op.mapTargets layout.moveTarget
  if site.widened then op.widen else op

/-- The instruction of a site in moved code. -/
def movedInstruction (layout : Layout) (site : Site) (label : Nat) : Instruction :=
  ⟨site.position label, layout.movedOperation site⟩

theorem targets_movedOperation (layout : Layout) (site : Site) :
  (layout.movedOperation site).targets = site.insn.op.targets.map layout.moveTarget
  := by
  rw [movedOperation]
  split
  · rw [Operation.targets_widen, Operation.targets_mapTargets]
  · rw [Operation.targets_mapTargets]

/-- Moving an operation changes neither its kind nor whether control goes on behind it. -/
theorem movedOperation_spec (layout : Layout) {site : Site}
    (hwidenable : site.widened → site.IsWidenable) :
  (site.insn.op.WellFormed → (layout.movedOperation site).WellFormed)
    ∧ (∀ position, (layout.movedOperation site).size position = site.size position)
    ∧ (layout.movedOperation site).fallsThrough = site.insn.op.fallsThrough
  := by
  unfold movedOperation Site.size
  split
  · rename_i hwidened
    obtain ⟨opcode, target, hop, hjump, hnarrow⟩ := hwidenable hwidened
    obtain ⟨wide, heq, hlayout, hwide, hgoto, -⟩ :=
      Operation.widen_branch (layout.moveTarget target) hjump hnarrow
    rw [hop, Operation.mapTargets, heq]
    use fun _ => .inr hlayout, fun _ => if_pos hwide
    rw [Operation.fallsThrough, Operation.fallsThrough, hgoto]
  · exact ⟨Operation.wellFormed_mapTargets, Operation.size_mapTargets _ _,
      Operation.fallsThrough_mapTargets _ _⟩

/-- Jumps to instructions are moved. -/
theorem moveOperation_eq {layout : Layout} {op : Operation}
    (h : ∀ target ∈ op.targets, ∃ label, layout.label? target = some label) :
  layout.moveOperation op = .ok (op.mapTargets layout.moveTarget)
  := by
  have hnone : op.targets.filter (fun target => (layout.label? target).isNone) = [] := by
    rw [List.filter_eq_nil_iff]
    intro target htarget
    obtain ⟨label, hlabel⟩ := h target htarget
    simp [hlabel]
  rw [moveOperation, hnone]
  rfl

/-! ## Pieces -/

/-- Whether the instructions are that of a site behind its probe, where control enters at
`label`. -/
def IsPiece (layout : Layout) (pool : ConstantPool) (bridge : Bridge) (segment : UInt32)
    (place : Site × Nat) (piece : List Instruction) : Prop :=
  ∃ front, piece = front ++ [layout.movedInstruction place.1 place.2]
    ∧ match place.1.probe with
      | some number => Probe.IsSequence pool bridge segment number place.2 front
      | none => front = []

variable {layout : Layout} {pool later : ConstantPool} {bridge : Bridge} {segment : UInt32}

theorem IsPiece.mono {room : Nat} {place : Site × Nat} {piece : List Instruction}
    (h : layout.IsPiece pool bridge segment place piece) (hextends : pool.Extends later room) :
  layout.IsPiece later bridge segment place piece
  := by
  obtain ⟨front, rfl, hfront⟩ := h
  use front, rfl
  split at hfront
  · apply hfront.mono hextends
  · apply hfront

/-- An instruction whose targets have places is moved behind its probe. -/
theorem adds_moveInstruction {context : Probe.Context}
    (hcontext : context.IsFor pool bridge segment) {site : Site} (label : Nat)
    (htargets : ∀ target ∈ site.insn.op.targets, ∃ label, layout.label? target = some label) :
  (layout.moveInstruction context site.insn.op site label).Adds pool
    (Probe.pooled site.probe.toList) fun piece later =>
      layout.IsPiece later bridge segment (site, label) piece
        ∧ (pool.WellFormed → later.WellFormed)
  := by
  rw [moveInstruction]
  rw [moveOperation_eq htargets, ← Nat.zero_add (Probe.pooled site.probe.toList)]
  cases hprobe : site.probe with
  | some number =>
    apply (Probe.adds_instructions hcontext label number).bind
    rintro front middle - ⟨hfront, hwf⟩
    refine .pure ⟨⟨front, rfl, ?_⟩, hwf⟩
    simpa only [hprobe] using hfront
  | none =>
    refine .pure ⟨⟨[], rfl, ?_⟩, id⟩
    simp only [hprobe]

/-- Whether the instructions are made of the pieces of all sites. -/
def ArePieces (layout : Layout) (pool : ConstantPool) (bridge : Bridge) (segment : UInt32)
    (insns : List Instruction) : Prop :=
  ∃ pieces, insns = pieces.flatten
    ∧ List.Forall₂ (layout.IsPiece pool bridge segment) layout.places pieces

theorem ArePieces.mono {room : Nat} {insns : List Instruction}
    (h : layout.ArePieces pool bridge segment insns) (hextends : pool.Extends later room) :
  layout.ArePieces later bridge segment insns
  := by
  obtain ⟨pieces, rfl, hpieces⟩ := h
  exact ⟨pieces, rfl, hpieces.imp fun _ _ hpiece => hpiece.mono hextends⟩

theorem sum_pooled (places : List (Site × Nat)) :
  (places.map fun place => Probe.pooled place.1.probe.toList).sum
    = Probe.pooled ((places.map Prod.fst).filterMap Site.probe)
  := by
  induction places with
  | nil => rfl
  | cons place places ih =>
    rw [List.map_cons, List.sum_cons, ih, List.map_cons, List.filterMap_cons]
    cases place.1.probe <;> simp [Probe.pooled, List.countP_cons, Nat.add_comm]

variable {code : Code} {probeAt : Nat → Option Nat}

/-- The instructions of code are moved in pieces. -/
theorem adds_moveInstructions {context : Probe.Context}
    (hcontext : context.IsFor pool bridge segment) (hlayout : layout.IsFor code probeAt)
    {limit : Nat} (htiles : CodeArray.Tiles 0 code.instructions limit)
    (hlands : CodeArray.Lands code.instructions) :
  (layout.moveInstructions context code.instructions).Adds pool
    (Probe.pooled (layout.sites.toList.filterMap Site.probe)) fun insns later =>
      layout.ArePieces later bridge segment insns ∧ (pool.WellFormed → later.WellFormed)
  := by
  have hzip : code.instructions.zip layout.places
      = layout.places.map fun place => (place.1.insn, place) := by
    rw [← hlayout.map_insn_places]
    simpa using
      List.zip_map' (f := fun place : Site × Nat => place.1.insn) (g := id) (l := layout.places)
  rw [places] at hzip
  have hpieces : (layout.places.mapM fun place : Site × Nat =>
      layout.moveInstruction context place.1.insn.op place.1 place.2).Adds pool
      (Probe.pooled (layout.sites.toList.filterMap Site.probe)) fun pieces later =>
        List.Forall₂ (layout.IsPiece later bridge segment) layout.places pieces
          ∧ (pool.WellFormed → later.WellFormed) := by
    rw [← hlayout.map_fst_places, ← sum_pooled]
    apply PoolBuilder.Adds.mapM
    · exact fun place piece middle later room hextends hpiece => hpiece.mono hextends
    · rintro ⟨site, label⟩ hplace middle taken hextends
      apply adds_moveInstruction (hcontext.mono hextends)
      intro target htarget
      apply (hlayout.exists_label htiles).mpr
        (hlands site.insn (hlayout.insn_mem hplace) target htarget)
  rw [moveInstructions]
  simp only [hzip, List.mapM_map]
  rw [← Nat.zero_add (Probe.pooled _)]
  apply hpieces.bind
  rintro pieces middle - ⟨hforall, hwf⟩
  exact .pure ⟨⟨pieces, rfl, hforall⟩, hwf⟩

/-! ## The places of pieces -/

/-- A piece fills the place of its site. -/
theorem IsPiece.tiles {site : Site} {label : Nat} {piece : List Instruction}
    (h : layout.IsPiece pool bridge segment (site, label) piece)
    (hwidenable : site.widened → site.IsWidenable) :
  CodeArray.Tiles label piece (site.limit label)
  := by
  obtain ⟨front, rfl, hfront⟩ := h
  obtain ⟨-, hsize, -⟩ := layout.movedOperation_spec hwidenable
  refine CodeArray.tiles_append.mpr ⟨site.position label, ?_, rfl, ?_⟩
  · split at hfront
    · rename_i number hprobe
      have hposition : site.position label = label + Probe.length := by
        rw [Site.position, Site.lead, show site.probe = some number from hprobe]
        rfl
      rw [hposition]
      apply hfront.1.spec.1
    · rename_i hprobe
      have hposition : site.position label = label := by
        rw [Site.position, Site.lead, show site.probe = none from hprobe]
        rfl
      rw [hposition, hfront]
      rfl
  · rw [movedInstruction, Instruction.limit, hsize]
    rfl

theorem tiles_flatten {sites : List Site} {start : Nat} {pieces : List (List Instruction)}
    (hpieces : List.Forall₂ (layout.IsPiece pool bridge segment) (placesFrom start sites) pieces)
    (hwidenable : ∀ site ∈ sites, site.widened → site.IsWidenable) :
  CodeArray.Tiles start pieces.flatten (limitFrom start sites)
  := by
  induction sites generalizing start pieces with
  | nil =>
    cases hpieces
    rfl
  | cons site sites ih =>
    obtain ⟨hsite, hsites⟩ := List.forall_mem_cons.mp hwidenable
    cases hpieces with
    | cons hpiece hpieces =>
      apply CodeArray.tiles_append.mpr ⟨site.limit start, hpiece.tiles hsite, ih hpieces hsites⟩

/-- Moved code fills the length of the layout. -/
theorem tiles_pieces {insns : List Instruction}
    (h : layout.ArePieces pool bridge segment insns) (hlayout : layout.IsFor code probeAt) :
  CodeArray.Tiles 0 insns layout.length
  := by
  obtain ⟨pieces, rfl, hpieces⟩ := h
  rw [hlayout.places_eq] at hpieces
  rw [hlayout.length_eq]
  apply tiles_flatten hpieces hlayout.widenable

/-- A site in moved code has its instruction there, and the sequence of its probe if it has one. -/
theorem ArePieces.exists_sequence {insns : List Instruction}
    (h : layout.ArePieces pool bridge segment insns) {site : Site} {label : Nat}
    (hplace : (site, label) ∈ layout.places) :
  layout.movedInstruction site label ∈ insns
    ∧ ∀ number, site.probe = some number →
      ∃ front, Probe.IsSequence pool bridge segment number label front
        ∧ ∀ insn ∈ front, insn ∈ insns
  := by
  obtain ⟨pieces, rfl, hpieces⟩ := h
  obtain ⟨piece, hpiece, front, rfl, hfront⟩ := exists_of_mem_left hpieces hplace
  have hmem : ∀ insn ∈ front ++ [layout.movedInstruction site label], insn ∈ pieces.flatten :=
    fun insn hinsn => List.mem_flatten.mpr ⟨_, hpiece, hinsn⟩
  use hmem _ (by simp)
  intro number hprobe
  simp only [hprobe] at hfront
  exact ⟨front, hfront, fun insn hinsn => hmem insn (List.mem_append_left _ hinsn)⟩

/-- A site in moved code has its instruction there, and its probe if it has one. -/
theorem ArePieces.exists_piece {insns : List Instruction}
    (h : layout.ArePieces pool bridge segment insns) {site : Site} {label : Nat}
    (hplace : (site, label) ∈ layout.places) :
  layout.movedInstruction site label ∈ insns
    ∧ ∀ number, site.probe = some number →
      ∃ front, Probe.IsProbe pool bridge segment number label front ∧ ∀ insn ∈ front, insn ∈ insns
  := by
  obtain ⟨hinsn, hprobe⟩ := h.exists_sequence hplace
  use hinsn
  intro number hsite
  obtain ⟨front, hfront, hmem⟩ := hprobe number hsite
  exact ⟨front, hfront.1, hmem⟩

/-- An instruction of moved code is one that was there or belongs to a probe. -/
theorem ArePieces.cases {insns : List Instruction}
    (h : layout.ArePieces pool bridge segment insns) {insn : Instruction} (hinsn : insn ∈ insns) :
  ∃ site label, (site, label) ∈ layout.places
    ∧ (insn = layout.movedInstruction site label
      ∨ ∃ number front, site.probe = some number
        ∧ Probe.IsProbe pool bridge segment number label front ∧ insn ∈ front)
  := by
  obtain ⟨pieces, rfl, hpieces⟩ := h
  obtain ⟨piece, hpiece, hmem⟩ := List.mem_flatten.mp hinsn
  obtain ⟨⟨site, label⟩, hplace, front, rfl, hfront⟩ := exists_of_mem_right hpieces hpiece
  use site, label, hplace
  rcases List.mem_append.mp hmem with hfront' | hlast
  · right
    split at hfront
    · rename_i number hprobe
      exact ⟨number, front, hprobe, hfront.1, hfront'⟩
    · rw [hfront] at hfront'
      cases hfront'
  · exact .inl (List.mem_singleton.mp hlast)

end Layout

end JvmCoverage
