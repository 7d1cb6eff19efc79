import JvmCoverage.Proofs.Probed
import Mathlib.Data.List.Chain
import Mathlib.Data.List.Nodup

/-!
# Steps of control

Control goes from an instruction on to the next one, to a jump target, to a handler, or from the
end of a subroutine to the instruction behind a call of one (`Code.Leads`).  In moved code
control goes from an instruction to the labels of those it went to
(`Layout.IsMoved.step_position_iff`), and through a probe it goes straight to the instruction
behind (`Layout.IsMoved.step_probe_iff`).
-/

namespace JvmCoverage

namespace Operation

/-- Whether the operation is a jump to a subroutine. -/
def callsSubroutine : Operation → Bool
  | branch opcode _ => opcode.isJsr
  | _ => false

/-- Whether the operation is the end of a subroutine. -/
def endsSubroutine : Operation → Bool
  | subroutineReturn _ _ => true
  | _ => false

end Operation

/-! ## Leading on -/

namespace Code

/-- Whether an instruction of the code leads to an offset.  Exceptions are raised at the offsets
in `raises` only. -/
inductive Leads (code : Code) (raises : Nat → Prop) (insn : Instruction) : Nat → Prop
  /-- On to the next instruction. -/
  | next (hfalls : insn.op.fallsThrough)
      (hmem : insn.limit ∈ code.instructions.map Instruction.offset) :
      Leads code raises insn insn.limit
  /-- To a jump target. -/
  | jump {target : Nat} (htarget : target ∈ insn.op.targets) : Leads code raises insn target
  /-- To the handler of a range that the instruction stands in. -/
  | handle {h : ExceptionHandler} (hmem : h ∈ code.handlers) (hstart : h.start ≤ insn.offset)
      (hlimit : insn.offset < h.limit) (hraises : raises insn.offset) :
      Leads code raises insn h.handler
  /-- From the end of a subroutine behind a call. -/
  | resume {caller : Instruction} (hends : insn.op.endsSubroutine)
      (hcaller : caller ∈ code.instructions) (hcalls : caller.op.callsSubroutine)
      (hmem : caller.limit ∈ code.instructions.map Instruction.offset) :
      Leads code raises insn caller.limit

/-- Whether control goes from one offset to another in one step. -/
def Step (code : Code) (raises : Nat → Prop) (offset target : Nat) : Prop :=
  ∃ insn ∈ code.instructions, insn.offset = offset ∧ code.Leads raises insn target

/-- Whether control visits the offsets one after the other, from the start of the code on. -/
def IsPath (code : Code) (raises : Nat → Prop) (path : List Nat) : Prop :=
  path.head? = some 0 ∧ path.IsChain (code.Step raises)

variable {code : Code} {raises raises' : Nat → Prop} {insn : Instruction} {limit : Nat}

theorem Leads.mono (hraises : ∀ offset, raises offset → raises' offset) {target : Nat}
    (h : code.Leads raises insn target) :
  code.Leads raises' insn target
  := by
  cases h with
  | next hfalls hmem => exact .next hfalls hmem
  | jump htarget => exact .jump htarget
  | handle hmem hstart hlimit hraise => exact .handle hmem hstart hlimit (hraises _ hraise)
  | resume hends hcaller hcalls hmem => exact .resume hends hcaller hcalls hmem

theorem IsPath.mono (hraises : ∀ offset, raises offset → raises' offset) {path : List Nat}
    (h : code.IsPath raises path) :
  code.IsPath raises' path
  := by
  refine ⟨h.1, h.2.imp ?_⟩
  rintro offset target ⟨insn, hinsn, rfl, hleads⟩
  exact ⟨insn, hinsn, rfl, hleads.mono hraises⟩

/-- A step from the offset of an instruction is where the instruction leads. -/
theorem step_offset_iff (htiles : CodeArray.Tiles 0 code.instructions limit)
    (hinsn : insn ∈ code.instructions) {target : Nat} :
  code.Step raises insn.offset target ↔ code.Leads raises insn target
  := by
  constructor
  · rintro ⟨insn', hinsn', hoffset, hleads⟩
    have hoffsets : (code.instructions.map Instruction.offset).Nodup := by
      apply List.Pairwise.imp Nat.ne_of_lt
      rw [List.pairwise_map]
      apply FlowGraph.pairwise_offset htiles
    obtain rfl := List.inj_on_of_nodup_map hoffsets hinsn' hinsn hoffset
    apply hleads
  · exact fun hleads => ⟨insn, hinsn, rfl, hleads⟩

/-- Control goes to instructions. -/
theorem WellFormed.mem_of_step {pool : ConstantPool} (h : code.WellFormed pool)
    {offset target : Nat} (hstep : code.Step raises offset target) :
  target ∈ code.instructions.map Instruction.offset
  := by
  obtain ⟨insn, hinsn, -, hleads⟩ := hstep
  cases hleads with
  | next _ hmem => apply hmem
  | jump htarget => apply h.instructions.lands insn hinsn target htarget
  | handle hmem _ _ _ => apply (handlerFits_boundaries.mp (h.handlers _ hmem)).2.2.2.2
  | resume _ _ _ hmem => apply hmem

/-- From straight code that raises nothing control goes to the next instruction only. -/
theorem step_iff_of_straight (htiles : CodeArray.Tiles 0 code.instructions limit)
    (hinsn : insn ∈ code.instructions) (htargets : insn.op.targets = [])
    (hends : insn.op.endsBlock = false) (hraises : ¬ raises insn.offset)
    (hmem : insn.limit ∈ code.instructions.map Instruction.offset) {target : Nat} :
  code.Step raises insn.offset target ↔ target = insn.limit
  := by
  rw [step_offset_iff htiles hinsn]
  constructor
  · intro h
    cases h with
    | next => rfl
    | jump htarget =>
      rw [htargets] at htarget
      cases htarget
    | handle _ _ _ hraise => exact absurd hraise hraises
    | resume hsubroutine =>
      cases hop : insn.op <;> simp [hop, Operation.endsSubroutine, Operation.endsBlock]
        at hsubroutine hends
  · rintro rfl
    apply Leads.next _ hmem
    cases hop : insn.op <;> simp [hop, Operation.fallsThrough, Operation.endsBlock] at hends ⊢

end Code

/-! ## Leading on in moved code -/

namespace Layout

variable {layout : Layout}

/-- Moving an operation changes neither whether it calls a subroutine nor whether it ends one. -/
theorem subroutine_movedOperation (layout : Layout) {site : Site}
    (hwidenable : site.widened → site.IsWidenable) :
  (layout.movedOperation site).callsSubroutine = site.insn.op.callsSubroutine
    ∧ (layout.movedOperation site).endsSubroutine = site.insn.op.endsSubroutine
  := by
  rw [movedOperation]
  split
  · rename_i hwidened
    obtain ⟨opcode, target, hop, hjump, hnarrow⟩ := hwidenable hwidened
    obtain ⟨wide, heq, -, -, -, hjsr⟩ :=
      Operation.widen_branch (layout.moveTarget target) hjump hnarrow
    rw [hop, Operation.mapTargets, heq]
    exact ⟨hjsr, rfl⟩
  · cases site.insn.op <;> exact ⟨rfl, rfl⟩

variable {code moved : Code} {probeAt : Nat → Option Nat} {base pool : ConstantPool}
  {bridge : Bridge} {segment : UInt32} {site : Site} {label : Nat}
  (hlayout : layout.IsFor code probeAt) (hcode : code.WellFormed base)
  (hplace : (site, label) ∈ layout.places)

include hlayout hplace

theorem limit_movedInstruction :
  (layout.movedInstruction site label).limit = site.limit label
  := by
  obtain ⟨-, hsize, -⟩ :=
    layout.movedOperation_spec (hlayout.widenable site (hlayout.site_mem hplace))
  rw [movedInstruction, Instruction.limit, hsize]
  rfl

/-- Moving an instruction changes neither whether it goes on behind, nor whether it calls or ends a
subroutine. -/
theorem kind_movedInstruction :
  (layout.movedInstruction site label).op.fallsThrough = site.insn.op.fallsThrough
    ∧ (layout.movedInstruction site label).op.callsSubroutine = site.insn.op.callsSubroutine
    ∧ (layout.movedInstruction site label).op.endsSubroutine = site.insn.op.endsSubroutine
  := by
  have hwidenable := hlayout.widenable site (hlayout.site_mem hplace)
  obtain ⟨-, -, hfallsThrough⟩ := layout.movedOperation_spec hwidenable
  exact ⟨hfallsThrough, layout.subroutine_movedOperation hwidenable⟩

include hcode

/-- The instruction behind another has its label behind it. -/
theorem label?_limit (hmem : site.insn.limit ∈ code.instructions.map Instruction.offset) :
  layout.label? site.insn.limit = some (site.limit label)
  := by
  have htiles := hcode.instructions.tiles
  apply (label?_eq_some (hlayout.ascending htiles)).mpr
  rcases hlayout.next_place htiles hplace with ⟨hlimit, -⟩ | hnext
  · obtain ⟨insn, hinsn, hoffset⟩ := List.mem_map.mp hmem
    have hbounds := (htiles.bounds hinsn).2
    have hlt := CodeArray.offset_lt_limit insn
    omega
  · apply hnext

/-- An instruction stands behind another in moved code exactly if it did before. -/
theorem IsMoved.limit_mem_iff (h : layout.IsMoved pool bridge segment code moved) :
  site.limit label ∈ moved.instructions.map Instruction.offset
    ↔ site.insn.limit ∈ code.instructions.map Instruction.offset
  := by
  have htiles := hcode.instructions.tiles
  constructor
  · intro hmem
    rcases hlayout.next_place htiles hplace with ⟨-, hlimit⟩ | ⟨site', hplace', hold⟩
    · obtain ⟨insn, hinsn, hoffset⟩ := List.mem_map.mp hmem
      have hbounds := ((tiles_pieces h.pieces hlayout).bounds hinsn).2
      have hlt := CodeArray.offset_lt_limit insn
      omega
    · rw [← hold]
      apply List.mem_map_of_mem (hlayout.insn_mem hplace')
  · intro hmem
    apply ((h.pieces.holds hlayout).start hlayout htiles
      (label?_limit hlayout hcode hplace hmem)).2

/-- Handlers protect the moved instruction that protected it before. -/
theorem protects_iff {handler handler' : ExceptionHandler}
    (hmove : layout.moveHandler handler = .ok handler') :
  (handler'.start ≤ site.position label ∧ site.position label < handler'.limit)
    ↔ (handler.start ≤ site.insn.offset ∧ site.insn.offset < handler.limit)
  := by
  have htiles := hcode.instructions.tiles
  obtain ⟨hstart, hlimit, -⟩ := moveHandler_eq_ok.mp hmove
  rw [hlayout.limit?_le_position_iff htiles hplace (hlayout.limit?_of_label? htiles hstart),
    ← Nat.not_le, hlayout.limit?_le_position_iff htiles hplace hlimit, ← Nat.not_le]
  rfl

variable {raises : Nat → Prop}

/-- Where a moved instruction leads is the label of an offset that it led to. -/
theorem IsMoved.exists_of_leads (h : layout.IsMoved pool bridge segment code moved) {target : Nat}
    (hleads : moved.Leads raises (layout.movedInstruction site label) target) :
  ∃ old, code.Leads (fun _ => True) site.insn old ∧ layout.label? old = some target
  := by
  obtain ⟨hhandlers, -⟩ := moveTables_eq_ok.mp h.tables
  obtain ⟨hfallsThrough, -, hends⟩ := kind_movedInstruction hlayout hplace
  cases hleads with
  | next hfalls hmem =>
    rw [limit_movedInstruction hlayout hplace] at hmem ⊢
    have hmem := (h.limit_mem_iff hlayout hcode hplace).mp hmem
    exact ⟨_, .next (hfallsThrough ▸ hfalls) hmem, label?_limit hlayout hcode hplace hmem⟩
  | jump htarget =>
    obtain ⟨old, hold, hlabel⟩ := exists_label_of_mem_targets hlayout hcode.instructions.tiles
      hcode.instructions.lands hplace htarget
    exact ⟨old, .jump hold, hlabel⟩
  | @handle handler' hmem hstart hlimit _ =>
    obtain ⟨handler, hmem, hmove⟩ := exists_of_mem_right hhandlers hmem
    obtain ⟨hstart, hlimit⟩ := (protects_iff hlayout hcode hplace hmove).mp ⟨hstart, hlimit⟩
    obtain ⟨-, -, hentry, -⟩ := moveHandler_eq_ok.mp hmove
    exact ⟨_, .handle hmem hstart hlimit trivial, hentry⟩
  | @resume caller hsubroutine hcaller hcalls hmem =>
    obtain ⟨site', label', hplace', rfl | ⟨number, front, -, hfront, hprobe⟩⟩ :=
      h.pieces.cases hcaller
    · obtain ⟨-, hcalls', -⟩ := kind_movedInstruction hlayout hplace'
      rw [limit_movedInstruction hlayout hplace'] at hmem ⊢
      have hmem := (h.limit_mem_iff hlayout hcode hplace').mp hmem
      exact ⟨_, .resume (hends ▸ hsubroutine) (hlayout.insn_mem hplace') (hcalls' ▸ hcalls) hmem,
        label?_limit hlayout hcode hplace' hmem⟩
    · obtain ⟨-, htargets, -⟩ := hfront.spec.2 caller hprobe
      cases hop : caller.op <;> simp [hop, Operation.callsSubroutine, Operation.targets]
        at hcalls htargets

/-- A moved instruction leads to the labels of the offsets that it led to. -/
theorem IsMoved.leads_label (h : layout.IsMoved pool bridge segment code moved)
    (hraises : raises (site.position label)) {old target : Nat}
    (hleads : code.Leads (fun _ => True) site.insn old)
    (hlabel : layout.label? old = some target) :
  moved.Leads raises (layout.movedInstruction site label) target
  := by
  obtain ⟨hhandlers, -⟩ := moveTables_eq_ok.mp h.tables
  obtain ⟨hfallsThrough, -, hends⟩ := kind_movedInstruction hlayout hplace
  cases hleads with
  | next hfalls hmem =>
    obtain rfl := Option.some.inj ((label?_limit hlayout hcode hplace hmem).symm.trans hlabel)
    have hmem := (h.limit_mem_iff hlayout hcode hplace).mpr hmem
    rw [← limit_movedInstruction hlayout hplace] at hmem ⊢
    exact .next (hfallsThrough ▸ hfalls) hmem
  | jump htarget =>
    apply Code.Leads.jump
    change target ∈ (layout.movedOperation site).targets
    rw [targets_movedOperation]
    refine List.mem_map.mpr ⟨old, htarget, ?_⟩
    rw [moveTarget, hlabel]
    rfl
  | @handle handler hmem hstart hlimit _ =>
    obtain ⟨handler', hmem', hmove⟩ := exists_of_mem_left hhandlers hmem
    obtain ⟨hstart, hlimit⟩ := (protects_iff hlayout hcode hplace hmove).mpr ⟨hstart, hlimit⟩
    obtain ⟨-, -, hentry, -⟩ := moveHandler_eq_ok.mp hmove
    obtain rfl := Option.some.inj (hentry.symm.trans hlabel)
    exact .handle hmem' hstart hlimit hraises
  | @resume caller hsubroutine hcaller hcalls hmem =>
    obtain ⟨site', label', hplace', rfl⟩ := hlayout.exists_place hcaller
    obtain ⟨-, hcalls', -⟩ := kind_movedInstruction hlayout hplace'
    obtain rfl := Option.some.inj ((label?_limit hlayout hcode hplace' hmem).symm.trans hlabel)
    have hmem := (h.limit_mem_iff hlayout hcode hplace').mpr hmem
    rw [← limit_movedInstruction hlayout hplace'] at hmem ⊢
    exact .resume (hends ▸ hsubroutine) (h.pieces.exists_piece hplace').1 (hcalls' ▸ hcalls) hmem

/-- From a moved instruction control goes to the labels of the offsets that it went to. -/
theorem IsMoved.step_position_iff (h : layout.IsMoved pool bridge segment code moved)
    (hraises : raises (site.position label)) {target : Nat} :
  moved.Step raises (site.position label) target
    ↔ ∃ old, code.Step (fun _ => True) site.old old ∧ layout.label? old = some target
  := by
  have hstep : moved.Step raises (site.position label) target
      ↔ moved.Leads raises (layout.movedInstruction site label) target :=
    Code.step_offset_iff (tiles_pieces h.pieces hlayout) (h.pieces.exists_piece hplace).1
  have hstep' : ∀ old, code.Step (fun _ => True) site.old old
      ↔ code.Leads (fun _ => True) site.insn old := fun old =>
    Code.step_offset_iff hcode.instructions.tiles (hlayout.insn_mem hplace)
  simp only [hstep, hstep']
  constructor
  · apply h.exists_of_leads hlayout hcode hplace
  · rintro ⟨old, hleads, hlabel⟩
    apply h.leads_label hlayout hcode hplace hraises hleads hlabel

omit hcode in
/-- Through a probe that raises nothing control goes from one of its instructions to the next, and
from the last to the instruction behind the probe. -/
theorem IsMoved.step_probe_iff (h : layout.IsMoved pool bridge segment code moved) {number : Nat}
    (hprobe : site.probe = some number)
    (hraises : ∀ offset, label ≤ offset → offset < site.position label → ¬ raises offset)
    {target : Nat} :
  (moved.Step raises label target ↔ target = label + 3)
    ∧ (moved.Step raises (label + 3) target ↔ target = label + 6)
    ∧ (moved.Step raises (label + 6) target ↔ target = site.position label)
  := by
  have hposition : site.position label = label + 9 := by
    rw [Site.position, Site.lead, hprobe]
    rfl
  have htiles := tiles_pieces h.pieces hlayout
  obtain ⟨hinsn, hfront⟩ := h.pieces.exists_piece hplace
  obtain ⟨_, ⟨first, second, third, rfl, hfirst, hsecond, hthird⟩, hmem⟩ := hfront number hprobe
  simp only [List.forall_mem_cons, List.not_mem_nil, false_implies, implies_true, and_true] at hmem
  obtain ⟨hfirstMem, hsecondMem, hthirdMem⟩ := hmem
  have hstraight : ∀ offset op, ⟨offset, op⟩ ∈ moved.instructions →
      op.targets = [] → (∀ offset, op.size offset = 3) → op.endsBlock = false →
      label ≤ offset → offset < label + 9 →
      offset + 3 ∈ moved.instructions.map Instruction.offset →
      (moved.Step raises offset target ↔ target = offset + 3) := by
    intro offset op hinsn htargets hsize hends hle hlt hnext
    have hlimit : Instruction.limit ⟨offset, op⟩ = offset + 3 := by
      rw [Instruction.limit, hsize]
    rw [← hlimit] at hnext ⊢
    apply Code.step_iff_of_straight htiles hinsn htargets hends
      (hraises offset hle (hposition ▸ hlt)) hnext
  obtain ⟨-, hfirstTargets, hfirstSize, hfirstEnds⟩ := hfirst.spec
  obtain ⟨-, hsecondTargets, hsecondSize, hsecondEnds⟩ := hsecond.spec
  obtain ⟨-, hthirdTargets, hthirdSize, hthirdEnds⟩ := hthird.spec
  refine ⟨?_, ?_, ?_⟩
  · apply hstraight label first hfirstMem hfirstTargets hfirstSize hfirstEnds le_rfl (by omega)
      (List.mem_map_of_mem hsecondMem)
  · apply hstraight (label + 3) second hsecondMem hsecondTargets hsecondSize hsecondEnds
      (by omega) (by omega) (List.mem_map_of_mem hthirdMem)
  · rw [hposition]
    refine hstraight (label + 6) third hthirdMem hthirdTargets hthirdSize hthirdEnds
      (by omega) (by omega) ?_
    apply List.mem_map.mpr ⟨_, hinsn, hposition⟩

end Layout

end JvmCoverage
