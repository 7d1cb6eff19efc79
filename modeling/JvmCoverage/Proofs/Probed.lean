import JvmCoverage.Proofs.Insertion

/-!
# Classes with probes are classes

The code of a method with probes fills its layout, its jumps lead to instructions in reach, and its
tables fit, so a class with probes is well formed (`ClassPlan.IsApplied.wellFormed`).  It is
written, and read back as the same class, as long as the lengths of its bodies fit their four-byte
fields (`ClassPlan.toBytes_of_apply`).
-/

namespace JvmCoverage

/-! ## Bodies -/

namespace Layout

variable {layout : Layout} {code : Code} {probeAt : Nat → Option Nat} {pool : ConstantPool}
  {bridge : Bridge} {segment : UInt32} {insns : List Instruction}

/-- Moved code has an instruction at every label. -/
theorem ArePieces.holds (h : layout.ArePieces pool bridge segment insns)
    (hlayout : layout.IsFor code probeAt) :
  layout.Holds insns
  where
    tiles := tiles_pieces h hlayout
    starts := by
      intro site label hplace
      obtain ⟨hinsn, hprobe⟩ := h.exists_piece hplace
      cases hsite : site.probe with
      | some number =>
        obtain ⟨front, hfront, hmem⟩ := hprobe number hsite
        obtain ⟨first, second, third, rfl, -⟩ := hfront
        apply List.mem_map.mpr ⟨⟨label, first⟩, hmem _ (by simp), rfl⟩
      | none =>
        refine List.mem_map.mpr ⟨_, hinsn, ?_⟩
        simp [movedInstruction, Site.position, Site.lead, hsite]

/-- A two-byte distance leads to what it was found to reach. -/
theorem fits_of_reaches {position target : Nat} (h : reaches position target) :
  Bytes.Fits 2 (target - position)
  := by
  simp only [reaches, Bool.and_eq_true, decide_eq_true_eq] at h
  constructor
  · omega
  · omega

/-- A moved operation has distances of four bytes, unless it is a jump that was not widened. -/
theorem distanceWidth_movedOperation (layout : Layout) {site : Site}
    (hwidenable : site.widened → site.IsWidenable) :
  (layout.movedOperation site).distanceWidth = 4
    ∨ (layout.movedOperation site).distanceWidth = 2 ∧ site.widened = false
      ∧ ∃ opcode target, site.insn.op = .branch opcode target ∧ opcode.isWideBranch = false
  := by
  rw [movedOperation]
  split
  · rename_i hwidened
    obtain ⟨opcode, target, hop, hjump, hnarrow⟩ := hwidenable hwidened
    obtain ⟨wide, heq, -, hwide, -⟩ :=
      Operation.widen_branch (layout.moveTarget target) hjump hnarrow
    left
    rw [hop, Operation.mapTargets, heq, Operation.distanceWidth, if_pos hwide]
  · rename_i hwidened
    cases hop : site.insn.op with
    | branch opcode target =>
      rw [Operation.mapTargets, Operation.distanceWidth]
      split
      · exact .inl rfl
      · rename_i hnarrow
        exact .inr ⟨rfl, by simpa using hwidened, opcode, target, rfl, by simpa using hnarrow⟩
    | _ => exact .inl rfl

variable (hlayout : layout.IsFor code probeAt)
  (htiles : CodeArray.Tiles 0 code.instructions code.length)
  (hlands : CodeArray.Lands code.instructions)

include hlayout htiles hlands

/-- A target of a moved operation is the label of a target it had. -/
theorem exists_label_of_mem_targets {site : Site} {label : Nat}
    (hplace : (site, label) ∈ layout.places) {target : Nat}
    (htarget : target ∈ (layout.movedOperation site).targets) :
  ∃ old ∈ site.insn.op.targets, layout.label? old = some target
  := by
  rw [targets_movedOperation] at htarget
  obtain ⟨old, hold, rfl⟩ := List.mem_map.mp htarget
  obtain ⟨target, hlabel⟩ := (hlayout.exists_label htiles).mpr
    (hlands site.insn (hlayout.insn_mem hplace) old hold)
  use old, hold
  rw [moveTarget, hlabel]
  rfl

/-- Moved jumps reach their targets. -/
theorem inReach_movedOperation {site : Site} {label : Nat}
    (hplace : (site, label) ∈ layout.places) :
  (layout.movedOperation site).InReach (site.position label) layout.length
  := by
  intro target htarget
  obtain ⟨old, hold, hlabel⟩ := exists_label_of_mem_targets hlayout htiles hlands hplace htarget
  obtain ⟨site', hplace', -⟩ := (label?_eq_some (hlayout.ascending htiles)).mp hlabel
  have htargetLt := (site'.label_lt_limit target).trans_le (hlayout.limit_le hplace')
  have hpositionLt := (site.position_lt_limit label).trans_le (hlayout.limit_le hplace)
  have hlength : layout.length ≤ 65535 := hlayout.length_le
  use htargetLt
  have hfour : Bytes.Fits 4 (target - site.position label : Int) :=
    Operation.fits_of_lt (by omega) (by omega)
  obtain hwide | ⟨hnarrow, hwidened, opcode, target', hop, hbranch⟩ :=
    distanceWidth_movedOperation layout (hlayout.widenable site (hlayout.site_mem hplace))
  · rw [hwide]
    apply hfour
  · rw [hnarrow]
    rw [hop] at hold
    obtain rfl := List.mem_singleton.mp hold
    obtain ⟨targetLabel, hlabel', hreaches⟩ :=
      hlayout.settled site label hplace opcode old hop hwidened hbranch
    obtain rfl := Option.some.inj (hlabel.symm.trans hlabel')
    apply fits_of_reaches hreaches

/-- Moved instructions make up a code array. -/
theorem wellFormed_pieces (h : layout.ArePieces pool bridge segment insns)
    (hne : code.instructions ≠ [])
    (hops : ∀ insn ∈ code.instructions, insn.op.WellFormed) :
  CodeArray.WellFormed insns layout.length
  where
    tiles := tiles_pieces h hlayout
    pos := by
      obtain ⟨insn, hinsn⟩ := List.exists_mem_of_ne_nil _ hne
      obtain ⟨site, label, hplace, -⟩ := hlayout.exists_place hinsn
      have hlt := (site.label_lt_limit label).trans_le (hlayout.limit_le hplace)
      omega
    le := hlayout.length_le
    ops := by
      intro insn hinsn
      rcases h.cases hinsn with ⟨site, label, hplace, rfl | ⟨number, front, -, hfront, hmem⟩⟩
      · have hwidenable := hlayout.widenable site (hlayout.site_mem hplace)
        apply (layout.movedOperation_spec hwidenable).1 (hops _ (hlayout.insn_mem hplace))
      · apply (hfront.spec.2 insn hmem).1
    reach := by
      intro insn hinsn
      rcases h.cases hinsn with ⟨site, label, hplace, rfl | ⟨number, front, -, hfront, hmem⟩⟩
      · apply inReach_movedOperation hlayout htiles hlands hplace
      · intro target htarget
        rw [(hfront.spec.2 insn hmem).2.1] at htarget
        cases htarget
    lands := by
      intro insn hinsn target htarget
      rcases h.cases hinsn with ⟨site, label, hplace, rfl | ⟨number, front, -, hfront, hmem⟩⟩
      · obtain ⟨old, -, hlabel⟩ :=
          exists_label_of_mem_targets hlayout htiles hlands hplace htarget
        apply ((h.holds hlayout).start hlayout htiles hlabel).2
      · rw [(hfront.spec.2 insn hmem).2.1] at htarget
        cases htarget

omit htiles hlands in
/-- Moved code is as long as the layout. -/
theorem IsMoved.length_eq {moved : Code} (h : layout.IsMoved pool bridge segment code moved)
    (hne : code.instructions ≠ []) :
  moved.length = layout.length
  := by
  apply (tiles_pieces h.pieces hlayout).limit_eq
  intro hnil
  obtain ⟨insn, hinsn⟩ := List.exists_mem_of_ne_nil _ hne
  obtain ⟨site, label, hplace, -⟩ := hlayout.exists_place hinsn
  have hmem := (h.pieces.exists_piece hplace).1
  rw [hnil] at hmem
  cases hmem

omit htiles hlands in
/-- A body with probes is well formed, and not much longer than before. -/
theorem IsMoved.wellFormed {moved : Code} {base : ConstantPool} {room : Nat}
    (h : layout.IsMoved pool bridge segment code moved) (hcode : code.WellFormed base)
    (hextends : base.Extends pool room) :
  moved.WellFormed pool ∧ moved.form.length ≤ code.form.length + 2 ^ 27
  := by
  have htiles := hcode.instructions.tiles
  have hlands := hcode.instructions.lands
  have hlength := h.length_eq hlayout hcode.ne_nil
  have hinsns := wellFormed_pieces hlayout htiles hlands h.pieces hcode.ne_nil
    hcode.instructions.ops
  obtain ⟨⟨hhandlersLe, hhandlers⟩, ⟨hattributesLe, hattributes⟩, htables⟩ :=
    moveTables_fits hlayout htiles hcode (h.pieces.holds hlayout) h.tables
  rw [← hlength] at hinsns hhandlers hattributes
  constructor
  · exact ⟨hinsns, hhandlersLe, hhandlers, hattributesLe,
      fun attr hattr => hextends.codeAttribute (hattributes attr hattr)⟩
  · have harray := CodeArray.length_form hinsns.tiles
    have hle := hinsns.le
    have hmax : CodeArray.maxLength = 65535 := rfl
    have hattributesLe := hcode.attributes_le
    simp only [Code.form, List.length_append, Bytes.length_field16, Bytes.length_count32]
    omega

end Layout

/-! ## Methods -/

namespace Method

/-- A body stands in one attribute, and only there it is replaced. -/
theorem exists_attributes {m : Method} {code : Code} (h : m.code? = some code) (f : Code → Code) :
  ∃ front nameIndex back, m.attributes = front ++ .code nameIndex code :: back
    ∧ (m.mapCode f).attributes = front ++ .code nameIndex (f code) :: back
    ∧ (m.mapCode f).code? = some (f code)
  := by
  obtain ⟨accessFlags, nameIndex, descriptorIndex, name, descriptor, attributes⟩ := m
  induction attributes with
  | nil => cases h
  | cons attr attributes ih =>
    cases attr with
    | code nameIndex body =>
      obtain rfl := Option.some.inj h
      exact ⟨[], nameIndex, attributes, rfl, rfl, rfl⟩
    | other raw =>
      obtain ⟨front, nameIndex, back, hattributes, hmapped, hcode⟩ := ih h
      exact ⟨.other raw :: front, nameIndex, back,
        congrArg (MethodAttribute.other raw :: ·) hattributes,
        congrArg (MethodAttribute.other raw :: ·) hmapped, hcode⟩

/-- A method with another well-formed body is well formed. -/
theorem wellFormed_mapCode {pool : ConstantPool} {m : Method} {code moved : Code}
    (hm : m.WellFormed pool) (hcode : m.code? = some code) (hmoved : moved.WellFormed pool) :
  (m.mapCode fun _ => moved).WellFormed pool
  := by
  obtain ⟨front, nameIndex, back, hattributes, hmapped, -⟩ :=
    exists_attributes hcode fun _ => moved
  have hwf := hm.attributes
  have hle := hm.attributes_le
  rw [hattributes] at hwf hle
  rw [List.forall_mem_append, List.forall_mem_cons] at hwf
  obtain ⟨hfront, ⟨hname, -⟩, hback⟩ := hwf
  refine ⟨hm.name, hm.descriptor, ?_, ?_⟩
  · rw [hmapped]
    simpa using hle
  · rw [hmapped, List.forall_mem_append, List.forall_mem_cons]
    exact ⟨hfront, ⟨hname, hmoved⟩, hback⟩

/-- A body is a part of the method. -/
theorem length_body_le {m : Method} {nameIndex : UInt16} {body : Code}
    (h : .code nameIndex body ∈ m.attributes) :
  body.form.length ≤ m.form.length
  := by
  obtain ⟨front, back, heq⟩ := List.append_of_mem h
  simp only [form, heq, List.flatMap_append, List.flatMap_cons, MethodAttribute.form,
    Code.attributeBytes, List.length_append]
  omega

end Method

/-- A body is a part of the class. -/
theorem ClassFile.length_body_le {c : ClassFile} {m : Method} {nameIndex : UInt16} {body : Code}
    (hm : m ∈ c.methods) (h : .code nameIndex body ∈ m.attributes) :
  body.form.length ≤ c.form.length
  := by
  have hbody := Method.length_body_le h
  obtain ⟨front, back, heq⟩ := List.append_of_mem hm
  simp only [form, heq, List.flatMap_append, List.flatMap_cons, List.length_append]
  omega

/-! ## Classes -/

namespace ClassPlan

variable {classPlan : ClassPlan} {c c' : ClassFile} {bridge : Bridge} {segment : UInt32}

/-- A method of a class with probes is one without, or a planned one with its probes. -/
theorem AreMoved.cases {plans : List MethodPlan} {pool : ConstantPool}
    {methods methods' : Array Method} (h : AreMoved plans pool bridge segment methods methods')
    {i : Nat} {m' : Method} (hm' : methods'[i]? = some m') :
  methods[i]? = some m' ∨ ∃ plan ∈ plans, ∃ m code moved, plan.method = i
    ∧ methods[i]? = some m ∧ m.code? = some code ∧ m' = m.mapCode (fun _ => moved)
    ∧ plan.layout.IsMoved pool bridge segment code moved
  := by
  by_cases hplanned : ∃ plan ∈ plans, plan.method = i
  · obtain ⟨plan, hplan, rfl⟩ := hplanned
    obtain ⟨m, code, moved, hm, hcode, hmapped, hmoved⟩ := h.planned plan hplan
    exact .inr ⟨plan, hplan, m, code, moved, rfl, hm, hcode,
      Option.some.inj (hm'.symm.trans hmapped), hmoved⟩
  · left
    rw [← h.others i fun plan hplan heq => hplanned ⟨plan, hplan, heq⟩]
    apply hm'

/-- A planned method of a class with probes has the code of its layout. -/
theorem IsApplied.moved_wellFormed (h : classPlan.IsApplied bridge segment c c')
    (hplan : classPlan.IsOf bridge c) (hc : c.WellFormed) {methodPlan : MethodPlan}
    (hmem : methodPlan ∈ classPlan.planned) {m : Method} {code moved : Code}
    (hm : c.methods[methodPlan.method]? = some m) (hcode : m.code? = some code)
    (hmoved : methodPlan.layout.IsMoved c'.pool bridge segment code moved) :
  moved.WellFormed c'.pool ∧ moved.form.length ≤ code.form.length + 2 ^ 27
    ∧ moved.length = methodPlan.layout.length
  := by
  obtain ⟨m', code', hin⟩ := isIn_of_plans hplan hc hmem
  obtain rfl := Option.some.inj (hin.method.symm.trans (by simpa using hm))
  obtain rfl := Option.some.inj (hin.body.symm.trans hcode)
  obtain ⟨first, hof⟩ := hin.isOf
  obtain ⟨room, hextends⟩ := h.extends_pool
  obtain ⟨hwf, hle⟩ := hmoved.wellFormed hof.layout hin.wellFormed hextends
  exact ⟨hwf, hle, hmoved.length_eq hof.layout hin.wellFormed.ne_nil⟩

/-- The methods of a class with probes are well formed. -/
theorem IsApplied.wellFormed_methods (h : classPlan.IsApplied bridge segment c c')
    (hplan : classPlan.IsOf bridge c) (hc : c.WellFormed) :
  ∀ m' ∈ c'.methods, m'.WellFormed c'.pool
  := by
  obtain ⟨room, hextends⟩ := h.extends_pool
  intro m' hm'
  obtain ⟨i, hi⟩ := List.mem_iff_getElem?.mp hm'
  obtain hm | ⟨methodPlan, hmem, m, code, moved, rfl, hm, hcode, rfl, hmoved⟩ :=
    h.moved.cases (by simpa using hi)
  · apply hextends.method (hc.methods m' (List.mem_of_getElem? (by simpa using hm)))
  · have hm : c.methods[methodPlan.method]? = some m := by simpa using hm
    obtain ⟨hwf, -⟩ := h.moved_wellFormed hplan hc hmem hm hcode hmoved
    apply Method.wellFormed_mapCode (hextends.method (hc.methods m (List.mem_of_getElem? hm)))
      hcode hwf

/-- A class with probes is well formed. -/
theorem IsApplied.wellFormed (h : classPlan.IsApplied bridge segment c c')
    (hplan : classPlan.IsOf bridge c) (hc : c.WellFormed) (hfits : BridgeFits bridge) :
  c'.WellFormed
  := by
  obtain ⟨room, hextends⟩ := h.extends_pool
  have hsize := h.moved.size
  have hmethods := h.wellFormed_methods hplan hc
  rw [h.eq]
  exact {
    pool := h.pool_wellFormed hfits
    name := hextends.className hc.name
    superClass := hextends.checkSuperClass hc.superClass
    interfaces_le := hc.interfaces_le
    fields_le := hc.fields_le
    fields := fun f hf => hextends.field (hc.fields f hf)
    methods_le := by
      have hle := hc.methods_le
      simp only [List.size_toArray] at hsize
      rw [hsize]
      apply hle
    methods := hmethods
    attributes_le := hc.attributes_le
    attributes := fun attr hattr => hextends.rawAttribute (hc.attributes attr hattr) }

/-- A body of a class with probes is one of the class, or one with its probes. -/
theorem IsApplied.body_cases (h : classPlan.IsApplied bridge segment c c') {m' : Method}
    {nameIndex : UInt16} {body : Code} (hm' : m' ∈ c'.methods)
    (hattr : .code nameIndex body ∈ m'.attributes) :
  (∃ m ∈ c.methods, .code nameIndex body ∈ m.attributes)
    ∨ ∃ methodPlan ∈ classPlan.planned, ∃ m code, c.methods[methodPlan.method]? = some m
      ∧ m.code? = some code ∧ methodPlan.layout.IsMoved c'.pool bridge segment code body
  := by
  obtain ⟨i, hi⟩ := List.mem_iff_getElem?.mp hm'
  obtain hm | ⟨methodPlan, hmem, m, code, moved, rfl, hm, hcode, rfl, hmoved⟩ :=
    h.moved.cases (by simpa using hi)
  · exact .inl ⟨m', List.mem_of_getElem? (by simpa using hm), hattr⟩
  · have hm : c.methods[methodPlan.method]? = some m := by simpa using hm
    obtain ⟨front, codeIndex, back, hattributes, hmapped, -⟩ :=
      Method.exists_attributes hcode fun _ => moved
    have hold : ∀ attr ∈ front ++ back, attr ∈ m.attributes := by
      intro attr hmem
      rw [hattributes, List.mem_append, List.mem_cons]
      rcases List.mem_append.mp hmem with hfront | hback
      · exact .inl hfront
      · exact .inr (.inr hback)
    rw [hmapped, List.mem_append, List.mem_cons] at hattr
    rcases hattr with hfront | hattr | hback
    · exact .inl ⟨m, List.mem_of_getElem? hm, hold _ (List.mem_append_left _ hfront)⟩
    · obtain ⟨rfl, rfl⟩ := MethodAttribute.code.inj hattr
      exact .inr ⟨methodPlan, hmem, m, code, hm, hcode, hmoved⟩
    · exact .inl ⟨m, List.mem_of_getElem? hm, hold _ (List.mem_append_right _ hback)⟩

/-- The bodies of a class with probes are short enough, for the class had no more bytes than an
array can hold. -/
theorem IsApplied.lengthsFit (h : classPlan.IsApplied bridge segment c c')
    (hplan : classPlan.IsOf bridge c) (hc : c.WellFormed) (hlength : c.form.length < 2 ^ 31) :
  c'.LengthsFit
  := by
  intro m' hm' attr hattr
  cases attr with
  | other raw => trivial
  | code nameIndex body =>
    change body.form.length < 2 ^ 32
    rcases h.body_cases hm' hattr with
      ⟨m, hm, hattr⟩ | ⟨methodPlan, hmem, m, code, hm, hcode, hmoved⟩
    · have hle := ClassFile.length_body_le hm hattr
      omega
    · obtain ⟨-, hle, -⟩ := h.moved_wellFormed hplan hc hmem hm hcode hmoved
      obtain ⟨front, codeIndex, back, hattributes, -⟩ := Method.exists_attributes hcode id
      have hle' := ClassFile.length_body_le (List.mem_of_getElem? hm)
        (hattributes ▸ List.mem_append_right front List.mem_cons_self)
      omega

/-- A planned method of a class with probes has the moved code of the method. -/
theorem IsApplied.exists_moved (h : classPlan.IsApplied bridge segment c c')
    (hplan : classPlan.IsOf bridge c) (hc : c.WellFormed) {methodPlan : MethodPlan}
    (hmem : methodPlan ∈ classPlan.planned) :
  ∃ m code moved first, c.methods[methodPlan.method]? = some m ∧ m.code? = some code
    ∧ c'.methods[methodPlan.method]? = some (m.mapCode fun _ => moved)
    ∧ (m.mapCode fun _ => moved).code? = some moved ∧ methodPlan.IsOf code first
    ∧ code.WellFormed c.pool ∧ methodPlan.layout.IsMoved c'.pool bridge segment code moved
  := by
  obtain ⟨m, code, moved, hm, hcode, hm', hmoved⟩ := h.moved.planned methodPlan hmem
  obtain ⟨-, -, -, -, -, hcode'⟩ := Method.exists_attributes hcode fun _ => moved
  obtain ⟨_, _, hin⟩ := isIn_of_plans hplan hc hmem
  obtain rfl := Option.some.inj (hin.method.symm.trans hm)
  obtain rfl := Option.some.inj (hin.body.symm.trans hcode)
  obtain ⟨first, hplanned⟩ := hin.isOf
  exact ⟨_, _, moved, first, by simpa using hm, hcode, by simpa using hm', hcode', hplanned,
    hin.wellFormed, hmoved⟩

end ClassPlan

end JvmCoverage
