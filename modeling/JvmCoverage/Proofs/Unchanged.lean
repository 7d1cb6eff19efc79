import JvmCoverage.Proofs.Bookkeeping
import JvmCoverage.Proofs.Insertion

/-!
# What probes leave as it was

All methods of a class share one pool, and plans find their methods by position.  Still a class with
probes differs from the class before in two places only: entries are added behind those of the pool,
and the first body of each planned method is another one, with tables of the same lengths
(`ClassPlan.keepsRest_of_apply`).
-/

namespace JvmCoverage

/-! ## Bodies -/

/-- Whether two attributes are the same but for the offsets in their entries. -/
inductive CodeAttribute.SameShape : CodeAttribute → CodeAttribute → Prop where
  | lineNumbers (nameIndex : UInt16) {entries entries' : List LineEntry}
      (h : entries'.length = entries.length) :
    SameShape (.lineNumbers nameIndex entries) (.lineNumbers nameIndex entries')
  | localVariables (nameIndex : UInt16) (types : Bool) {entries entries' : List LocalVariable}
      (h : entries'.length = entries.length) :
    SameShape (.localVariables nameIndex types entries) (.localVariables nameIndex types entries')
  | stackMap (nameIndex : UInt16) {frames frames' : List Frame}
      (h : frames'.length = frames.length) :
    SameShape (.stackMap nameIndex frames) (.stackMap nameIndex frames')

/-- An attribute is moved entry by entry. -/
theorem Layout.sameShape_of_moveAttribute {layout : Layout} {attr attr' : CodeAttribute}
    (h : layout.moveAttribute attr = .ok attr') :
  attr.SameShape attr'
  := by
  cases attr with
  | lineNumbers nameIndex entries =>
    obtain ⟨entries', hentries, rfl⟩ := map_eq_ok.mp h
    exact .lineNumbers nameIndex (mapM_eq_ok.mp hentries).length_eq.symm
  | localVariables nameIndex types entries =>
    obtain ⟨entries', hentries, rfl⟩ := map_eq_ok.mp h
    exact .localVariables nameIndex types (mapM_eq_ok.mp hentries).length_eq.symm
  | stackMap nameIndex frames =>
    obtain ⟨frames', hframes, rfl⟩ := map_eq_ok.mp h
    exact .stackMap nameIndex (mapM_eq_ok.mp hframes).length_eq.symm
  | other raw => cases h

/-- Whether `moved` needs what `code` needs and room for a probe, and has tables of the same
lengths. -/
structure Code.KeepsRest (code moved : Code) : Prop where
  maxLocals : moved.maxLocals = code.maxLocals
  maxStack : moved.maxStack.toNat = code.maxStack.toNat + 2
  handlers : moved.handlers.length = code.handlers.length
  attributes : List.Forall₂ CodeAttribute.SameShape code.attributes moved.attributes

/-- A body with probes needs two more slots on its stack, for which there is room. -/
theorem Layout.IsMoved.keepsRest {layout : Layout} {pool : ConstantPool} {bridge : Bridge}
    {segment : UInt32} {code moved : Code} (h : layout.IsMoved pool bridge segment code moved)
    (hroom : code.maxStack.toNat + Probe.operands ≤ PlannedMethod.maxOperands) :
  code.KeepsRest moved
  := by
  obtain ⟨hhandlers, hattributes⟩ := moveTables_eq_ok.mp h.tables
  have htwo : Probe.operands = 2 := rfl
  have hmax : PlannedMethod.maxOperands = 65535 := rfl
  exact {
    maxLocals := h.maxLocals
    maxStack := by
      rw [h.maxStack, htwo, UInt16.toNat_add]
      apply Nat.mod_eq_of_lt
      change code.maxStack.toNat + 2 < 65536
      omega
    handlers := hhandlers.length_eq.symm
    attributes := hattributes.imp fun _ _ hmove => sameShape_of_moveAttribute hmove }

/-! ## Methods -/

/-- Whether the methods are the same but for their first bodies. -/
structure Method.DiffersInBody (m m' : Method) (code moved : Code) : Prop where
  eq : m' = { m with attributes := m'.attributes }
  attributes : ∃ front nameIndex back, m.attributes = front ++ .code nameIndex code :: back
    ∧ m'.attributes = front ++ .code nameIndex moved :: back
    ∧ ∀ attr ∈ front, ∃ raw, attr = .other raw

/-- The body of a method stands behind attributes that are no bodies. -/
theorem Method.exists_front {m : Method} {code : Code} (h : m.code? = some code) :
  ∃ front nameIndex back, m.attributes = front ++ .code nameIndex code :: back
    ∧ ∀ attr ∈ front, ∃ raw, attr = .other raw
  := by
  obtain ⟨front, attr, back, hattributes, hcode, hfront⟩ := List.findSome?_eq_some_iff.mp h
  cases attr with
  | other raw => cases hcode
  | code nameIndex body =>
    obtain rfl := Option.some.inj hcode
    refine ⟨front, nameIndex, back, hattributes, ?_⟩
    intro attr hattr
    have hnone := hfront attr hattr
    cases attr with
    | code nameIndex body => cases hnone
    | other raw => exact ⟨raw, rfl⟩

/-- Attributes in front of the first body stay. -/
theorem Method.mapCode_go (f : Code → Code) {front : List MethodAttribute}
    (hfront : ∀ attr ∈ front, ∃ raw, attr = .other raw) (nameIndex : UInt16) (code : Code)
    (back : List MethodAttribute) :
  mapCode.go f (front ++ .code nameIndex code :: back) = front ++ .code nameIndex (f code) :: back
  := by
  induction front with
  | nil => rfl
  | cons attr front ih =>
    obtain ⟨⟨raw, rfl⟩, hrest⟩ := List.forall_mem_cons.mp hfront
    exact congrArg (MethodAttribute.other raw :: ·) (ih hrest)

/-- A method with another body differs in its first body only. -/
theorem Method.differsInBody_mapCode {m : Method} {code : Code} (h : m.code? = some code)
    (moved : Code) :
  m.DiffersInBody (m.mapCode fun _ => moved) code moved
  := by
  obtain ⟨front, nameIndex, back, hattributes, hfront⟩ := exists_front h
  refine ⟨rfl, front, nameIndex, back, hattributes, ?_, hfront⟩
  rw [mapCode, hattributes]
  apply mapCode_go _ hfront

/-! ## Classes -/

namespace ClassPlan

variable {plan : ClassPlan} {c c' : ClassFile} {segment : UInt32}

/-- Whether `c'` differs from `c` only in entries behind those of the pool and in the bodies of the
planned methods. -/
structure KeepsRest (plan : ClassPlan) (c c' : ClassFile) : Prop where
  /-- Version, flags, names, interfaces, fields and attributes are the same. -/
  eq : c' = { c with pool := c'.pool, methods := c'.methods }
  pool : ∀ (i : Nat) (entry : Constant), c.pool.entries[i]? = some entry →
    c'.pool.entries[i]? = some entry
  count : c'.methods.length = c.methods.length
  others : ∀ i : Nat, (∀ methodPlan ∈ plan.planned, methodPlan.method ≠ i) →
    c'.methods[i]? = c.methods[i]?
  skipped : ∀ (i : Nat) (record : MethodRecord), plan.methods[i]? = some record →
    record.status ≠ .instrumented → c'.methods[i]? = c.methods[i]?
  planned : ∀ methodPlan ∈ plan.planned, ∃ m m' code moved,
    c.methods[methodPlan.method]? = some m ∧ c'.methods[methodPlan.method]? = some m'
      ∧ m.DiffersInBody m' code moved ∧ code.KeepsRest moved

/-- Putting probes into a class that was read changes nothing but what they need. -/
theorem keepsRest_of_apply {bytes : List UInt8} {policy : Policy}
    (hread : ClassFile.read bytes = .ok c) (hplan : ofClass policy c = .ok plan)
    (happly : plan.apply segment c = .ok c') :
  plan.KeepsRest c c'
  := by
  obtain ⟨hc, hof⟩ := isOf_of_read hread hplan
  have happlied := (apply_spec hof hc).1 c' happly
  have hothers : ∀ i : Nat, (∀ methodPlan ∈ plan.planned, methodPlan.method ≠ i) →
      c'.methods[i]? = c.methods[i]? := by
    intro i hne
    simpa using happlied.moved.others i hne
  exact {
    eq := happlied.eq
    pool := by
      obtain ⟨room, hextends⟩ := happlied.extends_pool
      exact hextends.getElem?
    count := by simpa using happlied.moved.size
    others := hothers
    skipped := by
      intro i record hrecord hstatus
      apply hothers
      intro methodPlan hmem hmethod
      apply hstatus
      exact ((keepsBooks_of_ofClass hplan hc).planned_iff i record hrecord).mpr
        ⟨methodPlan, hmem, hmethod⟩
    planned := by
      intro methodPlan hmem
      obtain ⟨m, code, moved, hm, hcode, hm', hmoved⟩ := happlied.moved.planned methodPlan hmem
      obtain ⟨_, _, hin⟩ := isIn_of_plans hof hc hmem
      obtain rfl := Option.some.inj (hin.method.symm.trans hm)
      obtain rfl := Option.some.inj (hin.body.symm.trans hcode)
      obtain ⟨first, hplanned⟩ := hin.isOf
      exact ⟨_, _, _, moved, by simpa using hm, by simpa using hm',
        Method.differsInBody_mapCode hcode moved, hmoved.keepsRest hplanned.room⟩ }

/-- The class with a jump keeps all but its one body. -/
theorem keepsRest_jumpClass :
  ∃ plan c', ofClass {} ClassFile.jumpClass = .ok plan ∧ plan.planned ≠ []
    ∧ plan.apply 0 ClassFile.jumpClass = .ok c' ∧ plan.KeepsRest ClassFile.jumpClass c'
  := by
  obtain ⟨plan, c', hplan, hne, happly⟩ := exists_probed_jumpClass
  exact ⟨plan, c', hplan, hne, happly,
    keepsRest_of_apply ClassFile.read_form_jumpClass hplan happly⟩

end ClassPlan

end JvmCoverage
