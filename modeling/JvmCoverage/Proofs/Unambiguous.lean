import JvmCoverage.Proofs.Probed

/-!
# What is written is read as nothing else

The length of a body or of one of its tables may be too large for its four-byte field, and what is
written then states a length that is too small.  Still no other class is read from it: a beginning
of a body or of a table is no body and no table, so reading fails
(`ClassFile.read_form_eq_ok`).
-/

namespace JvmCoverage

namespace Reader

variable {α β : Type} {r : Reader α}

/-! ## What begins with a form -/

/-- Whether all that `r` takes off `front` with something behind it is `front`, which it reads as
`a`. -/
def Pins (r : Reader α) (front : List UInt8) (a : α) : Prop :=
  ∀ taken back rest b, r.Reads taken b → taken ++ back = front ++ rest → taken = front ∧ b = a

/-- A form is read as one thing only. -/
theorem Reads.pins {front : List UInt8} {a : α} (h : r.Reads front a) :
  r.Pins front a
  := by
  intro taken back rest b hreads heq
  have hboth := h 0 rest
  rw [← heq, hreads 0 back] at hboth
  simp only [Except.ok.injEq, Prod.mk.injEq, Cursor.mk.injEq, Nat.zero_add] at hboth
  obtain ⟨rfl, hlength, -⟩ := hboth
  exact ⟨(List.append_inj heq hlength).1, rfl⟩

/-- What is pinned is not read from a proper beginning. -/
theorem Pins.unique {front taken : List UInt8} {a b : α} (h : r.Pins front a)
    (hreads : r.Reads taken b) (hbegins : taken <+: front) :
  taken = front ∧ b = a
  := by
  obtain ⟨back, heq⟩ := hbegins
  apply h taken back [] b hreads
  rw [heq, List.append_nil]

theorem Pins.bind [IsLocal r] {f : α → Reader β} [∀ a, IsLocal (f a)] {front back : List UInt8}
    {a : α} {b : β} (hr : r.Pins front a) (hf : (f a).Pins back b) :
  (r >>= f).Pins (front ++ back) b
  := by
  intro taken behind rest b' hreads heq
  obtain ⟨a', taken₁, hreads₁, taken₂, hreads₂, rfl⟩ := reads_bind.mp hreads
  rw [List.append_assoc, List.append_assoc] at heq
  obtain ⟨rfl, rfl⟩ := hr _ _ _ _ hreads₁ heq
  obtain ⟨rfl, rfl⟩ := hf _ _ _ _ hreads₂ (List.append_cancel_left heq)
  exact ⟨rfl, rfl⟩

theorem Pins.times [IsLocal r] {form : α → List UInt8} {as : List α}
    (h : ∀ a ∈ as, r.Pins (form a) a) :
  (times as.length r).Pins (as.flatMap form) as
  := by
  induction as with
  | nil => exact (reads_pure.mpr ⟨rfl, rfl⟩).pins
  | cons a as ih =>
    obtain ⟨ha, has⟩ := List.forall_mem_cons.mp h
    rw [List.length_cons, times_succ, List.flatMap_cons, ← List.append_nil (as.flatMap form)]
    apply ha.bind
    apply (ih has).bind
    apply (reads_pure.mpr ⟨rfl, rfl⟩).pins

theorem Pins.counted [IsLocal r] {form : α → List UInt8} {as : List α}
    (hlength : as.length ≤ 65535) (h : ∀ a ∈ as, r.Pins (form a) a) :
  (counted r).Pins (Bytes.count16 as.length ++ as.flatMap form) as
  := by
  have hcount : (unsigned 2).Reads (Bytes.count16 as.length) as.length :=
    reads_unsigned.mpr ⟨by omega, rfl⟩
  apply hcount.pins.bind (Pins.times h)

/-- An attribute is pinned when its content is read from no other beginning of it. -/
theorem pins_readFramed {pool : ConstantPool}
    {content : UInt16 → List UInt8 → List UInt8 → Except DecodeError α} {nameIndex : UInt16}
    {name body : List UInt8} {a : α} (hname : pool.utf8Bytes nameIndex = .ok name)
    (hcontent : ∀ info b, content nameIndex name info = .ok b → info <+: body →
      info.length = body.length % 2 ^ 32 → info = body ∧ b = a) :
  (readFramed pool content).Pins (Code.attributeBytes nameIndex body) a
  := by
  intro taken back rest b hreads heq
  obtain ⟨⟨nameIndex', info⟩, hlength, rfl, name', hname', hb⟩ := reads_readFramed.mp hreads
  simp only [RawAttribute.form, Code.attributeBytes, List.append_assoc] at heq ⊢
  have hindex : field16.Pins (Bytes.field16 nameIndex) nameIndex := (reads_field16.mpr rfl).pins
  obtain ⟨-, rfl⟩ := hindex _ _ _ _ (reads_field16.mpr rfl) heq
  obtain ⟨hcount, heq⟩ := List.append_inj (List.append_cancel_left heq) (by simp)
  obtain rfl := Except.ok.inj (hname'.symm.trans hname)
  have hmod : info.length = body.length % 2 ^ 32 := by
    have hcounts := congrArg Bytes.ofBigEndian hcount
    have hlt : info.length < 256 ^ 4 := hlength
    rw [Bytes.count32, Bytes.count32, Bytes.ofBigEndian_bigEndian, Bytes.ofBigEndian_bigEndian,
      Nat.mod_eq_of_lt hlt] at hcounts
    apply hcounts
  have hbegins : info <+: body := by
    apply List.prefix_of_prefix_length_le ⟨back, heq⟩ ⟨rest, rfl⟩
    rw [hmod]
    apply Nat.mod_le
  obtain ⟨rfl, rfl⟩ := hcontent info b hb hbegins hmod
  exact ⟨rfl, rfl⟩

end Reader

/-! ## Bodies -/

namespace CodeAttribute

open Code Reader

/-- Whether the bytes of an attribute kept as bytes fit their field. -/
def RawFits : CodeAttribute → Prop
  | other raw => raw.info.length < 2 ^ 32
  | _ => True

/-- A table is made of no other beginning of its content. -/
theorem eq_of_readContent {b : Boundaries} {name : List UInt8} {attr attr' : CodeAttribute}
    (hfits : attr.Fits b name) (hraw : attr.RawFits) {info : List UInt8}
    (hread : readContent b name attr.nameIndex info = .ok attr') (hbegins : info <+: attr.content)
    (hlength : info.length = attr.content.length % 2 ^ 32) :
  info = attr.content ∧ attr' = attr
  := by
  have hcounted : ∀ {α : Type} {r : Reader α} [IsLocal r] {valid : α → Prop}
      {form : α → List UInt8} {make : List α → CodeAttribute} {entries : List α},
      r.HasForm valid form → (entries.length ≤ 65535 ∧ ∀ entry ∈ entries, valid entry) →
      (runAll (counted r) info).map make = .ok attr' →
      info <+: Bytes.count16 entries.length ++ entries.flatMap form →
      info = Bytes.count16 entries.length ++ entries.flatMap form := by
    intro α r _ valid form make entries hform hentries hread hbegins
    obtain ⟨entries', hentries', -⟩ := map_eq_ok.mp hread
    have hpins := (hform.counted.reads hentries).pins
    apply (hpins.unique (runAll_eq_ok.mp hentries') hbegins).1
  have hinfo : info = attr.content := by
    cases attr with
    | lineNumbers nameIndex entries =>
      obtain ⟨rfl, hentries⟩ := hfits
      rw [readContent, if_pos rfl] at hread
      apply hcounted (hasForm_readLine b) hentries hread hbegins
    | localVariables nameIndex types entries =>
      obtain ⟨rfl, hentries⟩ := hfits
      cases types with
      | false =>
        have hname : variableTable false = localVariableTable := rfl
        rw [readContent, if_neg (by decide +kernel), if_pos hname] at hread
        apply hcounted (hasForm_readVariable false b) hentries hread hbegins
      | true =>
        have hname : variableTable true = localVariableTypeTable := rfl
        rw [readContent, if_neg (by decide +kernel), if_neg (by decide +kernel), if_pos hname]
          at hread
        apply hcounted (hasForm_readVariable true b) hentries hread hbegins
    | stackMap nameIndex frames =>
      obtain ⟨rfl, hframes, -⟩ := hfits
      rw [readContent, if_neg (by decide +kernel), if_neg (by decide +kernel),
        if_neg (by decide +kernel), if_pos rfl] at hread
      obtain ⟨frames', hread, -⟩ := bind_eq_ok.mp hread
      obtain ⟨placed', hreads', -⟩ := Frame.readTable_eq_ok.mp hread
      obtain ⟨placed, hreads, -⟩ :=
        Frame.readTable_eq_ok.mp (Frame.readTable_tableForm hframes)
      apply (hreads.pins.unique hreads' hbegins).1
    | other raw =>
      apply hbegins.eq_of_length
      rw [hlength]
      apply Nat.mod_eq_of_lt hraw
  subst hinfo
  exact ⟨rfl, Except.ok.inj (hread.symm.trans (readContent_content hfits))⟩

/-- An attribute of a body is pinned. -/
theorem pins {pool : ConstantPool} {b : Boundaries} {attr : CodeAttribute}
    (h : attr.WellFormed pool b) (hraw : attr.RawFits) :
  (readAttribute pool b).Pins attr.form attr
  := by
  obtain ⟨name, hname, hfits⟩ := h
  have hframed : readAttribute pool b
      = readFramed pool fun nameIndex name info => readContent b name nameIndex info := rfl
  rw [hframed, form]
  apply pins_readFramed hname
  exact fun info attr' hread hbegins hlength =>
    eq_of_readContent hfits hraw hread hbegins hlength

end CodeAttribute

namespace Code

open Reader

/-- Whether the bytes of the attributes kept as bytes fit their fields. -/
def RawsFit (code : Code) : Prop :=
  ∀ attr ∈ code.attributes, attr.RawFits

/-- A body is pinned. -/
theorem pins {pool : ConstantPool} {code : Code} (h : code.WellFormed pool)
    (hraws : code.RawsFit) :
  (readBody pool).Pins code.form code
  := by
  have hlength : (CodeArray.form code.instructions).length = code.length := by
    have hlength := CodeArray.length_form h.instructions.tiles
    rwa [Nat.zero_add] at hlength
  have hinstructions : readInstructions.Reads
      (Bytes.count32 (CodeArray.form code.instructions).length
        ++ CodeArray.form code.instructions) (code.length, code.instructions) :=
    reads_readInstructions.mpr
      ⟨_, hlength, CodeArray.read_written h.instructions, by rw [hlength]⟩
  have htables : (readTables pool code.maxStack code.maxLocals
      (code.length, code.instructions)).Pins code.tablesForm code := by
    have hhandlers := (hasForm_readHandler (boundaries code.instructions code.length)).counted.reads
      ⟨h.handlers_le, h.handlers⟩
    have hattributes := Pins.counted h.attributes_le fun attr hattr =>
      CodeAttribute.pins (h.attributes attr hattr) (hraws attr hattr)
    rw [readTables, tablesForm]
    apply hhandlers.pins.bind
    rw [← List.append_nil (_ ++ _)]
    apply hattributes.bind
    apply (reads_pure.mpr ⟨rfl, rfl⟩).pins
  rw [readBody_eq, form]
  simp only [List.append_assoc]
  apply (reads_field16.mpr rfl).pins.bind
  apply (reads_field16.mpr rfl).pins.bind
  rw [← List.append_assoc]
  apply hinstructions.pins.bind htables

end Code

/-! ## Methods -/

/-- An attribute of a method is pinned. -/
theorem MethodAttribute.pins {pool : ConstantPool} {attr : MethodAttribute}
    (h : attr.WellFormed pool)
    (hraws : ∀ nameIndex body, attr = .code nameIndex body → body.RawsFit) :
  (ClassFile.readMethodAttribute pool).Pins attr.form attr
  := by
  rw [readMethodAttribute_eq]
  cases attr with
  | code nameIndex body =>
    obtain ⟨hname, hbody⟩ := h
    apply Reader.pins_readFramed hname
    intro info attr' hcontent hbegins _
    rw [ofContent, if_pos rfl] at hcontent
    obtain ⟨body', hread, rfl⟩ := map_eq_ok.mp hcontent
    obtain ⟨rfl, rfl⟩ := (body.pins hbody (hraws nameIndex body rfl)).unique
      (Reader.runAll_eq_ok.mp hread) hbegins
    exact ⟨rfl, rfl⟩
  | other raw =>
    obtain ⟨⟨name, hname, hne⟩, hlt⟩ := h
    apply Reader.pins_readFramed hname
    intro info attr' hcontent hbegins hlength
    rw [ofContent, if_neg hne] at hcontent
    have hinfo : info = raw.info := by
      apply hbegins.eq_of_length
      rw [hlength]
      apply Nat.mod_eq_of_lt hlt
    rw [hinfo] at hcontent
    exact ⟨hinfo, (Except.ok.inj hcontent).symm⟩

namespace Method

open Reader

/-- Whether the bytes of the attributes kept as bytes in bodies fit their fields. -/
def RawsFit (m : Method) : Prop :=
  ∀ nameIndex body, .code nameIndex body ∈ m.attributes → body.RawsFit

/-- A method is pinned. -/
theorem pins {pool : ConstantPool} {m : Method} (h : m.WellFormed pool) (hraws : m.RawsFit) :
  (ClassFile.readMethod pool).Pins m.form m
  := by
  have hattributes := Reader.Pins.counted h.attributes_le fun attr hattr =>
    MethodAttribute.pins (h.attributes attr hattr) fun nameIndex body heq =>
      hraws nameIndex body (heq ▸ hattr)
  rw [ClassFile.readMethod, form]
  simp only [List.append_assoc]
  apply (reads_field16.mpr rfl).pins.bind
  apply (reads_field16.mpr rfl).pins.bind
  apply (reads_field16.mpr rfl).pins.bind
  rw [← List.append_nil (_ ++ _)]
  apply hattributes.bind
  have hname : (lift (pool.utf8 m.nameIndex)).Reads [] m.name := reads_lift.mpr ⟨h.name, rfl⟩
  have hdescriptor : (lift (pool.utf8 m.descriptorIndex)).Reads [] m.descriptor :=
    reads_lift.mpr ⟨h.descriptor, rfl⟩
  apply hname.pins.bind
  rw [← List.append_nil []]
  apply hdescriptor.pins.bind
  apply (reads_pure.mpr ⟨rfl, rfl⟩).pins

end Method

/-! ## Classes -/

namespace ClassFile

open Reader

/-- Whether the bytes of the attributes kept as bytes in bodies fit their fields. -/
def RawsFit (c : ClassFile) : Prop :=
  ∀ m ∈ c.methods, m.RawsFit

theorem pins_readMembers {c : ClassFile} (h : c.WellFormed) (hraws : c.RawsFit) :
  (readMembers c.pool).Pins
    (Bytes.count16 c.fields.length ++ c.fields.flatMap fieldBytes
      ++ (Bytes.count16 c.methods.length ++ c.methods.flatMap Method.form
        ++ rawAttributesBytes c.attributes)) (c.fields, c.methods, c.attributes)
  := by
  have hfields := (Field.hasForm_read c.pool).counted.reads ⟨h.fields_le, h.fields⟩
  have hmethods := Pins.counted h.methods_le fun m hm => m.pins (h.methods m hm) (hraws m hm)
  have hattributes :=
    (RawAttribute.hasForm_read c.pool).counted.reads ⟨h.attributes_le, h.attributes⟩
  rw [readMembers]
  apply hfields.pins.bind
  apply hmethods.bind
  rw [rawAttributesBytes_eq, ← List.append_nil (_ ++ _)]
  apply hattributes.pins.bind
  apply (reads_pure.mpr ⟨rfl, rfl⟩).pins

theorem pins_readBehindPool {c : ClassFile} (h : c.WellFormed) {members : List UInt8}
    (hmembers : (readMembers c.pool).Pins members (c.fields, c.methods, c.attributes)) :
  (readBehindPool c.minorVersion c.majorVersion c.pool).Pins (c.indexForm ++ members) c
  := by
  have hinterfaces := hasForm_interface.counted.reads (a := c.interfaces)
    ⟨h.interfaces_le, fun _ _ => trivial⟩
  have hname : (lift (c.pool.className c.thisClass)).Reads [] c.name :=
    reads_lift.mpr ⟨h.name, rfl⟩
  have hcheck : (lift (checkSuperClass c.pool c.superClass)).Reads [] () :=
    reads_lift.mpr ⟨h.superClass, rfl⟩
  rw [readBehindPool, indexForm, List.append_assoc, List.append_assoc, List.append_assoc]
  apply (reads_field16.mpr rfl).pins.bind
  apply (reads_field16.mpr rfl).pins.bind
  apply (reads_field16.mpr rfl).pins.bind
  rw [← List.nil_append (_ ++ _)]
  apply hname.pins.bind
  rw [← List.nil_append (_ ++ _)]
  apply hcheck.pins.bind
  apply hinterfaces.pins.bind
  rw [← List.append_nil members]
  apply hmembers.bind
  apply (reads_pure.mpr ⟨rfl, rfl⟩).pins

/-- A class is pinned. -/
theorem pins {c : ClassFile} (h : c.WellFormed) (hraws : c.RawsFit) :
  readClass.Pins c.form c
  := by
  rw [readClass_eq, form_eq, versionForm, List.append_assoc, List.append_assoc]
  apply (reads_readMagic (u := ()).mpr rfl).pins.bind
  apply (reads_field16.mpr rfl).pins.bind
  apply (reads_field16.mpr rfl).pins.bind
  apply (ConstantPool.reads_toBytes h.pool).pins.bind
  apply pins_readBehindPool h (pins_readMembers h hraws)

/-- What is written for a well-formed class is read as no other class, and as this one exactly when
the lengths of its bodies fit their fields. -/
theorem read_form_eq_ok {c out : ClassFile} (h : c.WellFormed) (hraws : c.RawsFit) :
  read c.form = .ok out ↔ c.LengthsFit ∧ out = c
  := by
  constructor
  · intro hread
    obtain ⟨-, rfl⟩ :=
      (pins h hraws).unique (runAll_eq_ok.mp hread) (List.prefix_refl _)
    exact ⟨(read_form_iff h).mp hread, rfl⟩
  · rintro ⟨hlengths, rfl⟩
    apply (read_form_iff h).mpr hlengths

end ClassFile

/-! ## Classes with probes -/

namespace ClassPlan

variable {classPlan : ClassPlan} {c c' : ClassFile} {bridge : Bridge} {segment : UInt32}

/-- The attributes kept as bytes are those of the class, which had lengths that fit. -/
theorem IsApplied.rawsFit (h : classPlan.IsApplied bridge segment c c')
    (hlengths : c.LengthsFit) :
  c'.RawsFit
  := by
  intro m' hm' nameIndex body hattr attr hmem
  rcases h.body_cases hm' hattr with ⟨m, hm, hattr⟩ | ⟨methodPlan, -, m, code, -, -, hmoved⟩
  · cases attr with
    | other raw => apply Code.lengthsFit_of_lt (hlengths m hm _ hattr) _ hmem
    | _ => trivial
  · obtain ⟨-, hattributes⟩ := Layout.moveTables_eq_ok.mp hmoved.tables
    obtain ⟨attr', -, hmove⟩ := exists_of_mem_right hattributes hmem
    cases attr' with
    | other raw => cases hmove
    | _ =>
      obtain ⟨_, -, rfl⟩ := map_eq_ok.mp hmove
      trivial

/-- What is written for a class with probes is read as that class, or not at all. -/
theorem IsApplied.read_form_eq_ok {bytes : List UInt8} {out : ClassFile}
    (h : classPlan.IsApplied bridge segment c c') (hread : ClassFile.read bytes = .ok c)
    (hplan : classPlan.IsOf bridge c) (hfits : BridgeFits bridge) :
  ClassFile.read c'.form = .ok out ↔ c'.LengthsFit ∧ out = c'
  := by
  obtain ⟨hc, -⟩ := ClassFile.wellFormed_of_read hread
  apply ClassFile.read_form_eq_ok (h.wellFormed hplan hc hfits)
  apply h.rawsFit (ClassFile.lengthsFit_of_read hread)

end ClassPlan

end JvmCoverage
