import JvmCoverage.Proofs.Body
import JvmCoverage.Proofs.Pool

/-!
# Reading and writing classes

A class that was read is written, what is written is read back as the same class, and it is not
longer than what was read.  Switch padding and the tags of frames are the only parts of a class
with several forms: with zeros for padding and with short frames, what is written is what was read
(`ClassFile.toBytes_of_read`).
-/

namespace JvmCoverage

open Reader

/-- Attributes kept as bytes have their forms behind their number. -/
theorem rawAttributesBytes_eq (attributes : List RawAttribute) :
  ClassFile.rawAttributesBytes attributes
    = Bytes.count16 attributes.length ++ attributes.flatMap RawAttribute.form
  := rfl

/-! ## Fields -/

namespace Field

/-- Whether the attributes of a field can be read. -/
def WellFormed (pool : ConstantPool) (f : Field) : Prop :=
  f.attributes.length ≤ 65535 ∧ ∀ attr ∈ f.attributes, attr.WellFormed pool

instance (pool : ConstantPool) : IsLocal (ClassFile.readField pool) := by
  rw [ClassFile.readField]
  infer_instance

/-- A field has one form. -/
theorem hasForm_read (pool : ConstantPool) :
  (ClassFile.readField pool).HasForm (WellFormed pool) ClassFile.fieldBytes
  := by
  rintro taken ⟨accessFlags, nameIndex, descriptorIndex, attributes⟩
  simp only [ClassFile.readField, reads_bind, reads_field16, reads_pure,
    (RawAttribute.hasForm_read pool).counted _ _, Field.mk.injEq]
  constructor
  · rintro ⟨_, _, rfl, _, ⟨_, _, rfl, _, ⟨_, _, rfl, _, ⟨_, _, ⟨hattributes, rfl⟩, _,
      ⟨⟨rfl, rfl, rfl, rfl⟩, rfl⟩, rfl⟩, rfl⟩, rfl⟩, rfl⟩
    use hattributes
    simp [ClassFile.fieldBytes, rawAttributesBytes_eq]
  · rintro ⟨hattributes, rfl⟩
    refine ⟨accessFlags, _, rfl, _, ⟨nameIndex, _, rfl, _, ⟨descriptorIndex, _, rfl, _,
      ⟨attributes, _, ⟨hattributes, rfl⟩, [], ⟨⟨rfl, rfl, rfl, rfl⟩, rfl⟩, rfl⟩, rfl⟩, rfl⟩, ?_⟩
    simp [ClassFile.fieldBytes, rawAttributesBytes_eq]

end Field

/-! ## Attributes of methods -/

namespace MethodAttribute

/-- The name of the attribute that holds a body. -/
def codeName : List UInt8 := Text.Utf8.encode "Code"

/-- Makes an attribute of a method of its name and content. -/
def ofContent (pool : ConstantPool) (nameIndex : UInt16) (name info : List UInt8) :
    Except DecodeError MethodAttribute :=
  if name = codeName then code nameIndex <$> Code.read pool info else .ok (.other ⟨nameIndex, info⟩)

theorem readMethodAttribute_eq (pool : ConstantPool) :
  ClassFile.readMethodAttribute pool = readFramed pool (ofContent pool)
  := by
  have hcontent : ∀ nameIndex name info,
      (if name = codeName then (code nameIndex <$> lift (Code.read pool info))
        else return other ⟨nameIndex, info⟩ : Reader MethodAttribute)
        = lift (ofContent pool nameIndex name info) := by
    intro nameIndex name info
    rw [ofContent]
    split
    · cases Code.read pool info <;> rfl
    · rfl
  simp only [ClassFile.readMethodAttribute, readFramed, ← hcontent]
  rfl

instance (pool : ConstantPool) : IsLocal (ClassFile.readMethodAttribute pool) := by
  rw [readMethodAttribute_eq]
  infer_instance

/-- Whether the parts of the attribute agree. -/
def WellFormed (pool : ConstantPool) : MethodAttribute → Prop
  | code nameIndex body => pool.utf8Bytes nameIndex = .ok codeName ∧ body.WellFormed pool
  | other raw =>
    (∃ name, pool.utf8Bytes raw.nameIndex = .ok name ∧ name ≠ codeName)
      ∧ raw.info.length < 2 ^ 32

/-- Whether the length of a body fits its field. -/
def LengthFits : MethodAttribute → Prop
  | code _ body => body.form.length < 2 ^ 32
  | other _ => True

/-- The form that is written. -/
def form : MethodAttribute → List UInt8
  | code nameIndex body => Code.attributeBytes nameIndex body.form
  | other raw => raw.form

/-- A body is shorter than the attribute that it is written in. -/
theorem lengthFits_of_lt {attr : MethodAttribute} (h : attr.form.length < 2 ^ 32) :
  attr.LengthFits
  := by
  cases attr with
  | code nameIndex body =>
    simp only [form, Code.attributeBytes, List.length_append] at h
    rw [LengthFits]
    omega
  | other raw => trivial

/-- Whether an attribute kept as bytes holds no body, or one in which every padding byte is zero
and every frame is short. -/
def IsNormal (pool : ConstantPool) (raw : RawAttribute) : Prop :=
  pool.utf8Bytes raw.nameIndex = .ok codeName →
    ∀ outline, runAll (Code.readOutline pool) raw.info = .ok outline → outline.IsNormal pool

/-- An attribute of a method is written when its body is. -/
theorem normalizes_read (pool : ConstantPool) :
  (ClassFile.readMethodAttribute pool).Normalizes
    (fun attr => attr.WellFormed pool ∧ attr.LengthFits) form
    (ClassFile.readRawAttribute pool) (IsNormal pool)
  where
    reads_form attr hattr := by
      rw [readMethodAttribute_eq, reads_readFramed]
      cases attr with
      | code nameIndex body =>
        obtain ⟨⟨hname, hbody⟩, hlength⟩ := hattr
        have hread : Code.read pool body.form = .ok body :=
          runAll_eq_ok.mpr ((Code.normalizes_readBody pool).reads_form body
            ⟨hbody, Code.lengthsFit_of_lt hlength⟩)
        refine ⟨⟨nameIndex, body.form⟩, hlength, rfl, codeName, hname, ?_⟩
        rw [ofContent, if_pos rfl, hread]
        rfl
      | other raw =>
        obtain ⟨⟨⟨name, hname, hne⟩, hlength⟩, -⟩ := hattr
        exact ⟨raw, hlength, rfl, name, hname, if_neg hne⟩
    valid_of_reads taken attr hreads := by
      rw [readMethodAttribute_eq, reads_readFramed] at hreads
      obtain ⟨raw, hlength, -, name, hname, hcontent⟩ := hreads
      unfold ofContent at hcontent
      split at hcontent
      · rename_i hcode
        obtain ⟨body, hbody, rfl⟩ := map_eq_ok.mp hcontent
        have hreads := runAll_eq_ok.mp hbody
        refine ⟨⟨hcode ▸ hname, ((Code.normalizes_readBody pool).valid_of_reads _ _ hreads).1⟩, ?_⟩
        apply ((Code.normalizes_readBody pool).length_le _ _ hreads).trans_lt hlength
      · rename_i hcode
        cases hcontent
        exact ⟨⟨⟨name, hname, hcode⟩, hlength⟩, trivial⟩
    length_le taken attr hreads := by
      rw [readMethodAttribute_eq, reads_readFramed] at hreads
      obtain ⟨raw, -, rfl, name, -, hcontent⟩ := hreads
      unfold ofContent at hcontent
      split at hcontent
      · obtain ⟨body, hbody, rfl⟩ := map_eq_ok.mp hcontent
        have hle := (Code.normalizes_readBody pool).length_le _ _ (runAll_eq_ok.mp hbody)
        simpa [form, RawAttribute.form, Code.attributeBytes] using hle
      · cases hcontent
        exact le_rfl
    eq_form taken attr hreads := by
      rw [readMethodAttribute_eq, reads_readFramed] at hreads
      obtain ⟨raw, hlength, rfl, name, hname, hcontent⟩ := hreads
      refine ⟨raw, (RawAttribute.hasForm_read pool).reads ⟨⟨name, hname⟩, hlength⟩, ?_⟩
      intro hnormal
      unfold ofContent at hcontent
      split at hcontent
      · rename_i hcode
        obtain ⟨body, hbody, rfl⟩ := map_eq_ok.mp hcontent
        obtain ⟨outline, houtline, heq⟩ :=
          (Code.normalizes_readBody pool).eq_form _ _ (runAll_eq_ok.mp hbody)
        have hbodyNormal := hnormal (hcode ▸ hname) outline (runAll_eq_ok.mpr houtline)
        rw [RawAttribute.form, heq hbodyNormal, form]
      · cases hcontent
        rfl

end MethodAttribute

/-! ## Methods -/

namespace Method

/-- Whether the parts of a method agree. -/
structure WellFormed (pool : ConstantPool) (m : Method) : Prop where
  name : pool.utf8 m.nameIndex = .ok m.name
  descriptor : pool.utf8 m.descriptorIndex = .ok m.descriptor
  attributes_le : m.attributes.length ≤ 65535
  attributes : ∀ attr ∈ m.attributes, attr.WellFormed pool

/-- A method that has nothing but a body is well formed when the body is. -/
theorem wellFormed_of_body {pool : ConstantPool} {m : Method} {nameIndex : UInt16} {body : Code}
    (hname : pool.utf8 m.nameIndex = .ok m.name)
    (hdescriptor : pool.utf8 m.descriptorIndex = .ok m.descriptor)
    (hattributes : m.attributes = [.code nameIndex body])
    (hcode : pool.utf8Bytes nameIndex = .ok MethodAttribute.codeName)
    (hbody : body.WellFormed pool) :
  m.WellFormed pool
  := by
  use hname, hdescriptor, by simp [hattributes]
  intro attr hattr
  rw [hattributes, List.mem_singleton] at hattr
  subst hattr
  exact ⟨hcode, hbody⟩

/-- Whether the lengths of the bodies fit their fields. -/
def LengthsFit (m : Method) : Prop :=
  ∀ attr ∈ m.attributes, attr.LengthFits

/-- The form that is written. -/
def form (m : Method) : List UInt8 :=
  Bytes.field16 m.accessFlags ++ Bytes.field16 m.nameIndex ++ Bytes.field16 m.descriptorIndex
    ++ Bytes.count16 m.attributes.length ++ m.attributes.flatMap MethodAttribute.form

instance (pool : ConstantPool) : IsLocal (ClassFile.readMethod pool) := by
  rw [ClassFile.readMethod]
  infer_instance

/-- A method is read from its attributes behind three indices. -/
theorem reads_readMethod {pool : ConstantPool} {taken : List UInt8} {m : Method} :
  (ClassFile.readMethod pool).Reads taken m
    ↔ pool.utf8 m.nameIndex = .ok m.name ∧ pool.utf8 m.descriptorIndex = .ok m.descriptor
      ∧ ∃ back, (counted (ClassFile.readMethodAttribute pool)).Reads back m.attributes
        ∧ taken = Bytes.field16 m.accessFlags ++ Bytes.field16 m.nameIndex
          ++ Bytes.field16 m.descriptorIndex ++ back
  := by
  obtain ⟨accessFlags, nameIndex, descriptorIndex, name, descriptor, attributes⟩ := m
  simp only [ClassFile.readMethod, reads_bind, reads_field16, reads_lift, reads_pure,
    Method.mk.injEq]
  constructor
  · rintro ⟨_, _, rfl, _, ⟨_, _, rfl, _, ⟨_, _, rfl, _, ⟨_, back, hback, _, ⟨_, _, ⟨hname, rfl⟩, _,
      ⟨_, _, ⟨hdescriptor, rfl⟩, _, ⟨⟨rfl, rfl, rfl, rfl, rfl, rfl⟩, rfl⟩, rfl⟩, rfl⟩, rfl⟩, rfl⟩,
      rfl⟩, rfl⟩
    exact ⟨hname, hdescriptor, back, hback, by simp⟩
  · rintro ⟨hname, hdescriptor, back, hback, rfl⟩
    exact ⟨accessFlags, _, rfl, _, ⟨nameIndex, _, rfl, _, ⟨descriptorIndex, _, rfl, _,
      ⟨attributes, back, hback, [], ⟨name, [], ⟨hname, rfl⟩, [], ⟨descriptor, [],
      ⟨hdescriptor, rfl⟩, [], ⟨⟨rfl, rfl, rfl, rfl, rfl, rfl⟩, rfl⟩, rfl⟩, rfl⟩, rfl⟩, rfl⟩, rfl⟩,
      by simp⟩

/-- Reads the attributes of a method as bytes. -/
def readOutline (pool : ConstantPool) : Reader (List RawAttribute) := do
  let _ ← take 6
  counted (ClassFile.readRawAttribute pool)

instance (pool : ConstantPool) : IsLocal (readOutline pool) := by
  rw [readOutline]
  infer_instance

/-- A method is written when its attributes are. -/
theorem normalizes_read (pool : ConstantPool) :
  (ClassFile.readMethod pool).Normalizes (fun m => m.WellFormed pool ∧ m.LengthsFit) form
    (readOutline pool) (fun raws => ∀ raw ∈ raws, MethodAttribute.IsNormal pool raw)
  where
    reads_form m h := by
      obtain ⟨hm, hlengths⟩ := h
      have hattributes := (MethodAttribute.normalizes_read pool).counted.reads_form m.attributes
        ⟨hm.attributes_le, fun attr hattr => ⟨hm.attributes attr hattr, hlengths attr hattr⟩⟩
      refine reads_readMethod.mpr ⟨hm.name, hm.descriptor, _, hattributes, ?_⟩
      simp [form]
    valid_of_reads taken m hreads := by
      obtain ⟨hname, hdescriptor, back, hback, -⟩ := reads_readMethod.mp hreads
      obtain ⟨hle, hattributes⟩ :=
        (MethodAttribute.normalizes_read pool).counted.valid_of_reads _ _ hback
      exact ⟨⟨hname, hdescriptor, hle, fun attr hattr => (hattributes attr hattr).1⟩,
        fun attr hattr => (hattributes attr hattr).2⟩
    length_le taken m hreads := by
      obtain ⟨-, -, back, hback, rfl⟩ := reads_readMethod.mp hreads
      have hle := (MethodAttribute.normalizes_read pool).counted.length_le _ _ hback
      simp only [form, List.length_append] at hle ⊢
      omega
    eq_form taken m hreads := by
      obtain ⟨-, -, back, hback, rfl⟩ := reads_readMethod.mp hreads
      obtain ⟨raws, hraws, heq⟩ :=
        (MethodAttribute.normalizes_read pool).counted.eq_form _ _ hback
      have hfields : (take 6).Reads (Bytes.field16 m.accessFlags ++ Bytes.field16 m.nameIndex
          ++ Bytes.field16 m.descriptorIndex) _ := reads_take.mpr ⟨rfl, by simp⟩
      use raws, hfields.bind hraws
      intro hnormal
      rw [heq hnormal, form]
      simp

end Method

/-! ## Classes -/

namespace ClassFile

/-- Whether the parts of a class agree. -/
structure WellFormed (c : ClassFile) : Prop where
  pool : c.pool.WellFormed
  name : c.pool.className c.thisClass = .ok c.name
  superClass : checkSuperClass c.pool c.superClass = .ok ()
  interfaces_le : c.interfaces.length ≤ 65535
  fields_le : c.fields.length ≤ 65535
  fields : ∀ f ∈ c.fields, f.WellFormed c.pool
  methods_le : c.methods.length ≤ 65535
  methods : ∀ m ∈ c.methods, m.WellFormed c.pool
  attributes_le : c.attributes.length ≤ 65535
  attributes : ∀ attr ∈ c.attributes, attr.WellFormed c.pool

/-- Whether the lengths of the bodies fit their fields. -/
def LengthsFit (c : ClassFile) : Prop :=
  ∀ m ∈ c.methods, m.LengthsFit

theorem lengthsFit_of_forms {c : ClassFile}
    (h : ∀ m ∈ c.methods, ∀ attr ∈ m.attributes, attr.form.length < 2 ^ 32) :
  c.LengthsFit
  := fun m hm attr hattr => MethodAttribute.lengthFits_of_lt (h m hm attr hattr)

/-- The form that is written. -/
def form (c : ClassFile) : List UInt8 :=
  c.headerBytes
    ++ (Bytes.count16 c.fields.length ++ (c.fields.flatMap fieldBytes
      ++ (Bytes.count16 c.methods.length ++ (c.methods.flatMap Method.form
        ++ rawAttributesBytes c.attributes))))

instance : IsLocal readMagic := by
  rw [readMagic]
  infer_instance

theorem hasForm_interface :
  field16.HasForm (fun _ => True) Bytes.field16
  := by
  intro taken index
  rw [reads_field16, true_and]

theorem reads_readMagic {taken : List UInt8} {u : Unit} :
  readMagic.Reads taken u ↔ taken = Bytes.field32 magic
  := by
  simp only [readMagic, reads_bind, reads_field32, reads_ite_else_throw, reads_pure]
  constructor
  · rintro ⟨_, _, rfl, _, ⟨rfl, -, rfl⟩, rfl⟩
    rw [List.append_nil]
  · rintro rfl
    exact ⟨magic, _, rfl, [], ⟨rfl, trivial, rfl⟩, (List.append_nil _).symm⟩

/-- Reads what follows the header of a class. -/
def readMembers (pool : ConstantPool) :
    Reader (List Field × List Method × List RawAttribute) := do
  let fields ← counted (readField pool)
  let methods ← counted (readMethod pool)
  let attributes ← counted (readRawAttribute pool)
  return (fields, methods, attributes)

/-- Reads what follows the pool of a class. -/
def readBehindPool (minorVersion majorVersion : UInt16) (pool : ConstantPool) :
    Reader ClassFile := do
  let accessFlags ← field16
  let thisClass ← field16
  let superClass ← field16
  let name ← lift (pool.className thisClass)
  lift (checkSuperClass pool superClass)
  let interfaces ← counted field16
  let (fields, methods, attributes) ← readMembers pool
  return {
    minorVersion, majorVersion, pool, accessFlags, thisClass, superClass, interfaces, fields,
    methods, attributes, name := name }

theorem readClass_eq :
  readClass = (do
    readMagic
    let minorVersion ← field16
    let majorVersion ← field16
    let pool ← ConstantPool.read
    readBehindPool minorVersion majorVersion pool)
  := by
  simp only [readClass, readBehindPool, readMembers, bind_assoc, pure_bind]

instance (pool : ConstantPool) : IsLocal (readMembers pool) := by
  rw [readMembers]
  infer_instance

instance (minorVersion majorVersion : UInt16) (pool : ConstantPool) :
    IsLocal (readBehindPool minorVersion majorVersion pool) := by
  rw [readBehindPool]
  infer_instance

instance : IsLocal readClass := by
  rw [readClass_eq]
  infer_instance

theorem reads_readMembers {pool : ConstantPool} {taken : List UInt8} {fields : List Field}
    {methods : List Method} {attributes : List RawAttribute} :
  (readMembers pool).Reads taken (fields, methods, attributes)
    ↔ ∃ fieldPart, (counted (readField pool)).Reads fieldPart fields
      ∧ ∃ methodPart, (counted (readMethod pool)).Reads methodPart methods
      ∧ ∃ attributePart, (counted (readRawAttribute pool)).Reads attributePart attributes
      ∧ taken = fieldPart ++ (methodPart ++ attributePart)
  := by
  simp only [readMembers, reads_bind, reads_pure, Prod.mk.injEq]
  constructor
  · rintro ⟨_, fieldPart, hfields, _, ⟨_, methodPart, hmethods, _, ⟨_, attributePart, hattributes,
      _, ⟨⟨rfl, rfl, rfl⟩, rfl⟩, rfl⟩, rfl⟩, rfl⟩
    exact ⟨fieldPart, hfields, methodPart, hmethods, attributePart, hattributes, by simp⟩
  · rintro ⟨fieldPart, hfields, methodPart, hmethods, attributePart, hattributes, rfl⟩
    exact ⟨fields, fieldPart, hfields, _, ⟨methods, methodPart, hmethods, _, ⟨attributes,
      attributePart, hattributes, [], ⟨⟨rfl, rfl, rfl⟩, rfl⟩, rfl⟩, rfl⟩, by simp⟩

/-- The bytes between the pool and the fields of a class. -/
def indexForm (c : ClassFile) : List UInt8 :=
  Bytes.field16 c.accessFlags ++ (Bytes.field16 c.thisClass ++ (Bytes.field16 c.superClass
    ++ (Bytes.count16 c.interfaces.length ++ c.interfaces.flatMap Bytes.field16)))

theorem of_reads_behindPool {minorVersion majorVersion : UInt16} {pool : ConstantPool}
    {taken : List UInt8} {c : ClassFile}
    (h : (readBehindPool minorVersion majorVersion pool).Reads taken c) :
  (c.minorVersion = minorVersion ∧ c.majorVersion = majorVersion ∧ c.pool = pool)
    ∧ pool.className c.thisClass = .ok c.name ∧ checkSuperClass pool c.superClass = .ok ()
    ∧ c.interfaces.length ≤ 65535
    ∧ ∃ members, (readMembers pool).Reads members (c.fields, c.methods, c.attributes)
      ∧ taken = c.indexForm ++ members
  := by
  obtain ⟨_, _, haccess, _, h1, rfl⟩ := reads_bind.mp h
  obtain ⟨_, _, hthis, _, h2, rfl⟩ := reads_bind.mp h1
  obtain ⟨_, _, hsuper, _, h3, rfl⟩ := reads_bind.mp h2
  obtain ⟨_, _, hname, _, h4, rfl⟩ := reads_bind.mp h3
  obtain ⟨_, _, hcheck, _, h5, rfl⟩ := reads_bind.mp h4
  obtain ⟨_, _, hinterfaces, _, h6, rfl⟩ := reads_bind.mp h5
  obtain ⟨⟨fields, methods, attributes⟩, members, hmembers, _, h7, rfl⟩ := reads_bind.mp h6
  obtain ⟨rfl, rfl⟩ := reads_pure.mp h7
  obtain ⟨hnameOk, rfl⟩ := reads_lift.mp hname
  obtain ⟨hcheckOk, rfl⟩ := reads_lift.mp hcheck
  obtain ⟨⟨hlength, -⟩, rfl⟩ := (hasForm_interface.counted _ _).mp hinterfaces
  rw [reads_field16] at haccess hthis hsuper
  refine ⟨⟨rfl, rfl, rfl⟩, hnameOk, hcheckOk, hlength, members, hmembers, ?_⟩
  simp [indexForm, haccess, hthis, hsuper]

theorem reads_behindPool {c : ClassFile} {members : List UInt8}
    (hname : c.pool.className c.thisClass = .ok c.name)
    (hcheck : checkSuperClass c.pool c.superClass = .ok ())
    (hinterfaces : c.interfaces.length ≤ 65535)
    (hmembers : (readMembers c.pool).Reads members (c.fields, c.methods, c.attributes)) :
  (readBehindPool c.minorVersion c.majorVersion c.pool).Reads (c.indexForm ++ members) c
  := by
  have hcounted := hasForm_interface.counted.reads (a := c.interfaces)
    ⟨hinterfaces, fun _ _ => trivial⟩
  have h : (readBehindPool c.minorVersion c.majorVersion c.pool).Reads _ c :=
    (reads_field16.mpr rfl).bind ((reads_field16.mpr rfl).bind ((reads_field16.mpr rfl).bind
      ((reads_lift.mpr ⟨hname, rfl⟩).bind ((reads_lift.mpr ⟨hcheck, rfl⟩).bind (hcounted.bind
        (hmembers.bind (reads_pure.mpr ⟨rfl, rfl⟩)))))))
  simpa [indexForm] using h

/-- The bytes in front of the pool of a class. -/
def versionForm (c : ClassFile) : List UInt8 :=
  Bytes.field32 magic ++ (Bytes.field16 c.minorVersion ++ Bytes.field16 c.majorVersion)

theorem form_eq (c : ClassFile) :
  c.form = c.versionForm ++ (c.pool.toBytes ++ (c.indexForm
    ++ (Bytes.count16 c.fields.length ++ c.fields.flatMap fieldBytes
      ++ (Bytes.count16 c.methods.length ++ c.methods.flatMap Method.form
        ++ rawAttributesBytes c.attributes))))
  := by
  simp [form, headerBytes, versionForm, indexForm]

/-- A class is read from its parts. -/
theorem of_reads_class {taken : List UInt8} {c : ClassFile} (h : readClass.Reads taken c) :
  ∃ pool, ConstantPool.read.Reads pool c.pool
    ∧ c.pool.className c.thisClass = .ok c.name ∧ checkSuperClass c.pool c.superClass = .ok ()
    ∧ c.interfaces.length ≤ 65535
    ∧ ∃ members, (readMembers c.pool).Reads members (c.fields, c.methods, c.attributes)
      ∧ taken = c.versionForm ++ (pool ++ (c.indexForm ++ members))
  := by
  rw [readClass_eq] at h
  obtain ⟨_, _, hmagic, _, h1, rfl⟩ := reads_bind.mp h
  obtain ⟨_, _, hminor, _, h2, rfl⟩ := reads_bind.mp h1
  obtain ⟨_, _, hmajor, _, h3, rfl⟩ := reads_bind.mp h2
  obtain ⟨pool, poolPart, hpool, _, h4, rfl⟩ := reads_bind.mp h3
  obtain ⟨⟨rfl, rfl, rfl⟩, hname, hcheck, hinterfaces, members, hmembers, rfl⟩ :=
    of_reads_behindPool h4
  rw [reads_field16] at hminor hmajor
  use poolPart, hpool, hname, hcheck, hinterfaces, members, hmembers
  simp [versionForm, reads_readMagic.mp hmagic, hminor, hmajor]

theorem reads_class {c : ClassFile} {members : List UInt8} (hpool : c.pool.WellFormed)
    (hname : c.pool.className c.thisClass = .ok c.name)
    (hcheck : checkSuperClass c.pool c.superClass = .ok ())
    (hinterfaces : c.interfaces.length ≤ 65535)
    (hmembers : (readMembers c.pool).Reads members (c.fields, c.methods, c.attributes)) :
  readClass.Reads (c.versionForm ++ (c.pool.toBytes ++ (c.indexForm ++ members))) c
  := by
  rw [readClass_eq, versionForm, List.append_assoc, List.append_assoc]
  apply (reads_readMagic (u := ()).mpr rfl).bind
  apply (reads_field16.mpr rfl).bind
  apply (reads_field16.mpr rfl).bind
  apply (ConstantPool.reads_toBytes hpool).bind
  apply reads_behindPool hname hcheck hinterfaces hmembers

/-- A pool that holds the name of a class has more than the first slot. -/
theorem one_lt_count {pool : ConstantPool} {index : UInt16} {name : String}
    (hwf : pool.WellFormed) (h : pool.className index = .ok name) :
  1 < pool.count
  := by
  obtain ⟨constants, -, hentries⟩ := hwf.layOut
  have hcount := (ConstantPool.toBytes_eq hentries).1
  cases constants with
  | cons c constants =>
    have hpos := ConstantPool.length_layOut_pos c constants
    omega
  | nil =>
    have hget : pool.get? index = none := by
      rw [ConstantPool.get?, ← Array.getElem?_toList, hentries]
      cases index.toNat <;> rfl
    rw [ConstantPool.className, hget] at h
    cases h

/-- A class with well-formed methods is written. -/
theorem toBytes_of_methods {c : ClassFile} (h : ∀ m ∈ c.methods, m.WellFormed c.pool) :
  c.toBytes = .ok c.form
  := by
  have hattribute : ∀ m ∈ c.methods, ∀ attr ∈ m.attributes,
      methodAttributeBytes (c.location m) attr = .ok attr.form := by
    intro m hm attr hattr
    have hwf := (h m hm).attributes attr hattr
    cases attr with
    | code nameIndex body =>
      rw [methodAttributeBytes, Code.toBytes_eq hwf.2]
      rfl
    | other raw => rfl
  have hmethod : ∀ m ∈ c.methods, c.methodBytes m = .ok m.form := by
    intro m hm
    rw [methodBytes, mapM_eq_map (hattribute m hm)]
    rfl
  rw [toBytes, mapM_eq_map hmethod]
  rfl

/-- A well-formed class is written. -/
theorem toBytes_eq {c : ClassFile} (h : c.WellFormed) :
  c.toBytes = .ok c.form
  := toBytes_of_methods h.methods

/-! ## What decides the form -/

/-- Reads the interfaces and members of a class and keeps the attributes of its methods as
bytes. -/
def readMethodOutlines (pool : ConstantPool) : Reader (List (List RawAttribute)) := do
  let _ ← counted field16
  let _ ← counted (readField pool)
  let methods ← counted (Method.readOutline pool)
  let _ ← counted (readRawAttribute pool)
  return methods

/-- Reads a class and keeps its pool and the attributes of its methods as bytes. -/
def readOutline : Reader (ConstantPool × List (List RawAttribute)) := do
  let _ ← take 8
  let pool ← ConstantPool.read
  let _ ← take 6
  let methods ← readMethodOutlines pool
  return (pool, methods)

instance (pool : ConstantPool) : IsLocal (readMethodOutlines pool) := by
  rw [readMethodOutlines]
  infer_instance

instance : IsLocal readOutline := by
  rw [readOutline]
  infer_instance

/-- Whether in every body each padding byte is zero and each frame is short. -/
def IsNormal (outline : ConstantPool × List (List RawAttribute)) : Prop :=
  ∀ raws ∈ outline.2, ∀ raw ∈ raws, MethodAttribute.IsNormal outline.1 raw

theorem length_versionForm (c : ClassFile) :
  c.versionForm.length = 8
  := by
  simp [versionForm]

/-- A class is written when its bodies are. -/
theorem normalizes_read :
  readClass.Normalizes (fun c => c.WellFormed ∧ c.LengthsFit) form readOutline IsNormal
  where
    reads_form c hc := by
      obtain ⟨h, hlengths⟩ := hc
      have hmembers : (readMembers c.pool).Reads _ (c.fields, c.methods, c.attributes) :=
        reads_readMembers.mpr ⟨_, (Field.hasForm_read c.pool).counted.reads ⟨h.fields_le, h.fields⟩,
          _, (Method.normalizes_read c.pool).counted.reads_form _
            ⟨h.methods_le, fun m hm => ⟨h.methods m hm, hlengths m hm⟩⟩,
          _, (RawAttribute.hasForm_read c.pool).counted.reads ⟨h.attributes_le, h.attributes⟩, rfl⟩
      rw [form_eq]
      apply reads_class h.pool h.name h.superClass h.interfaces_le hmembers
    valid_of_reads taken c hreads := by
      obtain ⟨poolPart, hpool, hname, hcheck, hinterfaces, members, hmembers, -⟩ :=
        of_reads_class hreads
      obtain ⟨_, hfields, _, hmethods, _, hattributes, -⟩ := reads_readMembers.mp hmembers
      obtain ⟨⟨hfieldsLe, hfields⟩, -⟩ := ((Field.hasForm_read c.pool).counted _ _).mp hfields
      obtain ⟨hmethodsLe, hmethods⟩ :=
        (Method.normalizes_read c.pool).counted.valid_of_reads _ _ hmethods
      obtain ⟨⟨hattributesLe, hattributes⟩, -⟩ :=
        ((RawAttribute.hasForm_read c.pool).counted _ _).mp hattributes
      exact ⟨⟨(ConstantPool.of_reads hpool).1, hname, hcheck, hinterfaces, hfieldsLe, hfields,
        hmethodsLe, fun m hm => (hmethods m hm).1, hattributesLe, hattributes⟩,
        fun m hm => (hmethods m hm).2⟩
    length_le taken c hreads := by
      obtain ⟨poolPart, hpool, hname, -, -, members, hmembers, rfl⟩ := of_reads_class hreads
      obtain ⟨hwf, hpoolPart⟩ := ConstantPool.of_reads hpool
      obtain rfl := hpoolPart (one_lt_count hwf hname)
      obtain ⟨_, hfields, _, hmethods, _, hattributes, rfl⟩ := reads_readMembers.mp hmembers
      obtain ⟨-, rfl⟩ := ((Field.hasForm_read c.pool).counted _ _).mp hfields
      obtain ⟨-, rfl⟩ := ((RawAttribute.hasForm_read c.pool).counted _ _).mp hattributes
      have hle := (Method.normalizes_read c.pool).counted.length_le _ _ hmethods
      simp only [form_eq, rawAttributesBytes_eq, List.length_append] at hle ⊢
      omega
    eq_form taken c hreads := by
      obtain ⟨poolPart, hpool, hname, -, hinterfaces, members, hmembers, rfl⟩ :=
        of_reads_class hreads
      obtain ⟨hwf, hpoolPart⟩ := ConstantPool.of_reads hpool
      obtain rfl := hpoolPart (one_lt_count hwf hname)
      obtain ⟨_, hfields, _, hmethods, _, hattributes, rfl⟩ := reads_readMembers.mp hmembers
      obtain ⟨hfieldsValid, rfl⟩ := ((Field.hasForm_read c.pool).counted _ _).mp hfields
      obtain ⟨hattributesValid, rfl⟩ :=
        ((RawAttribute.hasForm_read c.pool).counted _ _).mp hattributes
      obtain ⟨outlines, houtlines, heq⟩ :=
        (Method.normalizes_read c.pool).counted.eq_form _ _ hmethods
      refine ⟨(c.pool, outlines), ?_, ?_⟩
      · have hfieldPart := (Field.hasForm_read c.pool).counted.reads hfieldsValid
        have hattributePart := (RawAttribute.hasForm_read c.pool).counted.reads hattributesValid
        have hmembers : (readMethodOutlines c.pool).Reads _ outlines :=
          (hasForm_interface.counted.reads ⟨hinterfaces, fun _ _ => trivial⟩).bind
            (hfieldPart.bind (houtlines.bind (hattributePart.bind (reads_pure.mpr ⟨rfl, rfl⟩))))
        have hversion : (take 8).Reads c.versionForm _ := reads_take.mpr ⟨rfl, length_versionForm c⟩
        have hindices : (take 6).Reads (Bytes.field16 c.accessFlags ++ Bytes.field16 c.thisClass
            ++ Bytes.field16 c.superClass) _ := reads_take.mpr ⟨rfl, by simp⟩
        have houtline : readOutline.Reads _ (c.pool, outlines) :=
          hversion.bind ((ConstantPool.reads_toBytes hwf).bind (hindices.bind (hmembers.bind
            (reads_pure.mpr ⟨rfl, rfl⟩))))
        simpa [indexForm] using houtline
      · intro hnormal
        rw [form_eq, heq hnormal, rawAttributesBytes_eq]

/-- Whether `body` is what is left as bytes of the body of a method in the class `bytes`. -/
def HasBody (bytes : List UInt8) (pool : ConstantPool) (body : Code.Outline) : Prop :=
  ∃ methods, runAll readOutline bytes = .ok (pool, methods)
    ∧ ∃ raws ∈ methods, ∃ raw ∈ raws, pool.utf8Bytes raw.nameIndex = .ok MethodAttribute.codeName
      ∧ runAll (Code.readOutline pool) raw.info = .ok body

/-- Whether every byte of padding in front of the tables of a switch is zero. -/
def HasZeroPadding (bytes : List UInt8) : Prop :=
  ∀ pool body, HasBody bytes pool body →
    ∀ instructions, CodeArray.read body.array = .ok instructions →
      CodeArray.HasZeroPadding body.array instructions

/-- Whether every frame with the same locals at a distance up to 63 has a tag that holds the
distance. -/
def HasShortFrames (bytes : List UInt8) : Prop :=
  ∀ pool body, HasBody bytes pool body → ∀ raw ∈ body.attributes, CodeAttribute.IsShort pool raw

/-- Of a class that is read the bodies can be read as bytes. -/
theorem exists_outline {bytes : List UInt8} {c : ClassFile} (h : read bytes = .ok c) :
  ∃ outline, runAll readOutline bytes = .ok outline
  := by
  obtain ⟨outline, houtline, -⟩ := normalizes_read.eq_form _ _ (runAll_eq_ok.mp h)
  exact ⟨outline, runAll_eq_ok.mpr houtline⟩

/-- A class that was read is written as bytes that are read back as the same class, that are not
longer than what was read, and that are the same when the padding is zero and the frames are
short. -/
theorem toBytes_of_read {bytes : List UInt8} {c : ClassFile} (h : read bytes = .ok c) :
  ∃ written, c.toBytes = .ok written ∧ read written = .ok c ∧ written.length ≤ bytes.length
    ∧ (HasZeroPadding bytes → HasShortFrames bytes → written = bytes)
  := by
  have hreads := runAll_eq_ok.mp h
  have hvalid := normalizes_read.valid_of_reads _ _ hreads
  refine ⟨c.form, toBytes_eq hvalid.1, runAll_eq_ok.mpr (normalizes_read.reads_form c hvalid),
    normalizes_read.length_le _ _ hreads, ?_⟩
  intro hpadding hframes
  obtain ⟨⟨pool, methods⟩, houtline, heq⟩ := normalizes_read.eq_form _ _ hreads
  symm
  apply heq
  intro raws hraws raw hraw hname outline hbody
  have hhas : HasBody bytes pool outline :=
    ⟨methods, runAll_eq_ok.mpr houtline, raws, hraws, raw, hraw, hname, hbody⟩
  exact ⟨hpadding pool outline hhas, hframes pool outline hhas⟩

/-- A class that was read is well formed, and written within the length of what was read. -/
theorem wellFormed_of_read {bytes : List UInt8} {c : ClassFile} (h : read bytes = .ok c) :
  c.WellFormed ∧ c.form.length ≤ bytes.length
  := by
  have hreads := runAll_eq_ok.mp h
  exact ⟨(normalizes_read.valid_of_reads _ _ hreads).1, normalizes_read.length_le _ _ hreads⟩

/-- The lengths of the bodies of a class that was read fit. -/
theorem lengthsFit_of_read {bytes : List UInt8} {c : ClassFile} (h : read bytes = .ok c) :
  c.LengthsFit
  := (normalizes_read.valid_of_reads _ _ (runAll_eq_ok.mp h)).2

/-- What is written for a well-formed class is read back exactly when the lengths of its bodies
fit their fields. -/
theorem read_form_iff {c : ClassFile} (h : c.WellFormed) :
  read c.form = .ok c ↔ c.LengthsFit
  := by
  constructor
  · exact lengthsFit_of_read
  · exact fun hlengths => runAll_eq_ok.mpr (normalizes_read.reads_form c ⟨h, hlengths⟩)

/-! ## A class with a jump -/

/-- A body that jumps to its last instruction. -/
def jumpBody : Code where
  maxStack := 1
  maxLocals := 0
  instructions := [⟨0, .plain 0x03 []⟩, ⟨1, .switch Opcode.tableswitch 20 (.table 0 [20])⟩,
    ⟨20, .methodReturn 0xb1⟩]
  handlers := [⟨0, 1, 20, 0⟩]
  attributes := [.stackMap 6 [⟨20, .same⟩]]

/-- A method with the body `jumpBody`. -/
def jumpMethod : Method := ⟨9, 3, 4, "f", "()V", [.code 5 jumpBody]⟩

/-- A class with the method `jumpMethod`. -/
def jumpClass : ClassFile where
  minorVersion := 0
  majorVersion := 61
  pool := ⟨#[.unusable, .utf8 [65], .classRef 1, .utf8 [102], .utf8 [40, 41, 86],
    .utf8 MethodAttribute.codeName, .utf8 Code.stackMapTable]⟩
  accessFlags := 0x21
  thisClass := 2
  superClass := 0
  interfaces := []
  fields := []
  methods := [jumpMethod]
  attributes := []
  name := "A"

theorem wellFormed_jumpBody :
  jumpBody.WellFormed jumpClass.pool
  where
    instructions := by decide +kernel
    handlers_le := by decide
    handlers := by
      simp only [Code.handlerFits_boundaries]
      decide
    attributes_le := by decide
    attributes := by
      intro attr hattr
      obtain rfl := List.mem_singleton.mp hattr
      refine ⟨Code.stackMapTable, rfl, rfl, ⟨by simp [Frame.Ordered], by decide, ?_⟩, ?_⟩
      · simp [Frame.gaps, Frame.gap, FrameShape.Valid]
      · simp [Code.isStart_boundaries, jumpBody]

theorem read_form_jumpBody :
  Code.read jumpClass.pool jumpBody.form = .ok jumpBody
  := Code.read_form wellFormed_jumpBody (Code.lengthsFit_of_lt (by decide +kernel))

theorem wellFormed_jumpClass :
  jumpClass.WellFormed
  where
    pool := ⟨⟨jumpClass.pool.entries.toList.tail, by decide, by decide +kernel⟩, by decide,
      by decide +kernel⟩
    name := by decide +kernel
    superClass := by decide +kernel
    interfaces_le := by decide
    fields_le := by decide
    fields := by simp [jumpClass]
    methods_le := by decide
    methods := by
      intro m hm
      obtain rfl := List.mem_singleton.mp hm
      exact Method.wellFormed_of_body (by decide +kernel) (by decide +kernel) rfl rfl
        wellFormed_jumpBody
    attributes_le := by decide
    attributes := by simp [jumpClass]

theorem read_form_jumpClass :
  read jumpClass.form = .ok jumpClass
  := (read_form_iff wellFormed_jumpClass).mpr (lengthsFit_of_forms (by decide +kernel))

theorem toBytes_of_read_jumpClass :
  read jumpClass.form = .ok jumpClass
    ∧ ∃ written, jumpClass.toBytes = .ok written ∧ read written = .ok jumpClass
      ∧ written.length ≤ jumpClass.form.length
  := by
  obtain ⟨written, hwrite, hreadBack, hle, -⟩ := toBytes_of_read read_form_jumpClass
  exact ⟨read_form_jumpClass, written, hwrite, hreadBack, hle⟩

end ClassFile

end JvmCoverage
