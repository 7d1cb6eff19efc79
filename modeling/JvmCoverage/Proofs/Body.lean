import JvmCoverage.ClassFile.Format
import JvmCoverage.Proofs.CodeArray
import JvmCoverage.Proofs.Frame

/-!
# The forms of method bodies

A body is read from its parts: the code array, the handlers and the attributes, each of which
has to keep to the boundaries between instructions.  `Code.form` is the form that is written
(`Code.toBytes_eq`); it is read back (`Code.read_form`), and it is the form that was read when
the padding in the code array is zero and the frames are short (`Code.of_read`).
-/

namespace JvmCoverage

open Reader

/-! ## Attributes kept as bytes -/

namespace RawAttribute

/-- Whether the name is a text and the length of the content fits its field. -/
def WellFormed (pool : ConstantPool) (attr : RawAttribute) : Prop :=
  (∃ name, pool.utf8Bytes attr.nameIndex = .ok name) ∧ attr.info.length < 2 ^ 32

/-- The form of an attribute. -/
def form (attr : RawAttribute) : List UInt8 :=
  Code.attributeBytes attr.nameIndex attr.info

instance (pool : ConstantPool) : IsLocal (ClassFile.readRawAttribute pool) := by
  rw [ClassFile.readRawAttribute]
  infer_instance

/-- An attribute kept as bytes has one form. -/
theorem hasForm_read (pool : ConstantPool) :
  (ClassFile.readRawAttribute pool).HasForm (WellFormed pool) form
  := by
  rintro taken ⟨nameIndex, info⟩
  simp only [ClassFile.readRawAttribute, reads_bind, reads_field16, reads_lift, reads_unsigned,
    reads_take, reads_pure, RawAttribute.mk.injEq, WellFormed, form, Code.attributeBytes]
  constructor
  · rintro ⟨_, _, rfl, _, ⟨name, _, ⟨hname, rfl⟩, _, ⟨length, _, ⟨hlength, rfl⟩, _,
      ⟨_, _, ⟨rfl, rfl⟩, _, ⟨⟨rfl, rfl⟩, rfl⟩, rfl⟩, rfl⟩, rfl⟩, rfl⟩
    refine ⟨⟨⟨name, hname⟩, hlength⟩, ?_⟩
    simp [Bytes.count32]
  · rintro ⟨⟨⟨name, hname⟩, hlength⟩, rfl⟩
    refine ⟨nameIndex, _, rfl, _, ⟨name, [], ⟨hname, rfl⟩, _, ⟨info.length, _, ⟨hlength, rfl⟩, _,
      ⟨info, info, ⟨rfl, rfl⟩, [], ⟨⟨rfl, rfl⟩, rfl⟩, rfl⟩, rfl⟩, rfl⟩, ?_⟩
    simp [Bytes.count32]

end RawAttribute

/-- Reads the parts of an attribute and makes something of the name and the content. -/
def readFramed {α : Type} (pool : ConstantPool)
    (content : UInt16 → List UInt8 → List UInt8 → Except DecodeError α) : Reader α := do
  let nameIndex ← field16
  let length ← unsigned 4
  let info ← take length
  let name ← lift (pool.utf8Bytes nameIndex)
  lift (content nameIndex name info)

instance {α : Type} (pool : ConstantPool)
    (content : UInt16 → List UInt8 → List UInt8 → Except DecodeError α) :
    IsLocal (readFramed pool content) := by
  rw [readFramed]
  infer_instance

/-- What is made of an attribute is made of its bytes. -/
theorem reads_readFramed {α : Type} {pool : ConstantPool}
    {content : UInt16 → List UInt8 → List UInt8 → Except DecodeError α} {taken : List UInt8}
    {a : α} :
  (readFramed pool content).Reads taken a
    ↔ ∃ raw : RawAttribute, raw.info.length < 2 ^ 32 ∧ taken = raw.form
      ∧ ∃ name, pool.utf8Bytes raw.nameIndex = .ok name
        ∧ content raw.nameIndex name raw.info = .ok a
  := by
  simp only [readFramed, reads_bind, reads_field16, reads_lift, reads_unsigned, reads_take,
    RawAttribute.form, Code.attributeBytes]
  constructor
  · rintro ⟨nameIndex, _, rfl, _, ⟨_, _, ⟨hlength, rfl⟩, _, ⟨info, _, ⟨rfl, rfl⟩, _,
      ⟨name, _, ⟨hname, rfl⟩, _, ⟨ha, rfl⟩, rfl⟩, rfl⟩, rfl⟩, rfl⟩
    refine ⟨⟨nameIndex, _⟩, hlength, ?_, name, hname, ha⟩
    simp [Bytes.count32]
  · rintro ⟨⟨nameIndex, info⟩, hlength, rfl, name, hname, ha⟩
    refine ⟨nameIndex, _, rfl, _, ⟨info.length, _, ⟨hlength, rfl⟩, _, ⟨info, info, ⟨rfl, rfl⟩, [],
      ⟨name, [], ⟨hname, rfl⟩, [], ⟨ha, rfl⟩, rfl⟩, rfl⟩, rfl⟩, ?_⟩
    simp [Bytes.count32]

namespace Code

/-! ## Tables of offsets -/

theorem offsetBytes_eq {role : OffsetRole} {value : Nat} (h : value ≤ 65535) :
  offsetBytes role value = .ok (Bytes.count16 value)
  := if_pos h

theorem countedBytes_eq {α : Type} {f : α → Except EncodeFault (List UInt8)}
    {form : α → List UInt8} {items : List α} (h : ∀ item ∈ items, f item = .ok (form item)) :
  countedBytes f items = .ok (Bytes.count16 items.length ++ items.flatMap form)
  := by
  rw [countedBytes, mapM_eq_map h, List.flatMap]
  rfl

/-- Whether a line entry can stand in code with the given boundaries. -/
def LineFits (b : Boundaries) (entry : LineEntry) : Prop :=
  entry.start ≤ 65535 ∧ b.isStart entry.start

def lineForm (entry : LineEntry) : List UInt8 :=
  Bytes.count16 entry.start ++ Bytes.field16 entry.line

instance (b : Boundaries) : IsLocal (readLine b) := by
  rw [readLine]
  infer_instance

theorem hasForm_readLine (b : Boundaries) :
  (readLine b).HasForm (LineFits b) lineForm
  := by
  rintro taken ⟨start, line⟩
  simp only [readLine, reads_bind, reads_unsigned, reads_field16, reads_ite_else_throw, reads_pure,
    LineEntry.mk.injEq, LineFits, lineForm]
  constructor
  · rintro ⟨_, _, ⟨hstart, rfl⟩, _, ⟨_, _, rfl, _, ⟨hb, ⟨rfl, rfl⟩, rfl⟩, rfl⟩, rfl⟩
    exact ⟨⟨Nat.le_of_lt_succ hstart, hb⟩, by simp [Bytes.count16]⟩
  · rintro ⟨⟨hstart, hb⟩, rfl⟩
    exact ⟨start, _, ⟨Nat.lt_succ_of_le hstart, rfl⟩, _, ⟨line, _, rfl, [], ⟨hb, ⟨rfl, rfl⟩, rfl⟩,
      rfl⟩, by simp [Bytes.count16]⟩

theorem lineBytes_eq {b : Boundaries} {entry : LineEntry} (h : LineFits b entry) :
  lineBytes entry = .ok (lineForm entry)
  := by
  rw [lineBytes, offsetBytes_eq h.1]
  rfl

theorem length_flatMap_lineForm (entries : List LineEntry) :
  (entries.flatMap lineForm).length = 4 * entries.length
  := by
  simp [List.length_flatMap, lineForm, Nat.mul_comm]

/-- Whether a local variable can stand in code with the given boundaries. -/
def VariableFits (b : Boundaries) (v : LocalVariable) : Prop :=
  (v.start ≤ 65535 ∧ v.length ≤ 65535) ∧ (b.isStart v.start && b.isLimit (v.start + v.length))

def variableForm (v : LocalVariable) : List UInt8 :=
  Bytes.count16 v.start ++ Bytes.count16 v.length ++ Bytes.field16 v.nameIndex
    ++ Bytes.field16 v.descriptorIndex ++ Bytes.field16 v.slot

instance (types : Bool) (b : Boundaries) : IsLocal (readVariable types b) := by
  rw [readVariable]
  infer_instance

theorem hasForm_readVariable (types : Bool) (b : Boundaries) :
  (readVariable types b).HasForm (VariableFits b) variableForm
  := by
  rintro taken ⟨start, length, nameIndex, descriptorIndex, slot⟩
  simp only [readVariable, reads_bind, reads_unsigned, reads_field16, reads_ite_else_throw,
    reads_pure, LocalVariable.mk.injEq, VariableFits, variableForm]
  constructor
  · rintro ⟨_, _, ⟨hstart, rfl⟩, _, ⟨_, _, ⟨hlength, rfl⟩, _, ⟨_, _, rfl, _, ⟨_, _, rfl, _,
      ⟨_, _, rfl, _, ⟨hb, ⟨rfl, rfl, rfl, rfl, rfl⟩, rfl⟩, rfl⟩, rfl⟩, rfl⟩, rfl⟩, rfl⟩
    exact ⟨⟨⟨Nat.le_of_lt_succ hstart, Nat.le_of_lt_succ hlength⟩, hb⟩, by simp [Bytes.count16]⟩
  · rintro ⟨⟨⟨hstart, hlength⟩, hb⟩, rfl⟩
    exact ⟨start, _, ⟨Nat.lt_succ_of_le hstart, rfl⟩, _, ⟨length, _,
      ⟨Nat.lt_succ_of_le hlength, rfl⟩, _, ⟨nameIndex, _, rfl, _, ⟨descriptorIndex, _, rfl, _,
      ⟨slot, _, rfl, [], ⟨hb, ⟨rfl, rfl, rfl, rfl, rfl⟩, rfl⟩, rfl⟩, rfl⟩, rfl⟩, rfl⟩,
      by simp [Bytes.count16]⟩

theorem variableBytes_eq {b : Boundaries} {v : LocalVariable} (h : VariableFits b v) :
  variableBytes v = .ok (variableForm v)
  := by
  rw [variableBytes, offsetBytes_eq h.1.1, offsetBytes_eq h.1.2]
  rfl

theorem length_flatMap_variableForm (entries : List LocalVariable) :
  (entries.flatMap variableForm).length = 10 * entries.length
  := by
  simp [List.length_flatMap, variableForm, Nat.mul_comm]

/-- Whether an exception handler can stand in code with the given boundaries. -/
def HandlerFits (b : Boundaries) (h : ExceptionHandler) : Prop :=
  (h.start ≤ 65535 ∧ h.limit ≤ 65535 ∧ h.handler ≤ 65535)
    ∧ (h.start < h.limit && b.isStart h.start && b.isLimit h.limit && b.isStart h.handler)

def handlerForm (h : ExceptionHandler) : List UInt8 :=
  Bytes.count16 h.start ++ Bytes.count16 h.limit ++ Bytes.count16 h.handler
    ++ Bytes.field16 h.catchType

instance (b : Boundaries) : IsLocal (readHandler b) := by
  rw [readHandler]
  infer_instance

theorem hasForm_readHandler (b : Boundaries) :
  (readHandler b).HasForm (HandlerFits b) handlerForm
  := by
  rintro taken ⟨start, limit, handler, catchType⟩
  simp only [readHandler, reads_bind, reads_unsigned, reads_field16, reads_ite_else_throw,
    reads_pure, ExceptionHandler.mk.injEq, HandlerFits, handlerForm]
  constructor
  · rintro ⟨_, _, ⟨hstart, rfl⟩, _, ⟨_, _, ⟨hlimit, rfl⟩, _, ⟨_, _, ⟨hhandler, rfl⟩, _,
      ⟨_, _, rfl, _, ⟨hb, ⟨rfl, rfl, rfl, rfl⟩, rfl⟩, rfl⟩, rfl⟩, rfl⟩, rfl⟩
    exact ⟨⟨⟨Nat.le_of_lt_succ hstart, Nat.le_of_lt_succ hlimit, Nat.le_of_lt_succ hhandler⟩, hb⟩,
      by simp [Bytes.count16]⟩
  · rintro ⟨⟨⟨hstart, hlimit, hhandler⟩, hb⟩, rfl⟩
    exact ⟨start, _, ⟨Nat.lt_succ_of_le hstart, rfl⟩, _, ⟨limit, _,
      ⟨Nat.lt_succ_of_le hlimit, rfl⟩, _, ⟨handler, _, ⟨Nat.lt_succ_of_le hhandler, rfl⟩, _,
      ⟨catchType, _, rfl, [], ⟨hb, ⟨rfl, rfl, rfl, rfl⟩, rfl⟩, rfl⟩, rfl⟩, rfl⟩,
      by simp [Bytes.count16]⟩

theorem handlerBytes_eq {b : Boundaries} {h : ExceptionHandler} (hfits : HandlerFits b h) :
  handlerBytes h = .ok (handlerForm h)
  := by
  obtain ⟨⟨hstart, hlimit, hhandler⟩, -⟩ := hfits
  rw [handlerBytes, offsetBytes_eq hstart, offsetBytes_eq hlimit, offsetBytes_eq hhandler]
  rfl

end Code

/-! ## Attributes of bodies -/

namespace CodeAttribute

open Code

/-- The slot of the name of the attribute. -/
def nameIndex : CodeAttribute → UInt16
  | lineNumbers nameIndex _ => nameIndex
  | localVariables nameIndex _ _ => nameIndex
  | stackMap nameIndex _ => nameIndex
  | other raw => raw.nameIndex

/-- The content that is written. -/
def content : CodeAttribute → List UInt8
  | lineNumbers _ entries => Bytes.count16 entries.length ++ entries.flatMap lineForm
  | localVariables _ _ entries => Bytes.count16 entries.length ++ entries.flatMap variableForm
  | stackMap _ frames => Frame.tableForm frames
  | other raw => raw.info

/-- The form that is written. -/
def form (attr : CodeAttribute) : List UInt8 :=
  attributeBytes attr.nameIndex attr.content

/-- The name of a table of local variables. -/
def variableTable (types : Bool) : List UInt8 :=
  if types then localVariableTypeTable else localVariableTable

/-- Whether the attribute is one of code with the given boundaries by the name `name`. -/
def Fits (b : Boundaries) (name : List UInt8) : CodeAttribute → Prop
  | lineNumbers _ entries =>
    name = lineNumberTable ∧ entries.length ≤ 65535 ∧ ∀ entry ∈ entries, LineFits b entry
  | localVariables _ types entries =>
    name = variableTable types ∧ entries.length ≤ 65535 ∧ ∀ v ∈ entries, VariableFits b v
  | stackMap _ frames =>
    name = stackMapTable ∧ Frame.WellFormed frames ∧ ∀ frame ∈ frames, b.isStart frame.offset
  | other _ =>
    name ≠ lineNumberTable ∧ name ≠ localVariableTable ∧ name ≠ localVariableTypeTable
      ∧ name ≠ stackMapTable

/-- Whether the attribute can stand in a body with the given boundaries. -/
def WellFormed (pool : ConstantPool) (b : Boundaries) (attr : CodeAttribute) : Prop :=
  ∃ name, pool.utf8Bytes attr.nameIndex = .ok name ∧ attr.Fits b name

/-- Whether the length of the content fits its field. -/
def LengthFits (attr : CodeAttribute) : Prop :=
  attr.content.length < 2 ^ 32

theorem readContent_content {b : Boundaries} {name : List UInt8} {attr : CodeAttribute}
    (h : attr.Fits b name) :
  readContent b name attr.nameIndex attr.content = .ok attr
  := by
  cases attr with
  | lineNumbers nameIndex entries =>
    obtain ⟨rfl, hentries⟩ := h
    have hread : runAll (counted (readLine b)) (content (lineNumbers nameIndex entries))
        = .ok entries := runAll_eq_ok.mpr ((hasForm_readLine b).counted.reads hentries)
    rw [readContent, if_pos rfl, hread]
    rfl
  | localVariables nameIndex types entries =>
    obtain ⟨rfl, hentries⟩ := h
    have hread : runAll (counted (readVariable types b))
        (content (localVariables nameIndex types entries)) = .ok entries :=
      runAll_eq_ok.mpr ((hasForm_readVariable types b).counted.reads hentries)
    cases types with
    | false =>
      have hname : variableTable false = localVariableTable := rfl
      rw [readContent, if_neg (by decide +kernel), if_pos hname, hread]
      rfl
    | true =>
      have hname : variableTable true = localVariableTypeTable := rfl
      rw [readContent, if_neg (by decide +kernel), if_neg (by decide +kernel), if_pos hname, hread]
      rfl
  | stackMap nameIndex frames =>
    obtain ⟨rfl, hframes, hstarts⟩ := h
    have hfind : frames.find? (fun frame => !b.isStart frame.offset) = none := by
      simpa using hstarts
    rw [readContent, if_neg (by decide +kernel), if_neg (by decide +kernel),
      if_neg (by decide +kernel), if_pos rfl, content, Frame.readTable_tableForm hframes]
    simp only [bind, Except.bind, hfind]
    rfl
  | other raw =>
    obtain ⟨hline, hvariable, htype, hframe⟩ := h
    rw [readContent, if_neg hline, if_neg hvariable, if_neg htype, if_neg hframe]
    rfl

/-- A content that is a counted list is made of the list. -/
theorem of_counted {α : Type} {r : Reader α} [IsLocal r] {valid : α → Prop}
    {form : α → List UInt8} (hr : r.HasForm valid form) {info : List UInt8}
    {make : List α → CodeAttribute} {attr : CodeAttribute}
    (h : (runAll (counted r) info).map make = .ok attr) :
  ∃ entries, attr = make entries ∧ (entries.length ≤ 65535 ∧ ∀ entry ∈ entries, valid entry)
    ∧ info = Bytes.count16 entries.length ++ entries.flatMap form
  := by
  obtain ⟨entries, hentries, rfl⟩ := map_eq_ok.mp h
  obtain ⟨hvalid, hinfo⟩ := (hr.counted info entries).mp (runAll_eq_ok.mp hentries)
  exact ⟨entries, rfl, hvalid, hinfo⟩

/-- What is made of a content fits, and its own content is the one it was made of when that is no
table of frames or one of short frames. -/
theorem of_readContent {b : Boundaries} {name : List UInt8} {nameIndex : UInt16}
    {info : List UInt8} {attr : CodeAttribute} (h : readContent b name nameIndex info = .ok attr) :
  attr.Fits b name ∧ attr.nameIndex = nameIndex ∧ attr.content.length ≤ info.length
    ∧ ((name = stackMapTable → Frame.IsShortTable info) → info = attr.content)
  := by
  unfold readContent at h
  split at h
  · rename_i hname
    obtain ⟨entries, rfl, hentries, rfl⟩ := of_counted (hasForm_readLine b) h
    exact ⟨⟨hname, hentries⟩, rfl, le_rfl, fun _ => rfl⟩
  rename_i hline
  split at h
  · rename_i hname
    obtain ⟨entries, rfl, hentries, rfl⟩ := of_counted (hasForm_readVariable false b) h
    exact ⟨⟨hname, hentries⟩, rfl, le_rfl, fun _ => rfl⟩
  rename_i hvariable
  split at h
  · rename_i hname
    obtain ⟨entries, rfl, hentries, rfl⟩ := of_counted (hasForm_readVariable true b) h
    exact ⟨⟨hname, hentries⟩, rfl, le_rfl, fun _ => rfl⟩
  rename_i htype
  split at h
  · rename_i hname
    obtain ⟨frames, hread, h⟩ := bind_eq_ok.mp h
    obtain ⟨hframes, hle, heq⟩ := Frame.of_readTable hread
    split at h
    · cases h
    · rename_i hfind
      obtain rfl := pure_eq_ok.mp h
      refine ⟨⟨hname, hframes, ?_⟩, rfl, hle, fun hshort => heq (hshort hname)⟩
      simpa using hfind
  · rename_i hframe
    cases h
    exact ⟨⟨hline, hvariable, htype, hframe⟩, rfl, le_rfl, fun _ => rfl⟩

instance (pool : ConstantPool) (b : Boundaries) : IsLocal (readAttribute pool b) := by
  rw [readAttribute]
  infer_instance

theorem reads_readAttribute {pool : ConstantPool} {b : Boundaries} {taken : List UInt8}
    {attr : CodeAttribute} :
  (readAttribute pool b).Reads taken attr
    ↔ ∃ raw : RawAttribute, raw.info.length < 2 ^ 32 ∧ taken = raw.form
      ∧ ∃ name, pool.utf8Bytes raw.nameIndex = .ok name
        ∧ readContent b name raw.nameIndex raw.info = .ok attr
  := by
  have hframed : readAttribute pool b
      = readFramed pool fun nameIndex name info => readContent b name nameIndex info := rfl
  rw [hframed, reads_readFramed]

/-- Whether an attribute kept as bytes is no table of frames or one of short frames. -/
def IsShort (pool : ConstantPool) (raw : RawAttribute) : Prop :=
  pool.utf8Bytes raw.nameIndex = .ok stackMapTable → Frame.IsShortTable raw.info

theorem length_form_le {raw : RawAttribute} {attr : CodeAttribute}
    (h : attr.content.length ≤ raw.info.length) :
  attr.form.length ≤ raw.form.length
  := by
  simp only [form, RawAttribute.form, attributeBytes, List.length_append, Bytes.length_field16,
    Bytes.length_count32]
  omega

/-- An attribute of a body is written when its frames are short. -/
theorem normalizes_read (pool : ConstantPool) (b : Boundaries) :
  (readAttribute pool b).Normalizes (fun attr => attr.WellFormed pool b ∧ attr.LengthFits) form
    (ClassFile.readRawAttribute pool) (IsShort pool)
  where
    reads_form attr hattr := by
      obtain ⟨⟨name, hname, hfits⟩, hlength⟩ := hattr
      apply reads_readAttribute.mpr
        ⟨⟨attr.nameIndex, attr.content⟩, hlength, rfl, name, hname, readContent_content hfits⟩
    valid_of_reads taken attr hreads := by
      obtain ⟨raw, hlength, -, name, hname, hcontent⟩ := reads_readAttribute.mp hreads
      obtain ⟨hfits, hindex, hle, -⟩ := of_readContent hcontent
      exact ⟨⟨name, hindex ▸ hname, hfits⟩, hle.trans_lt hlength⟩
    length_le taken attr hreads := by
      obtain ⟨raw, -, rfl, name, -, hcontent⟩ := reads_readAttribute.mp hreads
      obtain ⟨-, -, hle, -⟩ := of_readContent hcontent
      apply length_form_le hle
    eq_form taken attr hreads := by
      obtain ⟨raw, hlength, rfl, name, hname, hcontent⟩ := reads_readAttribute.mp hreads
      obtain ⟨-, hindex, -, heq⟩ := of_readContent hcontent
      refine ⟨raw, (RawAttribute.hasForm_read pool).reads ⟨⟨name, hname⟩, hlength⟩, ?_⟩
      intro hshort
      rw [form, RawAttribute.form, hindex, heq]
      rintro rfl
      apply hshort hname

theorem codeAttributeBytes_eq {pool : ConstantPool} {b : Boundaries} {attr : CodeAttribute}
    (h : attr.WellFormed pool b) :
  codeAttributeBytes attr = .ok attr.form
  := by
  obtain ⟨name, -, hfits⟩ := h
  cases attr with
  | lineNumbers nameIndex entries =>
    rw [codeAttributeBytes, countedBytes_eq fun entry h => lineBytes_eq (hfits.2.2 entry h)]
    rfl
  | localVariables nameIndex types entries =>
    rw [codeAttributeBytes, countedBytes_eq fun v h => variableBytes_eq (hfits.2.2 v h)]
    rfl
  | stackMap nameIndex frames =>
    rw [codeAttributeBytes, Frame.writeTable_eq hfits.2.1]
    rfl
  | other raw => rfl

end CodeAttribute

/-! ## Bodies -/

namespace Code

/-- The boundaries between the instructions of code of the given length. -/
def boundaries (instructions : List Instruction) (length : Nat) : Boundaries :=
  ⟨.ofList (instructions.map Instruction.offset), length⟩

theorem isStart_boundaries {instructions : List Instruction} {length offset : Nat} :
  (boundaries instructions length).isStart offset
    ↔ offset ∈ instructions.map Instruction.offset
  := by
  simp [boundaries, Boundaries.isStart]

theorem isLimit_boundaries {instructions : List Instruction} {length offset : Nat} :
  (boundaries instructions length).isLimit offset
    ↔ offset = length ∨ offset ∈ instructions.map Instruction.offset
  := by
  rw [Boundaries.isLimit, Bool.or_eq_true, beq_iff_eq, isStart_boundaries]
  rfl

theorem lineFits_boundaries {instructions : List Instruction} {length : Nat} {entry : LineEntry} :
  LineFits (boundaries instructions length) entry
    ↔ entry.start ≤ 65535 ∧ entry.start ∈ instructions.map Instruction.offset
  := by
  rw [LineFits, isStart_boundaries]

theorem variableFits_boundaries {instructions : List Instruction} {length : Nat}
    {v : LocalVariable} :
  VariableFits (boundaries instructions length) v
    ↔ (v.start ≤ 65535 ∧ v.length ≤ 65535) ∧ v.start ∈ instructions.map Instruction.offset
      ∧ (v.start + v.length = length ∨ v.start + v.length ∈ instructions.map Instruction.offset)
  := by
  rw [VariableFits, Bool.and_eq_true, isStart_boundaries, isLimit_boundaries]

theorem handlerFits_boundaries {instructions : List Instruction} {length : Nat}
    {h : ExceptionHandler} :
  HandlerFits (boundaries instructions length) h
    ↔ (h.start ≤ 65535 ∧ h.limit ≤ 65535 ∧ h.handler ≤ 65535)
      ∧ h.start < h.limit ∧ h.start ∈ instructions.map Instruction.offset
      ∧ (h.limit = length ∨ h.limit ∈ instructions.map Instruction.offset)
      ∧ h.handler ∈ instructions.map Instruction.offset
  := by
  rw [HandlerFits, Bool.and_eq_true, Bool.and_eq_true, Bool.and_eq_true, decide_eq_true_iff,
    isStart_boundaries, isLimit_boundaries, isStart_boundaries]
  simp only [and_assoc]

/-- Whether the parts of a body agree. -/
structure WellFormed (pool : ConstantPool) (code : Code) : Prop where
  instructions : CodeArray.WellFormed code.instructions code.length
  handlers_le : code.handlers.length ≤ 65535
  handlers : ∀ h ∈ code.handlers, HandlerFits (boundaries code.instructions code.length) h
  attributes_le : code.attributes.length ≤ 65535
  attributes : ∀ attr ∈ code.attributes,
    attr.WellFormed pool (boundaries code.instructions code.length)

/-- Whether the lengths of the attributes fit their fields. -/
def LengthsFit (code : Code) : Prop :=
  ∀ attr ∈ code.attributes, attr.LengthFits

/-- A body has instructions. -/
theorem WellFormed.ne_nil {pool : ConstantPool} {code : Code} (h : code.WellFormed pool) :
  code.instructions ≠ []
  := by
  intro hnil
  have hpos := h.instructions.pos
  have htiles := h.instructions.tiles
  rw [hnil] at htiles
  apply hpos.ne htiles

/-- The handlers and attributes that are written. -/
def tablesForm (code : Code) : List UInt8 :=
  Bytes.count16 code.handlers.length ++ code.handlers.flatMap handlerForm
    ++ (Bytes.count16 code.attributes.length ++ code.attributes.flatMap CodeAttribute.form)

/-- The body that is written. -/
def form (code : Code) : List UInt8 :=
  Bytes.field16 code.maxStack ++ Bytes.field16 code.maxLocals
    ++ Bytes.count32 (CodeArray.form code.instructions).length ++ CodeArray.form code.instructions
    ++ code.tablesForm

/-- An attribute is a part of the body. -/
theorem length_content_le {code : Code} {attr : CodeAttribute} (h : attr ∈ code.attributes) :
  attr.content.length ≤ code.form.length
  := by
  obtain ⟨front, back, heq⟩ := List.append_of_mem h
  simp only [form, tablesForm, heq, CodeAttribute.form, attributeBytes, List.flatMap_append,
    List.flatMap_cons, List.length_append]
  omega

/-- A body whose own length fits its field has attributes whose lengths do. -/
theorem lengthsFit_of_lt {code : Code} (h : code.form.length < 2 ^ 32) :
  code.LengthsFit
  := fun _ hattr => (length_content_le hattr).trans_lt h

/-- A well-formed body is written. -/
theorem toBytes_eq {pool : ConstantPool} {code : Code} (h : code.WellFormed pool) :
  code.toBytes = .ok code.form
  := by
  have htables : tableBytes code = .ok code.tablesForm := by
    rw [tableBytes, countedBytes_eq fun handler hmem => handlerBytes_eq (h.handlers handler hmem),
      countedBytes_eq fun attr hmem => CodeAttribute.codeAttributeBytes_eq (h.attributes attr hmem)]
    rfl
  rw [toBytes, CodeArray.write_eq h.instructions]
  simp only [bind, Except.bind, htables]
  rfl

/-! ## Reading bodies -/

instance : IsLocal readInstructions := by
  rw [readInstructions]
  infer_instance

/-- The instructions of a body are those of a code array behind its length. -/
theorem reads_readInstructions {taken : List UInt8} {length : Nat}
    {instructions : List Instruction} :
  readInstructions.Reads taken (length, instructions)
    ↔ ∃ array, array.length = length ∧ CodeArray.read array = .ok instructions
      ∧ taken = Bytes.count32 length ++ array
  := by
  simp only [readInstructions, reads_bind, reads_unsigned, reads_ite_throw, reads_take, reads_lift,
    reads_pure, Prod.mk.injEq]
  constructor
  · rintro ⟨_, _, ⟨-, rfl⟩, _, ⟨-, array, _, ⟨rfl, rfl⟩, _, ⟨_, _, ⟨hread, rfl⟩, _,
      ⟨⟨rfl, rfl⟩, rfl⟩, rfl⟩, rfl⟩, rfl⟩
    exact ⟨_, rfl, hread, by simp [Bytes.count32]⟩
  · rintro ⟨array, rfl, hread, rfl⟩
    have hbounds := (CodeArray.read_eq_ok.mp hread).1
    have hlimit : CodeArray.maxLength < 256 ^ 4 := by decide
    exact ⟨array.length, _, ⟨by omega, rfl⟩, array, ⟨by omega, array, array, ⟨rfl, rfl⟩, [],
      ⟨instructions, [], ⟨hread, rfl⟩, [], ⟨⟨rfl, rfl⟩, rfl⟩, rfl⟩, (List.append_nil _).symm⟩, rfl⟩

/-- Reads what follows the instructions of a body. -/
def readTables (pool : ConstantPool) (maxStack maxLocals : UInt16) :
    Nat × List Instruction → Reader Code
  | (length, instructions) => do
    let handlers ← counted (readHandler (boundaries instructions length))
    let attributes ← counted (readAttribute pool (boundaries instructions length))
    return { maxStack, maxLocals, instructions, handlers, attributes }

theorem readBody_eq (pool : ConstantPool) :
  readBody pool = (do
    let maxStack ← field16
    let maxLocals ← field16
    let parts ← readInstructions
    readTables pool maxStack maxLocals parts)
  := rfl

instance (pool : ConstantPool) (maxStack maxLocals : UInt16) (parts : Nat × List Instruction) :
    IsLocal (readTables pool maxStack maxLocals parts) := by
  rw [readTables]
  infer_instance

instance (pool : ConstantPool) : IsLocal (readBody pool) := by
  rw [readBody_eq]
  infer_instance

/-- A body is read from its parts. -/
theorem reads_readBody {pool : ConstantPool} {taken : List UInt8} {code : Code} :
  (readBody pool).Reads taken code
    ↔ ∃ array, CodeArray.read array = .ok code.instructions
      ∧ ∃ handlers, (counted (readHandler (boundaries code.instructions array.length))).Reads
          handlers code.handlers
      ∧ ∃ attributes,
        (counted (readAttribute pool (boundaries code.instructions array.length))).Reads
          attributes code.attributes
      ∧ taken = Bytes.field16 code.maxStack ++ Bytes.field16 code.maxLocals
        ++ Bytes.count32 array.length ++ array ++ (handlers ++ attributes)
  := by
  obtain ⟨maxStack, maxLocals, instructions, handlers, attributes⟩ := code
  simp only [readBody_eq, readTables, reads_bind, reads_field16, reads_pure, Code.mk.injEq]
  constructor
  · rintro ⟨_, _, rfl, _, ⟨_, _, rfl, _, ⟨⟨length, _⟩, _, hinstructions, _,
      ⟨_, _, hhandlers, _, ⟨_, _, hattributes, _, ⟨⟨rfl, rfl, rfl, rfl, rfl⟩, rfl⟩, rfl⟩, rfl⟩,
      rfl⟩, rfl⟩, rfl⟩
    obtain ⟨array, rfl, hread, rfl⟩ := reads_readInstructions.mp hinstructions
    exact ⟨array, hread, _, hhandlers, _, hattributes, by simp⟩
  · rintro ⟨array, hread, handlerBytes, hhandlers, attributeBytes, hattributes, rfl⟩
    exact ⟨maxStack, _, rfl, _, ⟨maxLocals, _, rfl, _, ⟨⟨array.length, instructions⟩, _,
      reads_readInstructions.mpr ⟨array, rfl, hread, rfl⟩, _,
      ⟨handlers, _, hhandlers, _, ⟨attributes, _, hattributes, [], ⟨⟨rfl, rfl, rfl, rfl, rfl⟩, rfl⟩,
      rfl⟩, rfl⟩, rfl⟩, rfl⟩, by simp⟩

/-- The length of the code is that of its array. -/
theorem length_eq {array : List UInt8} {code : Code}
    (h : CodeArray.read array = .ok code.instructions) :
  code.length = array.length
  := by
  have hwf := CodeArray.wellFormed_of_read h
  apply hwf.tiles.limit_eq
  intro hnil
  have hpos := hwf.pos
  have htiles := hwf.tiles
  rw [hnil] at htiles
  apply hpos.ne htiles

/-! ## What decides the form -/

/-- The parts of a body that may have several forms. -/
structure Outline where
  array : List UInt8
  attributes : List RawAttribute

/-- Reads the code array and the attributes of a body as bytes. -/
def readOutline (pool : ConstantPool) : Reader Outline := do
  let _ ← take 4
  let length ← unsigned 4
  let array ← take length
  let _ ← counted (take 8)
  let attributes ← counted (ClassFile.readRawAttribute pool)
  return { array, attributes }

instance (pool : ConstantPool) : IsLocal (readOutline pool) := by
  rw [readOutline]
  infer_instance

/-- Whether every padding byte is zero and every frame is short. -/
def Outline.IsNormal (pool : ConstantPool) (o : Outline) : Prop :=
  (∀ instructions, CodeArray.read o.array = .ok instructions →
      CodeArray.HasZeroPadding o.array instructions)
    ∧ ∀ raw ∈ o.attributes, CodeAttribute.IsShort pool raw

theorem length_handlerForm (h : ExceptionHandler) :
  (handlerForm h).length = 8
  := by
  simp [handlerForm]

theorem length_flatMap_handlerForm (handlers : List ExceptionHandler) :
  (handlers.flatMap handlerForm).length = 8 * handlers.length
  := by
  simp [List.length_flatMap, length_handlerForm, Nat.mul_comm]

/-- The handlers of a body as pieces of eight bytes. -/
theorem reads_handlerPieces {handlers : List ExceptionHandler} (h : handlers.length ≤ 65535) :
  (counted (take 8)).Reads (Bytes.count16 handlers.length ++ handlers.flatMap handlerForm)
    (handlers.map handlerForm)
  := by
  refine reads_counted.mpr ⟨?_, handlers.map handlerForm, ?_, ?_⟩
  · rw [List.length_map]
    apply h
  · rw [List.forall₂_same]
    intro piece hpiece
    obtain ⟨handler, -, rfl⟩ := List.mem_map.mp hpiece
    apply reads_take.mpr ⟨rfl, length_handlerForm handler⟩
  · rw [List.length_map]
    rfl

/-- A body is written when its padding is zero and its frames are short. -/
theorem normalizes_readBody (pool : ConstantPool) :
  (readBody pool).Normalizes (fun code => code.WellFormed pool ∧ code.LengthsFit) form
    (readOutline pool) (Outline.IsNormal pool)
  where
    reads_form code hcode := by
      obtain ⟨h, hlengths⟩ := hcode
      have hlength : (CodeArray.form code.instructions).length = code.length := by
        have hlength := CodeArray.length_form h.instructions.tiles
        rwa [Nat.zero_add] at hlength
      refine reads_readBody.mpr ⟨CodeArray.form code.instructions,
        CodeArray.read_written h.instructions, _, ?_, _, ?_, rfl⟩
      · rw [hlength]
        apply (hasForm_readHandler _).counted.reads ⟨h.handlers_le, h.handlers⟩
      · rw [hlength]
        apply (CodeAttribute.normalizes_read pool _).counted.reads_form _
          ⟨h.attributes_le, fun attr hattr => ⟨h.attributes attr hattr, hlengths attr hattr⟩⟩
    valid_of_reads taken code hreads := by
      obtain ⟨array, hread, _, hhandlers, _, hattributes, -⟩ := reads_readBody.mp hreads
      have hlength := length_eq hread
      obtain ⟨⟨hhandlersLe, hhandlers⟩, -⟩ := ((hasForm_readHandler _).counted _ _).mp hhandlers
      obtain ⟨hattributesLe, hattributes⟩ :=
        (CodeAttribute.normalizes_read pool _).counted.valid_of_reads _ _ hattributes
      rw [← hlength] at hhandlers hattributes
      refine ⟨⟨?_, hhandlersLe, hhandlers, hattributesLe, fun attr hattr =>
        (hattributes attr hattr).1⟩, fun attr hattr => (hattributes attr hattr).2⟩
      rw [hlength]
      apply CodeArray.wellFormed_of_read hread
    length_le taken code hreads := by
      obtain ⟨array, hread, _, hhandlers, _, hattributes, rfl⟩ := reads_readBody.mp hreads
      have hlength := CodeArray.length_form (CodeArray.wellFormed_of_read hread).tiles
      obtain ⟨-, rfl⟩ := ((hasForm_readHandler _).counted _ _).mp hhandlers
      have hle := (CodeAttribute.normalizes_read pool _).counted.length_le _ _ hattributes
      simp only [form, tablesForm, List.length_append, Bytes.length_field16,
        Bytes.length_count32] at hle ⊢
      omega
    eq_form taken code hreads := by
      obtain ⟨array, hread, _, hhandlers, _, hattributes, rfl⟩ := reads_readBody.mp hreads
      obtain ⟨⟨hhandlersLe, -⟩, rfl⟩ := ((hasForm_readHandler _).counted _ _).mp hhandlers
      obtain ⟨raws, hraws, heq⟩ :=
        (CodeAttribute.normalizes_read pool _).counted.eq_form _ _ hattributes
      refine ⟨⟨array, raws⟩, ?_, ?_⟩
      · have hlimit : array.length < 256 ^ 4 :=
          (CodeArray.read_eq_ok.mp hread).1.2.trans_lt (by decide)
        have hfields : (take 4).Reads (Bytes.field16 code.maxStack ++ Bytes.field16 code.maxLocals)
            _ := reads_take.mpr ⟨rfl, by simp⟩
        have hlength : (unsigned 4).Reads _ array.length := reads_unsigned.mpr ⟨hlimit, rfl⟩
        have harray : (take array.length).Reads array array := reads_take.mpr ⟨rfl, rfl⟩
        have hpieces := reads_handlerPieces hhandlersLe
        have houtline : (readOutline pool).Reads _ ⟨array, raws⟩ :=
          hfields.bind (hlength.bind (harray.bind (hpieces.bind (hraws.bind
            (reads_pure.mpr ⟨rfl, rfl⟩)))))
        simpa [Bytes.count32] using houtline
      · rintro ⟨hpadding, hshort⟩
        have hforms := (CodeArray.read_eq_ok.mp hread).2.1
        have harray := hforms.eq_form List.drop_zero (hpadding _ hread)
        rw [form, ← harray, heq hshort]
        rfl

/-- A body that was read is well formed. -/
theorem wellFormed_of_read {pool : ConstantPool} {info : List UInt8} {code : Code}
    (h : read pool info = .ok code) :
  code.WellFormed pool
  := ((normalizes_readBody pool).valid_of_reads _ _ (runAll_eq_ok.mp h)).1

/-- What is written for a well-formed body is read back. -/
theorem read_form {pool : ConstantPool} {code : Code} (h : code.WellFormed pool)
    (hlengths : code.LengthsFit) :
  read pool code.form = .ok code
  := runAll_eq_ok.mpr ((normalizes_readBody pool).reads_form code ⟨h, hlengths⟩)

end Code

end JvmCoverage
