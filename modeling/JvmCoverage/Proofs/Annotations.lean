import JvmCoverage.Proofs.SafeReading

/-!
# What a list of annotations is written as

Element values nest through arrays and through annotations.  A reader that keeps what it reads
accepts the one form of each list of annotations of which no element value stands too deep
(`Annotation.hasForm_readAll`), and the scanner that walks past the values is that reader with only
the types kept (`Annotation.typeIndices_eq`).
-/

namespace JvmCoverage

/-! ## Readers with less kept -/

namespace Reader

variable {α β : Type}

theorem times_map (f : α → β) (n : Nat) (r : Reader α) :
  times n (f <$> r) = List.map f <$> times n r
  := by
  induction n with
  | zero => rfl
  | succ n ih => simp only [times_succ, ih, bind_map_left, map_bind, map_pure, List.map_cons]

theorem counted_map (f : α → β) (r : Reader α) :
  counted (f <$> r) = List.map f <$> counted r
  := by
  simp only [counted, times_map, map_bind]

theorem runAll_map (f : α → β) (r : Reader α) (bytes : List UInt8) :
  runAll (f <$> r) bytes = f <$> runAll r bytes
  := by
  have hrun (s : Reader α) : run (f <$> s) bytes = f <$> run s bytes := by
    rw [run, run, map_apply]
    cases s ⟨0, bytes⟩ <;> rfl
  rw [runAll, runAll, ← hrun]
  simp only [bind_map_left, map_bind, map_pure]

end Reader

namespace Annotation

open Reader

/-! ## Element values -/

/-- The kinds of element values that are a single constant. -/
inductive ConstantKind where
  | byte
  | char
  | double
  | float
  | int
  | long
  | short
  | boolean
  | string
  | classInfo
  deriving DecidableEq

namespace ConstantKind

/-- The tag of a kind. -/
def tag : ConstantKind → Char
  | byte => 'B'
  | char => 'C'
  | double => 'D'
  | float => 'F'
  | int => 'I'
  | long => 'J'
  | short => 'S'
  | boolean => 'Z'
  | string => 's'
  | classInfo => 'c'

/-- The kind with a tag. -/
def ofTag? : Char → Option ConstantKind
  | 'B' => some byte
  | 'C' => some char
  | 'D' => some double
  | 'F' => some float
  | 'I' => some int
  | 'J' => some long
  | 'S' => some short
  | 'Z' => some boolean
  | 's' => some string
  | 'c' => some classInfo
  | _ => none

theorem ofTag?_eq_some {letter : Char} {kind : ConstantKind} :
  ofTag? letter = some kind ↔ letter = kind.tag
  := by
  constructor
  · intro h
    unfold ofTag? at h
    split at h
    all_goals cases h
    all_goals rfl
  · rintro rfl
    cases kind <;> rfl

end ConstantKind

/-- An element value of an annotation. -/
inductive ElementValue where
  | constant (kind : ConstantKind) (index : UInt16)
  | enumConstant (type name : UInt16)
  | nested (type : UInt16) (pairs : List (UInt16 × ElementValue))
  | array (values : List ElementValue)

/-- An annotation: a type with named element values. -/
structure Entry where
  type : UInt16
  pairs : List (UInt16 × ElementValue)

namespace ElementValue

/-- The byte of a tag. -/
def tagByte (letter : Char) : UInt8 := UInt8.ofNat letter.toNat

mutual

/-- The bytes of an element value. -/
def form : ElementValue → List UInt8
  | constant kind index => tagByte kind.tag :: Bytes.field16 index
  | enumConstant type name => tagByte 'e' :: (Bytes.field16 type ++ Bytes.field16 name)
  | nested type pairs =>
    tagByte '@' :: (Bytes.field16 type ++ (Bytes.count16 pairs.length ++ pairsForm pairs))
  | array values => tagByte '[' :: (Bytes.count16 values.length ++ valuesForm values)

/-- The bytes of element values one behind the other. -/
def valuesForm : List ElementValue → List UInt8
  | [] => []
  | value :: values => value.form ++ valuesForm values

/-- The bytes of named element values one behind the other. -/
def pairsForm : List (UInt16 × ElementValue) → List UInt8
  | [] => []
  | (name, value) :: pairs => Bytes.field16 name ++ value.form ++ pairsForm pairs

end

/-- The bytes of a named element value. -/
def pairForm (pair : UInt16 × ElementValue) : List UInt8 :=
  Bytes.field16 pair.1 ++ pair.2.form

theorem valuesForm_eq (values : List ElementValue) :
  valuesForm values = values.flatMap form
  := by
  induction values with
  | nil => rfl
  | cons value values ih => rw [valuesForm, ih, List.flatMap_cons]

theorem pairsForm_eq (pairs : List (UInt16 × ElementValue)) :
  pairsForm pairs = pairs.flatMap pairForm
  := by
  induction pairs with
  | nil => rfl
  | cons pair pairs ih => rw [pairsForm, ih, List.flatMap_cons, pairForm]

/-- Whether the element value may stand at `depth`: it and those in it do not stand deeper than 64,
and no count is greater than its field can say. -/
inductive FitsAt : Nat → ElementValue → Prop where
  | constant {depth : Nat} {kind : ConstantKind} {index : UInt16} (hdepth : depth ≤ 64) :
    FitsAt depth (.constant kind index)
  | enumConstant {depth : Nat} {type name : UInt16} (hdepth : depth ≤ 64) :
    FitsAt depth (.enumConstant type name)
  | nested {depth : Nat} {type : UInt16} {pairs : List (UInt16 × ElementValue)}
    (hdepth : depth ≤ 64) (hcount : pairs.length ≤ 65535)
    (hvalues : ∀ pair ∈ pairs, FitsAt (depth + 1) pair.2) :
    FitsAt depth (.nested type pairs)
  | array {depth : Nat} {values : List ElementValue} (hdepth : depth ≤ 64)
    (hcount : values.length ≤ 65535) (hvalues : ∀ value ∈ values, FitsAt (depth + 1) value) :
    FitsAt depth (.array values)

end ElementValue

namespace Entry

/-- The bytes of an annotation. -/
def form (a : Entry) : List UInt8 :=
  Bytes.field16 a.type
    ++ (Bytes.count16 a.pairs.length ++ a.pairs.flatMap ElementValue.pairForm)

/-- Whether the element values of the annotation may stand at `depth`. -/
def FitsAt (depth : Nat) (a : Entry) : Prop :=
  a.pairs.length ≤ 65535 ∧ ∀ pair ∈ a.pairs, pair.2.FitsAt depth

end Entry

/-- The bytes of annotations behind their count. -/
def listForm (annotations : List Entry) : List UInt8 :=
  Bytes.count16 annotations.length ++ annotations.flatMap Entry.form

/-- Whether the annotations can be written. -/
def Fit (annotations : List Entry) : Prop :=
  annotations.length ≤ 65535 ∧ ∀ a ∈ annotations, a.FitsAt 0

/-! ## Keeping what is read -/

namespace ElementValue

/-- Reads an element value behind its name. -/
def readPair (value : Reader ElementValue) : Reader (UInt16 × ElementValue) := do
  let name ← field16
  let value ← value
  return (name, value)

end ElementValue

/-- Reads an annotation and its values with `value`. -/
def Entry.read (value : Reader ElementValue) : Reader Entry := do
  let type ← field16
  let pairs ← counted (ElementValue.readPair value)
  return ⟨type, pairs⟩

namespace ElementValue

/-- Reads a constant of an enumeration behind its tag. -/
def readEnum : Reader ElementValue := do
  let bytes ← take 4
  return .enumConstant (UInt16.ofNat (Bytes.ofBigEndian (bytes.take 2)))
    (UInt16.ofNat (Bytes.ofBigEndian (bytes.drop 2)))

/-- Reads what stands behind the tag of an element value, where `below` reads the element values in
it. -/
def readTagged (below : Reader ElementValue) (tag : UInt8) : Reader ElementValue :=
  match Char.ofNat tag.toNat with
  | 'e' => readEnum
  | '@' => (fun a => .nested a.type a.pairs) <$> Entry.read below
  | '[' => .array <$> counted below
  | letter =>
    match ConstantKind.ofTag? letter with
    | some kind => .constant kind <$> field16
    | none => throw (.malformed (.unknownElementTag tag))

/-- Reads an element value that may use `levels` levels. -/
def read : (levels : Nat) → Reader ElementValue
  | 0 => throw (.malformed .elementsTooDeep)
  | levels + 1 => do
    let tag ← field8
    readTagged (read levels) tag

variable {below : Reader ElementValue} [IsLocal below]

instance : IsLocal (readPair below) := by
  unfold readPair
  infer_instance

instance : IsLocal (Entry.read below) := by
  unfold Entry.read
  infer_instance

instance : IsLocal readEnum := by
  unfold readEnum
  infer_instance

instance (tag : UInt8) : IsLocal (readTagged below tag) := by
  unfold readTagged
  split
  all_goals try infer_instance
  split <;> infer_instance

instance (levels : Nat) : IsLocal (read levels) := by
  induction levels with
  | zero => exact inferInstanceAs (IsLocal (throw _))
  | succ levels ih =>
    unfold read
    infer_instance

/-- Two bytes are the form of the number that they are. -/
theorem field16_ofBigEndian {bytes : List UInt8} (h : bytes.length = 2) :
  Bytes.field16 (UInt16.ofNat (Bytes.ofBigEndian bytes)) = bytes
  := by
  have hlt := Bytes.ofBigEndian_lt bytes
  have hform := Bytes.bigEndian_ofBigEndian bytes
  rw [h] at hlt hform
  rw [Bytes.field16, UInt16.toNat_ofNat_of_lt' hlt, hform]

theorem ofBigEndian_field16 (value : UInt16) :
  UInt16.ofNat (Bytes.ofBigEndian (Bytes.field16 value)) = value
  := by
  rw [Bytes.field16, Bytes.ofBigEndian_bigEndian_of_lt value.toNat_lt, UInt16.ofNat_toNat]

theorem reads_readEnum {back : List UInt8} {v : ElementValue} :
  readEnum.Reads back v
    ↔ ∃ type name, v = .enumConstant type name ∧ back = Bytes.field16 type ++ Bytes.field16 name
  := by
  simp only [readEnum, reads_bind, reads_take, reads_pure]
  constructor
  · rintro ⟨bytes, _, ⟨rfl, hlength⟩, _, ⟨rfl, rfl⟩, rfl⟩
    refine ⟨_, _, rfl, ?_⟩
    rw [field16_ofBigEndian (by simp [hlength]), field16_ofBigEndian (by simp [hlength]),
      List.take_append_drop, List.append_nil]
  · rintro ⟨type, name, rfl, rfl⟩
    refine ⟨_, _, ⟨rfl, by simp⟩, [], ⟨?_, rfl⟩, (List.append_nil _).symm⟩
    rw [List.take_left' (Bytes.length_field16 type), List.drop_left' (Bytes.length_field16 type),
      ofBigEndian_field16, ofBigEndian_field16]

/-- The tag that is read is the byte of the letter that it stands for. -/
theorem eq_tagByte {tag : UInt8} {letter : Char} (h : Char.ofNat tag.toNat = letter) :
  tag = tagByte letter
  := by
  have hvalid : tag.toNat.isValidChar := .inl (by have := tag.toNat_lt; omega)
  have hletter : (Char.ofNat tag.toNat).toNat = tag.toNat := by
    rw [Char.ofNat, dif_pos hvalid]
    rfl
  rw [tagByte, ← h, hletter, UInt8.ofNat_toNat]

theorem hasForm_readPair {valid : ElementValue → Prop} (hbelow : below.HasForm valid form) :
  (readPair below).HasForm (fun pair => valid pair.2) pairForm
  := by
  rintro taken ⟨name, value⟩
  simp only [readPair, reads_bind, reads_field16, reads_pure, hbelow _ _, pairForm]
  constructor
  · rintro ⟨_, _, rfl, _, ⟨_, _, ⟨hvalid, rfl⟩, _, ⟨heq, rfl⟩, rfl⟩, rfl⟩
    obtain ⟨rfl, rfl⟩ := Prod.mk.inj heq
    exact ⟨hvalid, by rw [List.append_nil]⟩
  · rintro ⟨hvalid, rfl⟩
    exact ⟨name, _, rfl, _, ⟨value, _, ⟨hvalid, rfl⟩, [], ⟨rfl, rfl⟩, (List.append_nil _).symm⟩,
      rfl⟩

theorem hasForm_readEntry {depth : Nat} (hbelow : below.HasForm (FitsAt depth) form) :
  (Entry.read below).HasForm (Entry.FitsAt depth) Entry.form
  := by
  rintro taken ⟨type, pairs⟩
  simp only [Entry.read, reads_bind, reads_field16, reads_pure,
    (hasForm_readPair hbelow).counted _ _, Entry.FitsAt, Entry.form]
  constructor
  · rintro ⟨_, _, rfl, _, ⟨_, _, ⟨hfits, rfl⟩, _, ⟨heq, rfl⟩, rfl⟩, rfl⟩
    obtain ⟨rfl, rfl⟩ := Entry.mk.inj heq
    exact ⟨hfits, by rw [List.append_nil]⟩
  · rintro ⟨hfits, rfl⟩
    exact ⟨type, _, rfl, _, ⟨pairs, _, ⟨hfits, rfl⟩, [], ⟨rfl, rfl⟩, (List.append_nil _).symm⟩, rfl⟩

section Tagged

variable {depth : Nat} {tag : UInt8} {back : List UInt8} {v : ElementValue}

/-- What is read behind a tag is an element value with the tag. -/
theorem eq_form_of_reads (hbelow : below.HasForm (FitsAt (depth + 1)) form) (hdepth : depth ≤ 64)
    (h : (readTagged below tag).Reads back v) :
  v.FitsAt depth ∧ tag :: back = v.form
  := by
  unfold readTagged at h
  split at h
  · rename_i hletter
    obtain ⟨type, name, rfl, rfl⟩ := reads_readEnum.mp h
    exact ⟨.enumConstant hdepth, by rw [form, eq_tagByte hletter]⟩
  · rename_i hletter
    obtain ⟨a, ha, rfl⟩ := reads_map.mp h
    obtain ⟨⟨hcount, hvalues⟩, rfl⟩ := (hasForm_readEntry hbelow _ _).mp ha
    refine ⟨.nested hdepth hcount hvalues, ?_⟩
    rw [form, eq_tagByte hletter, pairsForm_eq, Entry.form]
  · rename_i hletter
    obtain ⟨values, hreads, rfl⟩ := reads_map.mp h
    obtain ⟨⟨hcount, hvalues⟩, rfl⟩ := (hbelow.counted _ _).mp hreads
    refine ⟨.array hdepth hcount hvalues, ?_⟩
    rw [form, eq_tagByte hletter, valuesForm_eq]
  · split at h
    · rename_i kind hkind
      obtain ⟨index, hindex, rfl⟩ := reads_map.mp h
      rw [reads_field16.mp hindex, form, eq_tagByte (ConstantKind.ofTag?_eq_some.mp hkind)]
      exact ⟨.constant hdepth, rfl⟩
    · exact absurd h not_reads_throw

/-- An element value is read behind its tag. -/
theorem reads_readTagged (hbelow : below.HasForm (FitsAt (depth + 1)) form) (h : v.FitsAt depth) :
  ∃ tag back, (readTagged below tag).Reads back v ∧ v.form = tag :: back
  := by
  cases h with
  | @constant _ kind index hdepth =>
    refine ⟨_, _, ?_, by rw [form]⟩
    cases kind <;> exact reads_map.mpr ⟨index, reads_field16.mpr rfl, rfl⟩
  | @enumConstant _ type name hdepth =>
    refine ⟨_, _, ?_, by rw [form]⟩
    exact reads_readEnum.mpr ⟨type, name, rfl, rfl⟩
  | @nested _ type pairs hdepth hcount hvalues =>
    refine ⟨_, _, ?_, by rw [form]⟩
    apply reads_map.mpr
    refine ⟨⟨type, pairs⟩, (hasForm_readEntry hbelow _ _).mpr ⟨⟨hcount, hvalues⟩, ?_⟩, rfl⟩
    rw [Entry.form, pairsForm_eq]
  | @array _ values hdepth hcount hvalues =>
    refine ⟨_, _, ?_, by rw [form]⟩
    apply reads_map.mpr
    refine ⟨values, (hbelow.counted _ _).mpr ⟨⟨hcount, hvalues⟩, ?_⟩, rfl⟩
    rw [valuesForm_eq]

end Tagged

/-- An element value has one form, and is read from it where it may stand. -/
theorem hasForm_read {depth levels : Nat} (h : depth + levels = maxLevels) :
  (read levels).HasForm (FitsAt depth) form
  := by
  unfold maxLevels at h
  -- a value one deeper has one level less, so the sum stays
  induction levels generalizing depth with
  | zero =>
    intro taken v
    simp only [read, not_reads_throw, false_iff, not_and]
    intro hfits
    cases hfits <;> omega
  | succ levels ih =>
    intro taken v
    have hbelow : (read levels).HasForm (FitsAt (depth + 1)) form := ih (by omega)
    rw [read, reads_tag]
    constructor
    · rintro ⟨tag, back, hreads, rfl⟩
      exact eq_form_of_reads hbelow (by omega) hreads
    · rintro ⟨hfits, rfl⟩
      exact reads_readTagged hbelow hfits

end ElementValue

/-! ## Keeping the types only -/

/-- Reads the annotations in an attribute. -/
def readAll : Reader (List Entry) :=
  counted (Entry.read (ElementValue.read maxLevels))

instance : IsLocal readAll :=
  inferInstanceAs (IsLocal (counted (Entry.read (ElementValue.read maxLevels))))

theorem hasForm_readAll :
  readAll.HasForm Fit listForm
  := (ElementValue.hasForm_readEntry (ElementValue.hasForm_read rfl)).counted

/-- Walking past what `value` reads in an annotation leaves the type of the annotation. -/
theorem typeIndex_eq (value : Reader ElementValue) :
  typeIndex ((fun _ => ()) <$> value) = Entry.type <$> Entry.read value
  := by
  have hpair : (do skip 2; (fun _ => ()) <$> value)
      = (fun _ => ()) <$> ElementValue.readPair value := by
    simp only [skip, ElementValue.readPair, field16, unsigned, bind_map_left, map_bind,
      bind_pure_comp, Functor.map_map]
  rw [typeIndex, Entry.read, hpair]
  simp only [counted, times_map, bind_map_left, map_bind, map_pure, bind_assoc]

theorem skip_eq_constant (kind : ConstantKind) :
  skip 2 = (fun _ => ()) <$> (ElementValue.constant kind <$> field16)
  := by
  simp only [skip, field16, unsigned, bind_pure_comp, Functor.map_map]

theorem skip_eq_readEnum :
  skip 4 = (fun _ => ()) <$> ElementValue.readEnum
  := by
  simp only [skip, ElementValue.readEnum, bind_pure_comp, Functor.map_map]

/-- Walking past an element value is reading it without keeping it. -/
theorem skipValue_eq (levels : Nat) :
  skipValue levels = (fun _ => ()) <$> ElementValue.read levels
  := by
  induction levels with
  | zero => rfl
  | succ levels ih =>
    rw [skipValue, ElementValue.read, map_bind, ih, typeIndex_eq, counted_map]
    congr 1
    funext tag
    unfold ElementValue.readTagged
    generalize Char.ofNat tag.toNat = letter
    split
    case h_11 => exact skip_eq_readEnum
    case h_12 | h_13 => simp only [bind_pure_comp, Functor.map_map]
    case h_14 =>
      -- no other letter is a tag
      split
      · contradiction
      · contradiction
      · contradiction
      · split
        · rename_i kind hkind
          obtain rfl := ConstantKind.ofTag?_eq_some.mp hkind
          cases kind <;> contradiction
        · rfl
    all_goals exact skip_eq_constant _

theorem typeIndices_eq (payload : List UInt8) :
  typeIndices payload = List.map Entry.type <$> runAll readAll payload
  := by
  rw [typeIndices, skipValue_eq, typeIndex_eq, counted_map, runAll_map]
  rfl

/-- The scanner gives the types that a list of annotations has when it is given the form of the
list, accepts nothing but the forms of lists, each of one list only, and comes to an end. -/
theorem typeIndices_accepts_forms :
  (∀ annotations, Fit annotations →
      typeIndices (listForm annotations) = .ok (annotations.map Entry.type))
    ∧ (∀ payload types, typeIndices payload = .ok types →
      ∃! annotations, Fit annotations ∧ listForm annotations = payload)
    ∧ ∀ payload : List UInt8, payload.length < 2 ^ 64 →
      Machine.typeIndices payload = Machine.faultless (typeIndices payload)
  := by
  have hform {payload : List UInt8} {annotations : List Entry} :
      runAll readAll payload = .ok annotations ↔ Fit annotations ∧ payload = listForm annotations
    := by
    rw [runAll_eq_ok, hasForm_readAll]
  refine ⟨?_, ?_, ?_⟩
  · intro annotations hfit
    rw [typeIndices_eq, hform.mpr ⟨hfit, rfl⟩]
    rfl
  · intro payload types h
    rw [typeIndices_eq, map_eq_ok] at h
    obtain ⟨annotations, hread, -⟩ := h
    obtain ⟨hfit, heq⟩ := hform.mp hread
    refine ⟨annotations, ⟨hfit, heq.symm⟩, ?_⟩
    rintro other ⟨hother, hpayload⟩
    have hread' := hform.mpr ⟨hother, hpayload.symm⟩
    exact Except.ok.inj (hread'.symm.trans hread)
  · exact fun payload => Machine.typeIndices_eq

/-- Two annotations with values that nest: only the types at the top are told. -/
def nestedAnnotations : List Entry :=
  [⟨5, [(6, .nested 7 [])]⟩, ⟨8, [(9, .array [.constant .int 3, .enumConstant 1 2])]⟩]

theorem fit_nestedAnnotations :
  Fit nestedAnnotations
  := by
  have hnested : (ElementValue.nested 7 []).FitsAt 0 :=
    .nested (by decide) (by decide) (by simp)
  have harray : (ElementValue.array [.constant .int 3, .enumConstant 1 2]).FitsAt 0 := by
    refine .array (by decide) (by decide) ?_
    rw [List.forall_mem_cons, List.forall_mem_singleton]
    exact ⟨.constant (by decide), .enumConstant (by decide)⟩
  refine ⟨by decide, ?_⟩
  simp [nestedAnnotations, Entry.FitsAt, hnested, harray]

theorem typeIndices_nestedAnnotations :
  listForm nestedAnnotations = [0, 2, 0, 5, 0, 1, 0, 6, 0x40, 0, 7, 0, 0, 0, 8, 0, 1, 0, 9, 0x5b,
      0, 2, 0x49, 0, 3, 0x65, 0, 1, 0, 2]
    ∧ typeIndices (listForm nestedAnnotations) = .ok [5, 8]
  := ⟨by decide, typeIndices_accepts_forms.1 nestedAnnotations fit_nestedAnnotations⟩

end Annotation

end JvmCoverage
