import JvmCoverage.ClassFile.CodeArray
import JvmCoverage.Proofs.Fields
import JvmCoverage.Proofs.Outcome

/-!
# The forms of operations

`Operation.form` is the byte form of an operation with given padding bytes in front of the tables
of a switch.  Reading accepts exactly the forms of the operations that are well formed and whose
targets are in reach (`Operation.reads_read`), and writing gives the form with zeros for padding
(`Operation.toBytes_eq`).  The size of an operation is the length of its forms.
-/

namespace JvmCoverage

/-! ## Classes of opcodes -/

namespace Opcode

/-- Whether an opcode with operands of fixed length has an operation of its own. -/
def isSpecial (opcode : Opcode) : Bool :=
  opcode.isPlainInvoke || opcode.isLongInvoke || opcode.isReturn || opcode == athrow
    || opcode == ret

theorem layout?_of_isPlainInvoke (opcode : Opcode) :
  opcode.isPlainInvoke → opcode.layout? = some (.fixed 2)
  := by
  revert opcode
  apply Bytes.forall_of_lt
  decide +kernel

theorem layout?_of_isLongInvoke (opcode : Opcode) :
  opcode.isLongInvoke → opcode.layout? = some (.fixed 4) ∧ opcode.isPlainInvoke = false
  := by
  revert opcode
  apply Bytes.forall_of_lt
  decide +kernel

theorem layout?_of_isReturn (opcode : Opcode) :
  opcode.isReturn →
    opcode.layout? = some (.fixed 0) ∧ opcode.isPlainInvoke = false ∧ opcode.isLongInvoke = false
  := by
  revert opcode
  apply Bytes.forall_of_lt
  decide +kernel

theorem isWideBranch_of_branch16 (opcode : Opcode) :
  opcode.layout? = some .branch16 → opcode.isWideBranch = false
  := by
  revert opcode
  apply Bytes.forall_of_lt
  decide +kernel

theorem isWideBranch_of_branch32 (opcode : Opcode) :
  opcode.layout? = some .branch32 → opcode.isWideBranch = true
  := by
  revert opcode
  apply Bytes.forall_of_lt
  decide +kernel

theorem eq_of_layout?_switch (opcode : Opcode) :
  opcode.layout? = some .switch → opcode = tableswitch ∨ opcode = lookupswitch
  := by
  revert opcode
  apply Bytes.forall_of_lt
  decide +kernel

theorem eq_of_layout?_wide (opcode : Opcode) :
  opcode.layout? = some .wide → opcode = wide
  := by
  revert opcode
  apply Bytes.forall_of_lt
  decide +kernel

end Opcode

namespace Operation

/-! ## What can be read -/

/-- Whether the operands follow the opcode `wide` in an operation without effect on control
flow. -/
def IsWidened : (operands : List UInt8) → Prop
  | [] => False
  | widened :: rest => Opcode.isWidenable widened ∧ widened ≠ Opcode.ret
    ∧ rest.length = if widened = Opcode.iinc then 4 else 2

instance : (operands : List UInt8) → Decidable (IsWidened operands)
  | [] => .isFalse id
  | _ :: _ => inferInstanceAs (Decidable (_ ∧ _ ∧ _))

/-- Whether opcode and operands agree, apart from the targets. -/
def WellFormed : Operation → Prop
  | plain opcode operands =>
    (opcode.layout? = some (.fixed operands.length) ∧ opcode.isSpecial = false)
      ∨ (opcode = Opcode.wide ∧ IsWidened operands)
  | invoke opcode _ count =>
    (opcode.isPlainInvoke ∧ count = 0)
      ∨ (opcode.isLongInvoke ∧ (opcode = Opcode.invokedynamic → count = 0))
  | branch opcode _ => opcode.layout? = some .branch16 ∨ opcode.layout? = some .branch32
  | switch opcode _ (.table low targets) =>
    opcode = Opcode.tableswitch ∧ 0 < targets.length ∧ low.toInt + targets.length ≤ 2 ^ 31
  | switch opcode _ (.lookup pairs) =>
    opcode = Opcode.lookupswitch ∧ pairs.length < 2 ^ 31
  | methodReturn opcode => opcode.isReturn
  | raise => True
  | subroutineReturn index wide => wide = false → index < 256

instance : (op : Operation) → Decidable op.WellFormed
  | plain _ _ => inferInstanceAs (Decidable (_ ∨ _))
  | invoke _ _ _ => inferInstanceAs (Decidable (_ ∨ _))
  | branch _ _ => inferInstanceAs (Decidable (_ ∨ _))
  | switch _ _ (.table _ _) => inferInstanceAs (Decidable (_ ∧ _ ∧ _))
  | switch _ _ (.lookup _) => inferInstanceAs (Decidable (_ ∧ _))
  | methodReturn _ => inferInstanceAs (Decidable (_ = true))
  | raise => .isTrue trivial
  | subroutineReturn _ _ => inferInstanceAs (Decidable (_ → _))

/-- The number of bytes of a distance. -/
def distanceWidth : Operation → Nat
  | branch opcode _ => if opcode.isWideBranch then 4 else 2
  | _ => 4

/-- Whether a distance of `width` bytes leads from `offset` to `target` inside the code. -/
def Reaches (width offset codeLength target : Nat) : Prop :=
  target < codeLength ∧ Bytes.Fits width (target - offset)

instance (width : Nat) (z : Int) : Decidable (Bytes.Fits width z) :=
  inferInstanceAs (Decidable (_ ∧ _))

instance (width offset codeLength target : Nat) :
    Decidable (Reaches width offset codeLength target) :=
  inferInstanceAs (Decidable (_ ∧ _))

/-- Four bytes are enough for every distance in code of admissible length. -/
theorem fits_of_lt {offset target : Nat} (hoffset : offset < 65536) (htarget : target < 65536) :
  Bytes.Fits 4 (target - offset)
  := by
  constructor
  · omega
  · omega

/-- Whether every target lies inside the code and in reach. -/
def InReach (offset codeLength : Nat) (op : Operation) : Prop :=
  ∀ target ∈ op.targets, Reaches op.distanceWidth offset codeLength target

instance (offset codeLength : Nat) (op : Operation) : Decidable (op.InReach offset codeLength) :=
  inferInstanceAs (Decidable (∀ _ ∈ _, _))

/-! ## Forms -/

/-- The distance from `offset` to `target` in `width` bytes. -/
def distanceForm (width offset target : Nat) : List UInt8 :=
  Bytes.signed width (target - offset)

/-- A key with the distance of its target. -/
def pairForm (offset : Nat) (pair : Int32 × Nat) : List UInt8 :=
  Bytes.signed 4 pair.1.toInt ++ distanceForm 4 offset pair.2

/-- The form of the cases of a switch. -/
def casesForm (offset : Nat) : SwitchCases → List UInt8
  | .table low targets =>
    Bytes.signed 4 low.toInt ++ Bytes.signed 4 (low.toInt + targets.length - 1)
      ++ targets.flatMap (distanceForm 4 offset)
  | .lookup pairs => Bytes.count32 pairs.length ++ pairs.flatMap (pairForm offset)

/-- The form of an operation at `offset`, with `padding` in front of the tables of a switch. -/
def form (padding : List UInt8) (offset : Nat) : Operation → List UInt8
  | plain opcode operands => opcode :: operands
  | invoke opcode index count =>
    opcode :: (Bytes.field16 index ++ if opcode.isLongInvoke then [count, 0] else [])
  | branch opcode target =>
    opcode :: distanceForm (if opcode.isWideBranch then 4 else 2) offset target
  | switch opcode default cases =>
    opcode :: (padding ++ distanceForm 4 offset default ++ casesForm offset cases)
  | methodReturn opcode => [opcode]
  | raise => [Opcode.athrow]
  | subroutineReturn index true => Opcode.wide :: Opcode.ret :: Bytes.field16 index
  | subroutineReturn index false => [Opcode.ret, index.toUInt8]

/-- The padding that is written. -/
def zeros (offset : Nat) : List UInt8 :=
  List.replicate (switchPadding offset) 0

@[simp]
theorem length_zeros (offset : Nat) :
  (zeros offset).length = switchPadding offset
  := List.length_replicate

@[simp]
theorem length_distanceForm (width offset target : Nat) :
  (distanceForm width offset target).length = width
  := Bytes.length_signed width _

theorem length_casesForm (offset : Nat) (cases : SwitchCases) :
  4 + (casesForm offset cases).length = cases.size
  := by
  cases cases with
  | table low targets =>
    simp [casesForm, SwitchCases.size, List.length_flatMap]
    omega
  | lookup pairs =>
    simp [casesForm, pairForm, SwitchCases.size, List.length_flatMap]
    omega

/-- The size of an operation is the length of its forms. -/
theorem length_form {padding : List UInt8} {offset : Nat} (op : Operation)
    (hpadding : padding.length = switchPadding offset) :
  (op.form padding offset).length = op.size offset
  := by
  cases op with
  | plain opcode operands => simp [form, size, Nat.add_comm]
  | invoke opcode index count =>
    simp only [form, size, List.length_cons, List.length_append, Bytes.length_field16]
    split <;> rfl
  | branch opcode target =>
    simp only [form, size, List.length_cons, length_distanceForm]
    split <;> rfl
  | switch opcode default cases =>
    have hcases := length_casesForm offset cases
    simp only [form, size, List.length_cons, List.length_append, length_distanceForm, hpadding]
    omega
  | methodReturn opcode => rfl
  | raise => rfl
  | subroutineReturn index wide =>
    cases wide <;> simp [form, size]

/-- An operation takes at least a byte. -/
theorem size_pos (offset : Nat) (op : Operation) :
  0 < op.size offset
  := by
  cases op with
  | invoke opcode index count =>
    simp only [size]
    split <;> decide
  | branch opcode target =>
    simp only [size]
    split <;> decide
  | subroutineReturn index wide => cases wide <;> simp [size]
  | _ => simp [size]; try omega

/-! ## Reading distances -/

open Reader

instance (width offset codeLength : Nat) : IsLocal (readTarget width offset codeLength) :=
  inferInstanceAs (IsLocal (signed width >>= fun distance => lift (resolve offset distance _)))

theorem resolve_eq_ok {offset codeLength target : Nat} {distance : Int} :
  resolve offset distance codeLength = .ok target
    ↔ distance = target - offset ∧ target < codeLength
  := by
  simp only [resolve]
  split
  · simp only [reduceCtorEq, false_iff]
    omega
  · simp only [Except.ok.injEq]
    omega

theorem hasForm_readTarget (width offset codeLength : Nat) :
  (readTarget width offset codeLength).HasForm (Reaches width offset codeLength)
    (distanceForm width offset)
  := by
  intro taken target
  simp only [readTarget, reads_bind, reads_signed, reads_lift, resolve_eq_ok]
  constructor
  · rintro ⟨_, _, ⟨hfits, rfl⟩, _, ⟨⟨rfl, hlt⟩, rfl⟩, rfl⟩
    exact ⟨⟨hlt, hfits⟩, by simp [distanceForm]⟩
  · rintro ⟨⟨hlt, hfits⟩, rfl⟩
    exact ⟨_, _, ⟨hfits, rfl⟩, [], ⟨⟨rfl, hlt⟩, rfl⟩, by simp [distanceForm]⟩

instance (offset codeLength : Nat) : IsLocal (readPair offset codeLength) := by
  rw [readPair]
  infer_instance

theorem hasForm_readPair (offset codeLength : Nat) :
  (readPair offset codeLength).HasForm (fun pair => Reaches 4 offset codeLength pair.2)
    (pairForm offset)
  := by
  rintro taken ⟨key, target⟩
  simp only [readPair, reads_bind, reads_pure, (hasForm_readTarget _ _ _) _ _, Prod.mk.injEq,
    pairForm]
  constructor
  · rintro ⟨z, _, hz, _, ⟨_, _, ⟨htarget, rfl⟩, _, ⟨⟨rfl, rfl⟩, rfl⟩, rfl⟩, rfl⟩
    rw [reads_int32.mp ⟨z, hz, rfl⟩]
    exact ⟨htarget, by simp⟩
  · rintro ⟨htarget, rfl⟩
    obtain ⟨z, hz, hkey⟩ := reads_int32.mpr (rfl : Bytes.signed 4 key.toInt = _)
    exact ⟨z, _, hz, _, ⟨target, _, ⟨htarget, rfl⟩, [], ⟨⟨hkey, rfl⟩, rfl⟩, rfl⟩, by simp⟩

/-! ## Reading switches -/

/-- Whether the cases can stand in a switch with this opcode at `offset`. -/
def CasesInReach (opcode : Opcode) (offset codeLength : Nat) (cases : SwitchCases) : Prop :=
  (switch opcode 0 cases).WellFormed ∧ ∀ target ∈ cases.targets, Reaches 4 offset codeLength target

/-- The forms of `count` things of `width` bytes have `count * width` bytes. -/
theorem mul_le_length {α : Type} {r : Reader α} {valid : α → Prop} {form : α → List UInt8}
    [IsLocal r] (h : r.HasForm valid form) {width : Nat} (hwidth : ∀ a, (form a).length = width)
    (count : Nat) (taken : List UInt8) (as : List α) :
  (times count r).Reads taken as → count * width ≤ taken.length
  := by
  rw [h.times count]
  rintro ⟨⟨hlength, -⟩, rfl⟩
  rw [List.length_flatMap, List.map_congr_left fun a _ => hwidth a, List.map_const',
    List.sum_replicate_nat, hlength]

theorem length_pairForm (offset : Nat) (pair : Int32 × Nat) :
  (pairForm offset pair).length = 8
  := by
  simp [pairForm]

theorem le_length_readTargets (offset codeLength count : Nat) (taken : List UInt8)
    (targets : List Nat) :
  (times count (readTarget 4 offset codeLength)).Reads taken targets → count * 4 ≤ taken.length
  := mul_le_length (hasForm_readTarget 4 offset codeLength) (length_distanceForm 4 offset) _ _ _

theorem le_length_readPairs (offset codeLength count : Nat) (taken : List UInt8)
    (pairs : List (Int32 × Nat)) :
  (times count (readPair offset codeLength)).Reads taken pairs → count * 8 ≤ taken.length
  := mul_le_length (hasForm_readPair offset codeLength) (length_pairForm offset) _ _ _

/-- Reads `count` things after asking for their bytes. -/
def demandTimes {α : Type} (count width : Nat) (r : Reader α) : Reader (List α) := do
  demand (count * width)
  times count r

instance (offset codeLength count : Nat) :
    IsLocal (demandTimes count 4 (readTarget 4 offset codeLength)) :=
  isLocal_demand_bind (le_length_readTargets offset codeLength count)

instance (offset codeLength count : Nat) :
    IsLocal (demandTimes count 8 (readPair offset codeLength)) :=
  isLocal_demand_bind (le_length_readPairs offset codeLength count)

theorem readTable_eq (offset codeLength : Nat) :
  readTable offset codeLength = (do
    let low ← signed 4
    let high ← signed 4
    if high < low then throw (.malformed (.emptyTableRange offset))
    else
      (SwitchCases.table (Int32.ofInt low)) <$>
        demandTimes (high - low + 1).toNat 4 (readTarget 4 offset codeLength))
  := by
  simp only [readTable, demandTimes, map_eq_pure_bind, bind_assoc]

theorem readLookup_eq (offset codeLength : Nat) :
  readLookup offset codeLength = (do
    let count ← signed 4
    if count < 0 then throw (.malformed (.negativePairCount offset count))
    else SwitchCases.lookup <$> demandTimes count.toNat 8 (readPair offset codeLength))
  := by
  simp only [readLookup, demandTimes, map_eq_pure_bind, bind_assoc]

instance (offset codeLength : Nat) : IsLocal (readTable offset codeLength) := by
  rw [readTable_eq]
  infer_instance

instance (offset codeLength : Nat) : IsLocal (readLookup offset codeLength) := by
  rw [readLookup_eq]
  infer_instance

instance (opcode : Opcode) (offset codeLength : Nat) :
    IsLocal (readCases opcode offset codeLength) := by
  rw [readCases]
  infer_instance

theorem reads_demandTargets {offset codeLength count : Nat} {taken : List UInt8}
    {targets : List Nat} :
  (demandTimes count 4 (readTarget 4 offset codeLength)).Reads taken targets
    ↔ (targets.length = count ∧ ∀ target ∈ targets, Reaches 4 offset codeLength target)
      ∧ taken = targets.flatMap (distanceForm 4 offset)
  := by
  rw [demandTimes, reads_demand_bind (le_length_readTargets offset codeLength count)]
  apply (hasForm_readTarget 4 offset codeLength).times count taken targets

theorem reads_demandPairs {offset codeLength count : Nat} {taken : List UInt8}
    {pairs : List (Int32 × Nat)} :
  (demandTimes count 8 (readPair offset codeLength)).Reads taken pairs
    ↔ (pairs.length = count ∧ ∀ pair ∈ pairs, Reaches 4 offset codeLength pair.2)
      ∧ taken = pairs.flatMap (pairForm offset)
  := by
  rw [demandTimes, reads_demand_bind (le_length_readPairs offset codeLength count)]
  apply (hasForm_readPair offset codeLength).times count taken pairs

theorem hasForm_readTable (offset codeLength : Nat) :
  (readTable offset codeLength).HasForm (CasesInReach Opcode.tableswitch offset codeLength)
    (casesForm offset)
  := by
  intro taken cases
  rw [readTable_eq]
  simp only [reads_bind, reads_signed, reads_ite_throw, reads_map, reads_demandTargets]
  constructor
  · rintro ⟨low, _, ⟨hlow, rfl⟩, _, ⟨high, _, ⟨hhigh, rfl⟩, _,
      ⟨hle, targets, ⟨⟨hlength, htargets⟩, rfl⟩, rfl⟩, rfl⟩, rfl⟩
    have hcount : low + targets.length - 1 = high := by omega
    have hlimit : high < 2 ^ 31 := by
      have := hhigh.2
      norm_num at this
      omega
    refine ⟨⟨⟨rfl, by omega, ?_⟩, htargets⟩, ?_⟩
    · rw [hlow.toInt_int32]
      omega
    · simp only [casesForm, hlow.toInt_int32, hcount, List.append_assoc]
  · rintro ⟨⟨hwf, htargets⟩, rfl⟩
    cases cases with
    | lookup pairs => exact absurd hwf.1 (by decide)
    | table low targets =>
      obtain ⟨-, hpos, hlimit⟩ := hwf
      have hlow := low.le_toInt
      refine ⟨low.toInt, _, ⟨Bytes.fits_int32 low, rfl⟩, _,
        ⟨low.toInt + targets.length - 1, _, ⟨?_, rfl⟩, _,
          ⟨by omega, targets, ⟨⟨by omega, htargets⟩, rfl⟩, ?_⟩, rfl⟩, ?_⟩
      · constructor
        · norm_num
          omega
        · norm_num
          omega
      · rw [Int32.ofInt_toInt]
      · simp only [casesForm, List.append_assoc]

theorem hasForm_readLookup (offset codeLength : Nat) :
  (readLookup offset codeLength).HasForm (CasesInReach Opcode.lookupswitch offset codeLength)
    (casesForm offset)
  := by
  intro taken cases
  rw [readLookup_eq]
  simp only [reads_bind, reads_signed, reads_ite_throw, reads_map, reads_demandPairs]
  constructor
  · rintro ⟨count, _, ⟨hcount, rfl⟩, _, ⟨hnonneg, pairs, ⟨⟨hlength, hpairs⟩, rfl⟩, rfl⟩, rfl⟩
    have hlimit := hcount.2
    norm_num at hlimit
    refine ⟨⟨⟨rfl, by omega⟩, ?_⟩, ?_⟩
    · simpa [SwitchCases.targets] using fun target key h => hpairs (key, target) h
    · rw [casesForm, Bytes.count32, Bytes.signed, hlength]
      congr 3
      norm_num
      omega
  · rintro ⟨⟨hwf, htargets⟩, rfl⟩
    cases cases with
    | table low targets => exact absurd hwf.1 (by decide)
    | lookup pairs =>
      obtain ⟨-, hlimit⟩ := hwf
      refine ⟨pairs.length, _, ⟨⟨?_, ?_⟩, rfl⟩, _,
        ⟨by omega, pairs, ⟨⟨by simp, ?_⟩, rfl⟩, rfl⟩, ?_⟩
      · norm_num
        omega
      · norm_num
        omega
      · exact fun pair h => htargets pair.2 (List.mem_map_of_mem h)
      · rw [casesForm, Bytes.count32, Bytes.signed]
        congr 3
        norm_num
        omega

theorem reads_readCases {opcode : Opcode} {offset codeLength : Nat} {taken : List UInt8}
    {cases : SwitchCases} (hopcode : opcode.layout? = some .switch) :
  (readCases opcode offset codeLength).Reads taken cases
    ↔ CasesInReach opcode offset codeLength cases ∧ taken = casesForm offset cases
  := by
  rcases Opcode.eq_of_layout?_switch opcode hopcode with rfl | rfl
  · apply hasForm_readTable offset codeLength taken cases
  · apply hasForm_readLookup offset codeLength taken cases

/-! ## Reading operations -/

instance (opcode : Opcode) (offset codeLength : Nat) :
    IsLocal (readSwitch opcode offset codeLength) := by
  rw [readSwitch]
  infer_instance

instance (opcode : Opcode) : IsLocal (readPlainInvoke opcode) := by
  rw [readPlainInvoke]
  infer_instance

instance (opcode : Opcode) (offset : Nat) : IsLocal (readLongInvoke opcode offset) := by
  rw [readLongInvoke]
  infer_instance

instance : IsLocal readRet := by
  rw [readRet]
  infer_instance

instance (opcode : Opcode) (length offset : Nat) : IsLocal (readFixed opcode length offset) := by
  rw [readFixed]
  infer_instance

instance (offset : Nat) : IsLocal (readWide offset) := by
  rw [readWide]
  infer_instance

instance (offset codeLength : Nat) (opcode : Opcode) :
    IsLocal (readOperands offset codeLength opcode) := by
  rw [readOperands]
  split <;> infer_instance

instance (offset codeLength : Nat) : IsLocal (read offset codeLength) := by
  rw [read]
  infer_instance

/-- Whether `taken` is the opcode and a form of the operands of `op`. -/
def IsForm (offset codeLength : Nat) (taken : List UInt8) (op : Operation) : Prop :=
  op.WellFormed ∧ op.InReach offset codeLength
    ∧ ∃ padding, padding.length = switchPadding offset ∧ taken = op.form padding offset

/-- Operations without targets have the form with zeros for padding. -/
theorem isForm_of_zeros {offset codeLength : Nat} {taken : List UInt8} {op : Operation}
    (hwf : op.WellFormed) (htargets : op.targets = [])
    (htaken : taken = op.form (zeros offset) offset) :
  IsForm offset codeLength taken op
  := by
  refine ⟨hwf, ?_, zeros offset, length_zeros offset, htaken⟩
  intro target htarget
  rw [htargets] at htarget
  cases htarget

theorem isForm_of_reads_switch {opcode : Opcode} {offset codeLength : Nat} {back : List UInt8}
    {op : Operation} (hopcode : opcode.layout? = some .switch)
    (h : (readSwitch opcode offset codeLength).Reads back op) :
  IsForm offset codeLength (opcode :: back) op
  := by
  simp only [readSwitch, reads_bind, reads_take, (hasForm_readTarget _ _ _) _ _, reads_pure,
    reads_readCases hopcode] at h
  obtain ⟨padding, front, ⟨hfront, hpadding⟩, _, ⟨default, _, ⟨hdefault, rfl⟩, _,
    ⟨cases, _, ⟨⟨hwf, hcases⟩, rfl⟩, _, ⟨rfl, rfl⟩, rfl⟩, rfl⟩, rfl⟩ := h
  refine ⟨?_, ?_, padding, hpadding, ?_⟩
  · cases cases <;> exact hwf
  · intro target htarget
    rcases List.mem_cons.mp htarget with rfl | htarget
    · apply hdefault
    · apply hcases target htarget
  · simp [form, hfront]

theorem isForm_of_reads_branch {opcode : Opcode} {width offset codeLength : Nat}
    {back : List UInt8} {op : Operation}
    (hopcode : opcode.layout? = some .branch16 ∨ opcode.layout? = some .branch32)
    (hwidth : width = if opcode.isWideBranch then 4 else 2)
    (h : (branch opcode <$> readTarget width offset codeLength).Reads back op) :
  IsForm offset codeLength (opcode :: back) op
  := by
  simp only [reads_map, (hasForm_readTarget _ _ _) _ _] at h
  obtain ⟨target, ⟨htarget, rfl⟩, rfl⟩ := h
  refine ⟨hopcode, ?_, zeros offset, length_zeros offset, ?_⟩
  · intro target' htarget'
    obtain rfl := List.mem_singleton.mp htarget'
    rw [distanceWidth, ← hwidth]
    apply htarget
  · rw [form, hwidth]

theorem isForm_of_reads_fixed {opcode : Opcode} {length offset codeLength : Nat}
    {back : List UInt8} {op : Operation} (hopcode : opcode.layout? = some (.fixed length))
    (h : (readFixed opcode length offset).Reads back op) :
  IsForm offset codeLength (opcode :: back) op
  := by
  simp only [readFixed] at h
  split at h
  · rename_i hplain
    simp only [readPlainInvoke, reads_bind, reads_field16, reads_pure] at h
    obtain ⟨index, _, rfl, _, ⟨rfl, rfl⟩, rfl⟩ := h
    have hlong : opcode.isLongInvoke = false := by
      by_contra hlong
      have := Opcode.layout?_of_isLongInvoke opcode (by simpa using hlong)
      simp_all
    refine isForm_of_zeros (.inl ⟨hplain, rfl⟩) rfl ?_
    simp [form, hlong]
  split at h
  · rename_i hlong
    simp only [readLongInvoke, reads_bind, reads_field16, reads_field8, reads_ite_throw,
      reads_pure] at h
    obtain ⟨index, _, rfl, _, ⟨count, _, rfl, _, ⟨reserved, _, rfl, _, ⟨hzero, rfl, rfl⟩, rfl⟩,
      rfl⟩, rfl⟩ := h
    simp only [not_or, not_and, ne_eq, Decidable.not_not] at hzero
    refine isForm_of_zeros (.inr ⟨hlong, hzero.2⟩) rfl ?_
    simp [form, hlong, hzero.1]
  split at h
  · rename_i hreturn
    obtain ⟨rfl, rfl⟩ := reads_pure.mp h
    exact isForm_of_zeros hreturn rfl rfl
  split at h
  · rename_i hraise
    obtain ⟨rfl, rfl⟩ := reads_pure.mp h
    exact isForm_of_zeros trivial rfl (by rw [hraise, form])
  split at h
  · rename_i hret
    simp only [readRet, reads_bind, reads_unsigned, reads_pure] at h
    obtain ⟨index, _, ⟨hindex, rfl⟩, _, ⟨rfl, rfl⟩, rfl⟩ := h
    have hlt : (UInt16.ofNat index).toNat = index := UInt16.toNat_ofNat_of_lt' (by
      rw [UInt16.size]
      omega)
    apply isForm_of_zeros _ rfl
    · rw [hret, form]
      simp [Bytes.bigEndian]
    · intro _
      rw [UInt16.lt_iff_toNat_lt, hlt]
      apply hindex
  · simp only [reads_map, reads_take] at h
    obtain ⟨operands, ⟨rfl, rfl⟩, rfl⟩ := h
    refine isForm_of_zeros (.inl ⟨hopcode, ?_⟩) rfl rfl
    simp_all [Opcode.isSpecial]

theorem isForm_of_reads_wide {offset codeLength : Nat} {back : List UInt8} {op : Operation}
    (h : (readWide offset).Reads back op) :
  IsForm offset codeLength (Opcode.wide :: back) op
  := by
  simp only [readWide, reads_bind, reads_field8] at h
  obtain ⟨widened, _, rfl, _, h, rfl⟩ := h
  split at h
  · rename_i hret
    simp only [reads_bind, reads_field16, reads_pure] at h
    obtain ⟨index, _, rfl, _, ⟨rfl, rfl⟩, rfl⟩ := h
    refine isForm_of_zeros (fun h => by cases h) rfl ?_
    simp [form, hret]
  · rename_i hret
    simp only [reads_ite_else_throw, reads_bind, reads_take, reads_pure] at h
    obtain ⟨hwidenable, operands, _, ⟨rfl, hlength⟩, _, ⟨rfl, rfl⟩, rfl⟩ := h
    refine isForm_of_zeros (.inr ⟨rfl, hwidenable, hret, hlength⟩) rfl ?_
    simp [form]

/-- What is read is a form. -/
theorem isForm_of_reads {offset codeLength : Nat} {taken : List UInt8} {op : Operation}
    (h : (read offset codeLength).Reads taken op) :
  IsForm offset codeLength taken op
  := by
  simp only [read, reads_bind, reads_field8] at h
  obtain ⟨opcode, _, rfl, back, h, rfl⟩ := h
  simp only [readOperands] at h
  split at h
  · exact absurd h not_reads_throw
  · rename_i length hopcode
    apply isForm_of_reads_fixed hopcode h
  · rename_i hopcode
    apply isForm_of_reads_branch (.inl hopcode) _ h
    rw [Opcode.isWideBranch_of_branch16 opcode hopcode]
    rfl
  · rename_i hopcode
    apply isForm_of_reads_branch (.inr hopcode) _ h
    rw [Opcode.isWideBranch_of_branch32 opcode hopcode]
    rfl
  · rename_i hopcode
    apply isForm_of_reads_switch hopcode h
  · rename_i hopcode
    obtain rfl := Opcode.eq_of_layout?_wide opcode hopcode
    apply isForm_of_reads_wide h

theorem reads_of_operands {opcode : Opcode} {offset codeLength : Nat} {back : List UInt8}
    {op : Operation} (h : (readOperands offset codeLength opcode).Reads back op) :
  (read offset codeLength).Reads (opcode :: back) op
  := (reads_field8.mpr rfl).bind h

theorem reads_of_fixed {opcode : Opcode} {length offset codeLength : Nat} {back : List UInt8}
    {op : Operation} (hopcode : opcode.layout? = some (.fixed length))
    (h : (readFixed opcode length offset).Reads back op) :
  (read offset codeLength).Reads (opcode :: back) op
  := by
  apply reads_of_operands
  rw [readOperands, hopcode]
  apply h

theorem reads_plain {offset codeLength : Nat} {opcode : Opcode} {operands : List UInt8}
    (hwf : (plain opcode operands).WellFormed) :
  (read offset codeLength).Reads (opcode :: operands) (plain opcode operands)
  := by
  rcases hwf with ⟨hopcode, hspecial⟩ | ⟨rfl, hwidened⟩
  · apply reads_of_fixed hopcode
    simp only [Opcode.isSpecial, Bool.or_eq_false_iff, beq_eq_false_iff_ne] at hspecial
    obtain ⟨⟨⟨⟨hplain, hlong⟩, hreturn⟩, hraise⟩, hret⟩ := hspecial
    simp only [readFixed, hplain, hlong, hreturn, hraise, hret, if_false, Bool.false_eq_true]
    apply reads_map.mpr ⟨operands, reads_take.mpr ⟨rfl, rfl⟩, rfl⟩
  · rcases operands with _ | ⟨widened, rest⟩
    · cases hwidened
    obtain ⟨hwidenable, hret, hlength⟩ := hwidened
    apply reads_of_operands
    change (readWide offset).Reads _ _
    apply Reads.field8_bind
    rw [if_neg hret, if_pos hwidenable]
    exact reads_bind.mpr ⟨rest, rest, reads_take.mpr ⟨rfl, hlength⟩, [],
      reads_pure.mpr ⟨rfl, rfl⟩, (List.append_nil rest).symm⟩

theorem reads_invoke {offset codeLength : Nat} {padding : List UInt8} {opcode : Opcode}
    {index : UInt16} {count : UInt8} (hwf : (invoke opcode index count).WellFormed) :
  (read offset codeLength).Reads ((invoke opcode index count).form padding offset)
    (invoke opcode index count)
  := by
  rcases hwf with ⟨hplain, rfl⟩ | ⟨hlong, hcount⟩
  · have hlong : opcode.isLongInvoke = false := by
      by_contra hlong
      have := Opcode.layout?_of_isLongInvoke opcode (by simpa using hlong)
      simp_all
    apply reads_of_fixed (Opcode.layout?_of_isPlainInvoke opcode hplain)
    rw [readFixed, if_pos hplain, hlong]
    exact (reads_field16.mpr rfl).bind (reads_pure.mpr ⟨rfl, rfl⟩)
  · obtain ⟨hopcode, hplain⟩ := Opcode.layout?_of_isLongInvoke opcode hlong
    apply reads_of_fixed hopcode
    rw [readFixed, hplain, if_neg Bool.false_ne_true, if_pos hlong, if_pos hlong]
    apply (reads_field16.mpr rfl).bind
    apply Reads.field8_bind
    apply Reads.field8_bind
    rw [if_neg]
    · apply reads_pure.mpr ⟨rfl, rfl⟩
    · simpa using hcount

theorem reads_branch {offset codeLength : Nat} {padding : List UInt8} {opcode : Opcode}
    {target : Nat} (hwf : (branch opcode target).WellFormed)
    (hreach : (branch opcode target).InReach offset codeLength) :
  (read offset codeLength).Reads ((branch opcode target).form padding offset)
    (branch opcode target)
  := by
  have htarget := hreach target (List.mem_singleton.mpr rfl)
  apply reads_of_operands
  rcases hwf with hopcode | hopcode
  · rw [readOperands, hopcode]
    rw [distanceWidth, Opcode.isWideBranch_of_branch16 opcode hopcode] at htarget
    rw [Opcode.isWideBranch_of_branch16 opcode hopcode]
    apply reads_map.mpr ⟨target, (hasForm_readTarget _ _ _).reads htarget, rfl⟩
  · rw [readOperands, hopcode]
    rw [distanceWidth, Opcode.isWideBranch_of_branch32 opcode hopcode] at htarget
    rw [Opcode.isWideBranch_of_branch32 opcode hopcode]
    apply reads_map.mpr ⟨target, (hasForm_readTarget _ _ _).reads htarget, rfl⟩

theorem reads_switch {offset codeLength : Nat} {padding : List UInt8} {opcode : Opcode}
    {default : Nat} {cases : SwitchCases} (hwf : (switch opcode default cases).WellFormed)
    (hreach : (switch opcode default cases).InReach offset codeLength)
    (hpadding : padding.length = switchPadding offset) :
  (read offset codeLength).Reads ((switch opcode default cases).form padding offset)
    (switch opcode default cases)
  := by
  have hopcode : opcode.layout? = some .switch := by
    cases cases with
    | table low targets => rw [hwf.1]; rfl
    | lookup pairs => rw [hwf.1]; rfl
  have hcases : CasesInReach opcode offset codeLength cases := by
    constructor
    · cases cases <;> exact hwf
    · intro target htarget
      apply hreach target (List.mem_cons_of_mem default htarget)
  apply reads_of_operands
  rw [readOperands, hopcode, List.append_assoc]
  apply Reads.bind (reads_take.mpr ⟨rfl, hpadding⟩)
  apply Reads.bind
  · apply (hasForm_readTarget _ _ _).reads (hreach default List.mem_cons_self)
  · rw [← List.append_nil (casesForm offset cases)]
    exact ((reads_readCases hopcode).mpr ⟨hcases, rfl⟩).bind (reads_pure.mpr ⟨rfl, rfl⟩)

theorem reads_subroutineReturn {offset codeLength : Nat} {padding : List UInt8} {index : UInt16}
    {wide : Bool} (hwf : (subroutineReturn index wide).WellFormed) :
  (read offset codeLength).Reads ((subroutineReturn index wide).form padding offset)
    (subroutineReturn index wide)
  := by
  cases wide with
  | false =>
    change (read offset codeLength).Reads (Opcode.ret :: [index.toUInt8]) _
    apply reads_of_operands
    have hindex : index.toNat < 256 := UInt16.lt_iff_toNat_lt.mp (hwf rfl)
    change readRet.Reads [index.toUInt8] _
    rw [← List.append_nil [index.toUInt8]]
    apply Reads.bind (reads_unsigned.mpr ⟨hindex, by simp [Bytes.bigEndian]⟩)
    simp
  | true =>
    change (read offset codeLength).Reads (Opcode.wide :: _) _
    apply reads_of_operands
    change (readWide offset).Reads _ _
    apply Reads.field8_bind
    rw [if_pos rfl, ← List.append_nil (Bytes.field16 index)]
    exact (reads_field16.mpr rfl).bind (reads_pure.mpr ⟨rfl, rfl⟩)

/-- Forms are read. -/
theorem reads_of_isForm {offset codeLength : Nat} {taken : List UInt8} {op : Operation}
    (h : IsForm offset codeLength taken op) :
  (read offset codeLength).Reads taken op
  := by
  obtain ⟨hwf, hreach, padding, hpadding, rfl⟩ := h
  cases op with
  | plain opcode operands => apply reads_plain hwf
  | invoke opcode index count => apply reads_invoke hwf
  | branch opcode target => apply reads_branch hwf hreach
  | switch opcode default cases => apply reads_switch hwf hreach hpadding
  | methodReturn opcode =>
    obtain ⟨hopcode, hplain, hlong⟩ := Opcode.layout?_of_isReturn opcode hwf
    apply reads_of_fixed hopcode
    simp only [readFixed, hplain, hlong, Bool.false_eq_true, if_false]
    rw [if_pos (by exact hwf)]
    apply reads_pure.mpr ⟨rfl, rfl⟩
  | raise =>
    have hopcode : Opcode.athrow.layout? = some (.fixed 0) := rfl
    apply reads_of_fixed hopcode (reads_pure.mpr ⟨rfl, rfl⟩)
  | subroutineReturn index wide => apply reads_subroutineReturn hwf

/-- Reading accepts exactly the forms of the operations that are well formed and in reach. -/
theorem reads_read {offset codeLength : Nat} {taken : List UInt8} {op : Operation} :
  (read offset codeLength).Reads taken op ↔ IsForm offset codeLength taken op
  := ⟨isForm_of_reads, reads_of_isForm⟩

/-! ## Writing operations -/

theorem longDistance_eq {offset codeLength target : Nat}
    (h : Reaches 4 offset codeLength target) :
  longDistance offset target = .ok (distanceForm 4 offset target)
  := by
  obtain ⟨-, hlow, hhigh⟩ := h
  norm_num at hlow hhigh
  apply if_pos ⟨by omega, by omega⟩

theorem shortDistance_eq {opcode : Opcode} {offset codeLength target : Nat}
    (h : Reaches 2 offset codeLength target) :
  shortDistance opcode offset target = .ok (distanceForm 2 offset target)
  := by
  obtain ⟨-, hlow, hhigh⟩ := h
  norm_num at hlow hhigh
  apply if_pos ⟨by omega, by omega⟩

theorem casesBytes_eq {offset codeLength : Nat} {cases : SwitchCases}
    (h : ∀ target ∈ cases.targets, Reaches 4 offset codeLength target) :
  casesBytes offset cases = .ok (casesForm offset cases)
  := by
  cases cases with
  | table low targets =>
    have htargets : targets.mapM (longDistance offset)
        = .ok (targets.map (distanceForm 4 offset)) :=
      mapM_eq_map fun target htarget => longDistance_eq (h target htarget)
    rw [casesBytes, htargets, casesForm, List.flatMap]
    rfl
  | lookup pairs =>
    have hpairs : ∀ pair ∈ pairs,
        ((Bytes.signed 4 pair.1.toInt ++ ·) <$> longDistance offset pair.2)
          = Except.ok (pairForm offset pair) := by
      intro pair hpair
      rw [longDistance_eq (h pair.2 (List.mem_map_of_mem hpair))]
      rfl
    rw [casesBytes, mapM_eq_map hpairs, casesForm, List.flatMap]
    rfl

/-- An operation in reach is written, with zeros for padding. -/
theorem toBytes_eq {offset codeLength : Nat} {op : Operation} (hwf : op.WellFormed)
    (hreach : op.InReach offset codeLength) :
  op.toBytes offset = .ok (op.form (zeros offset) offset)
  := by
  cases op with
  | plain opcode operands => rfl
  | invoke opcode index count => rfl
  | branch opcode target =>
    have htarget := hreach target (List.mem_singleton.mpr rfl)
    simp only [distanceWidth] at htarget
    simp only [toBytes, form]
    split
    · rename_i hwide
      rw [if_pos hwide] at htarget
      rw [longDistance_eq htarget]
      rfl
    · rename_i hwide
      rw [if_neg hwide] at htarget
      rw [shortDistance_eq htarget]
      rfl
  | switch opcode default cases =>
    rw [toBytes, longDistance_eq (hreach default List.mem_cons_self),
      casesBytes_eq fun target htarget => hreach target (List.mem_cons_of_mem default htarget)]
    rfl
  | methodReturn opcode => rfl
  | raise => rfl
  | subroutineReturn index wide =>
    cases wide with
    | false => apply if_pos (hwf rfl)
    | true => rfl

end Operation

end JvmCoverage
