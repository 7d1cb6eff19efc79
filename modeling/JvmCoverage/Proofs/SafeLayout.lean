import JvmCoverage.Machine.Layout
import JvmCoverage.Proofs.Layout
import JvmCoverage.Proofs.SafeGraph

/-!
# Laying out code does not fault

The arrays of a layout on a machine are those of the sites of a layout (`Layout.of`), so that they
have a place for every instruction.  An instruction moves by at most seventeen bytes more than the
one in front of it, which keeps the offsets below `2 ^ 21`, and each round of the loop that does
not end it widens a jump, of which there are no more than instructions.
-/

namespace JvmCoverage.Machine

variable {m : Type → Type} [Monad m] [Faulting m] [LawfulMonad m]

/-- The arrays for a layout. -/
def Layout.of (layout : JvmCoverage.Layout) : Layout where
  oldOffsets := layout.sites.toList.map Site.old
  oldLength := layout.oldLength
  labels := layout.labels.toList
  positions := layout.places.map fun place => place.1.position place.2
  widened := layout.sites.toList.map Site.widened
  length := layout.length

/-! ## Looking up -/

section LookingUp

variable {layout : JvmCoverage.Layout}

theorem index?_of (layout : JvmCoverage.Layout) (old : Nat) :
  (Layout.of layout).index? old = layout.index? old
  := by
  apply Search.find?_eq_of_map_eq
  apply Array.toList_inj.mp
  simp [Layout.of]

/-- Whether there is a label for every instruction. -/
def IsFull (layout : JvmCoverage.Layout) : Prop :=
  layout.sites.size ≤ layout.labels.size

theorem label?_of (hfull : IsFull layout) (old : Nat) :
  ((Layout.of layout).label? old : m (Option Nat)) = pure (layout.label? old)
  := by
  rw [Layout.label?, index?_of, JvmCoverage.Layout.label?]
  cases hi : layout.index? old with
  | none => rfl
  | some i =>
    have hlt : i < layout.labels.size := (Search.find?_lt hi).trans_le hfull
    have hitem : (item (Layout.of layout).labels i : m Nat) = pure layout.labels[i] := by
      apply item_eq
      rw [Layout.of, Array.getElem?_toList, Array.getElem?_eq_getElem hlt]
    simp [hitem, Array.getElem?_eq_getElem hlt]

theorem limit?_of (hfull : IsFull layout) (old : Nat) :
  ((Layout.of layout).limit? old : m (Option Nat)) = pure (layout.limit? old)
  := by
  rw [Layout.limit?, JvmCoverage.Layout.limit?, label?_of hfull]
  exact (apply_ite pure _ _ _).symm

theorem position?_of (hfull : IsFull layout) (old : Nat) :
  ((Layout.of layout).position? old : m (Option Nat)) = pure (layout.position? old)
  := by
  rw [Layout.position?, index?_of, JvmCoverage.Layout.position?]
  cases hi : layout.index? old with
  | none => rfl
  | some i =>
    have hlt : i < layout.sites.size := Search.find?_lt hi
    have hlt' : i < layout.labels.size := hlt.trans_le hfull
    have hitem : (item (Layout.of layout).positions i : m Nat)
        = pure (layout.sites[i].position layout.labels[i]) := by
      apply item_eq
      simp [Layout.of, JvmCoverage.Layout.places, hlt, hlt']
    simp [hitem, hlt, hlt']

theorem isFull_ofSites (oldLength : Nat) (sites : Array Site) :
  IsFull (JvmCoverage.Layout.ofSites oldLength sites)
  := by
  have h := congrArg List.length (Layout.map_fst_placesFrom 0 sites.toList)
  rw [JvmCoverage.Layout.ofSites_eq]
  simpa only [IsFull, List.size_toArray, List.length_map, Array.length_toList] using h.ge

end LookingUp

/-! ## Places -/

theorem size_le (op : Operation) (offset offset' : Nat) :
  op.size offset ≤ op.size offset' + 3
  := by
  cases op with
  | switch opcode default cases =>
    simp only [Operation.size, JvmCoverage.switchPadding]
    omega
  | _ => simp [Operation.size]

/-- The greatest number of bytes that an instruction gains. -/
def gain : Nat := 17

theorem limit_le_gain (site : Site) (label : Nat) :
  site.limit label + site.insn.offset ≤ label + gain + site.insn.limit
  := by
  have hsize := size_le site.insn.op (site.position label) site.insn.offset
  have hlead : site.lead ≤ 9 := by
    unfold Site.lead
    split <;> decide
  have hwidened : site.size (site.position label)
      ≤ 5 + site.insn.op.size (site.position label) := by
    unfold Site.size
    split <;> simp [Site.widenedSize]
  rw [Site.limit, Instruction.limit, Site.position, gain] at *
  omega

section Placing

variable {site : Site} {front sites : List Site}

omit [LawfulMonad m] in
theorem positionAt_eq {probed : List Bool} {label i : Nat}
    (hprobed : probed[i]? = some site.probe.isSome) (hlimit : site.limit label < 2 ^ 32) :
  (positionAt probed label i : m Nat) = pure (site.position label)
  := by
  have hlt := site.position_lt_limit label
  rw [positionAt, hprobed, Option.getD_some, Site.position, Site.lead]
  rw [Site.position, Site.lead] at hlt
  split
  · rename_i hprobe
    rw [if_pos hprobe] at hlt
    exact add_eq (by omega)
  · rfl

theorem sizeAt_eq {widened : List Bool} {label i : Nat}
    (hwidened : widened[i]? = some site.widened) (hlimit : site.limit label < 2 ^ 32) :
  (sizeAt widened (site.position label) site.insn i : m Nat)
    = pure (site.size (site.position label))
  := by
  have hlt := site.position_lt_limit label
  rw [Site.limit] at hlimit hlt
  rw [sizeAt, item_eq hwidened, pure_bind]
  rw [Site.size] at hlimit hlt ⊢
  split
  · rfl
  · rename_i hnarrow
    rw [if_neg hnarrow] at hlimit hlt
    exact size_eq (by omega) (by omega)

theorem placeNext_eq {probed widened : List Bool} {places : Places} {i : Nat}
    (hprobed : probed[i]? = some site.probe.isSome) (hwidened : widened[i]? = some site.widened)
    (hlimit : site.limit places.offset < 2 ^ 32) :
  (placeNext probed widened places site.insn i : m Places)
    = pure {
        labels := places.labels ++ [places.offset]
        positions := places.positions ++ [site.position places.offset]
        offset := site.limit places.offset }
  := by
  rw [placeNext, positionAt_eq hprobed hlimit, pure_bind, sizeAt_eq hwidened hlimit, pure_bind]
  rw [Site.limit] at hlimit
  rw [add_eq hlimit, pure_bind, Site.limit]

/-- The walk over instructions from `old` on, which have moved to `start`, finds their places. -/
theorem foldlM_placeNext (front sites : List Site) (start : Nat) {probed widened : List Bool}
    {old limit : Nat}
    (hprobed : probed = (front ++ sites).map fun site => site.probe.isSome)
    (hwidened : widened = (front ++ sites).map Site.widened)
    (htiles : CodeArray.Tiles old (sites.map Site.insn) limit)
    (hbound : start + gain * sites.length + limit < 2 ^ 32 + old) (labels positions : List Nat) :
  (((sites.map Site.insn).zipIdx front.length).foldlM
      (fun places p => placeNext probed widened places p.1 p.2) ⟨labels, positions, start⟩ : m Places)
    = pure {
        labels := labels ++ (Layout.placesFrom start sites).map Prod.snd
        positions := positions
          ++ (Layout.placesFrom start sites).map fun place => place.1.position place.2
        offset := Layout.limitFrom start sites }
  := by
  induction sites generalizing front start old labels positions with
  | nil => simp [Layout.placesFrom, Layout.limitFrom]
  | cons site sites ih =>
    obtain ⟨rfl, htail⟩ := htiles
    have hle := htail.le
    have hgain := limit_le_gain site start
    rw [List.length_cons, Nat.mul_add_one] at hbound
    have hnext : (placeNext probed widened ⟨labels, positions, start⟩ site.insn front.length
        : m Places) = _ :=
      placeNext_eq (by simp [hprobed]) (by simp [hwidened]) (by simp only; omega)
    have hrest := ih (front ++ [site]) (site.limit start) (by simpa using hprobed)
      (by simpa using hwidened) htail (by omega) (labels ++ [start])
      (positions ++ [site.position start])
    rw [List.map_cons, List.zipIdx_cons, List.foldlM_cons, hnext, pure_bind]
    simp only [List.length_append, List.length_singleton] at hrest
    rw [hrest]
    simp [Layout.placesFrom, Layout.limitFrom]

end Placing

/-! ## Widening -/

section Revising

variable {layout : JvmCoverage.Layout} {location : String} {site : Site} {i label : Nat}

/-- Whether the offsets of the layout have 32 bits. -/
def IsNarrow (layout : JvmCoverage.Layout) : Prop :=
  (∀ label ∈ layout.labels, label < 2 ^ 32)
    ∧ ∀ site label, (site, label) ∈ layout.places → site.position label < 2 ^ 32

theorem label?_lt (hnarrow : IsNarrow layout) {old : Nat} (h : layout.label? old = some label) :
  label < 2 ^ 32
  := by
  obtain ⟨i, -, hlabel⟩ := Option.bind_eq_some_iff.mp h
  exact hnarrow.1 label (Array.mem_of_getElem? hlabel)

theorem needsWidening_eq (hfull : IsFull layout) (hnarrow : IsNarrow layout)
    (hsite : layout.sites[i]? = some site) (hlabel : layout.labels[i]? = some label)
    (opcode : Opcode) (target : Nat) :
  needsWidening (.of layout) location site.insn i opcode target
    = faultless (layout.needsWidening location site opcode target (site.position label))
  := by
  have hplace : (site, label) ∈ layout.places :=
    JvmCoverage.Layout.mem_places.mpr ⟨i, hsite, hlabel⟩
  have hposition : (item (Layout.of layout).positions i : Checked InstrumentError Nat)
      = pure (site.position label) := by
    apply item_eq
    simp only [Layout.of, JvmCoverage.Layout.places, List.getElem?_map, Option.map_eq_some_iff]
    refine ⟨(site, label), ?_, rfl⟩
    rw [List.getElem?_zip_eq_some, Array.getElem?_toList, Array.getElem?_toList]
    exact ⟨hsite, hlabel⟩
  rw [needsWidening, label?_of hfull, pure_bind, JvmCoverage.Layout.needsWidening]
  cases htarget : layout.label? target with
  | none => rfl
  | some label' =>
    have hlt := label?_lt hnarrow htarget
    have hlt' := hnarrow.2 site label hplace
    simp only [hposition, pure_bind]
    rw [signed_eq (by omega) (by omega), pure_bind]
    have hreaches : (-32768 ≤ (label' : Int) - (site.position label : Int)
          ∧ (label' : Int) - (site.position label : Int) ≤ 32767)
        ↔ JvmCoverage.Layout.reaches (site.position label) label' := by
      simp only [JvmCoverage.Layout.reaches, Bool.and_eq_true, decide_eq_true_eq]
      omega
    by_cases hin : JvmCoverage.Layout.reaches (site.position label) label'
    · rw [if_pos (hreaches.mpr hin), if_pos hin]
      rfl
    · rw [if_neg (mt hreaches.mp hin), if_neg hin]
      split <;> rfl

theorem reviseNext_eq (hfull : IsFull layout) (hnarrow : IsNarrow layout)
    (hsite : layout.sites[i]? = some site) {front back : List Bool} (hi : front.length = i)
    (changed : Bool) :
  reviseNext (.of layout) location (front ++ site.widened :: back, changed) site.insn i
    = faultless ((layout.revise location i site).map fun site' =>
        (front ++ site'.widened :: back, changed || (site'.widened && !site.widened)))
  := by
  obtain ⟨hlt, -⟩ := Array.getElem?_eq_some_iff.mp hsite
  have hlt' : i < layout.labels.size := hlt.trans_le hfull
  have hlabel : layout.labels[i]? = some layout.labels[i] := Array.getElem?_eq_getElem hlt'
  have hitem : (item (front ++ site.widened :: back) i : Checked InstrumentError Bool)
      = pure site.widened := item_eq (by simp [← hi])
  have hupdate : (update (front ++ site.widened :: back) i true
      : Checked InstrumentError (List Bool)) = pure (front ++ true :: back) := by
    rw [update_eq (by simp [← hi]), ← hi]
    simp
  unfold reviseNext JvmCoverage.Layout.revise
  cases hop : site.insn.op with
  | branch opcode target =>
    simp only [hitem, pure_bind]
    by_cases hdone : (site.widened || opcode.isWideBranch) = true
    · simp [hdone, Except.map, Bool.and_not_self]
    · rw [if_neg hdone, if_neg hdone,
        needsWidening_eq hfull hnarrow hsite hlabel, hlabel, Option.getD_some]
      have hnot : site.widened = false := by simp_all
      cases layout.needsWidening location site opcode target
          (site.position layout.labels[i]) with
      | error e => rfl
      | ok widen =>
        cases widen with
        | true =>
          simp only [faultless_ok, pure_bind, if_true, hupdate]
          simp [Except.map, hnot]
        | false => simp [Except.map, hnot]
  | _ => simp [Except.map]

theorem mapIdxM_go_eq {ε α β : Type} (f : Nat → α → Except ε β) (xs : List α) (done : Array β) :
  List.mapIdxM.go f xs done
    = ((xs.zipIdx done.size).mapM fun p => f p.2 p.1).map fun ys => done.toList ++ ys
  := by
  induction xs generalizing done with
  | nil => simp [List.mapIdxM.go, Except.map, pure, Except.pure]
  | cons x xs ih =>
    rw [List.mapIdxM.go, List.zipIdx_cons, List.mapM_cons]
    cases hx : f done.size x with
    | error e => simp [Except.map, bind, Except.bind]
    | ok y =>
      simp only [bind, Except.bind]
      rw [ih, Array.size_push]
      cases (xs.zipIdx (done.size + 1)).mapM fun p => f p.2 p.1 <;>
        simp [Except.map, pure, Except.pure]

theorem reviseAll_eq (layout : JvmCoverage.Layout) (location : String) :
  layout.reviseAll location
    = (layout.sites.toList.zipIdx.mapM fun p => layout.revise location p.2 p.1).map List.toArray
  := by
  have hsites : layout.sites = layout.sites.toList.toArray := layout.sites.toArray_toList.symm
  rw [JvmCoverage.Layout.reviseAll, hsites, List.mapIdxM_toArray, List.mapIdxM, mapIdxM_go_eq]
  simp only [List.size_toArray, List.length_nil, List.nil_append]
  cases layout.sites.toList.zipIdx.mapM fun p => layout.revise location p.2 p.1 <;> rfl

/-- Whether one of `sites` is widened only in `revised`. -/
def anyWidened (sites revised : List Site) : Bool :=
  (sites.zip revised).any fun p => p.2.widened && !p.1.widened

variable (location) in
/-- The walk over the instructions revises the sites one after the other. -/
theorem foldlM_reviseNext (hfull : IsFull layout) (hnarrow : IsNarrow layout)
    {front sites : List Site} (hsites : layout.sites.toList = front ++ sites) (flags : List Bool)
    (hflags : flags.length = front.length) (changed : Bool) :
  ((sites.map Site.insn).zipIdx front.length).foldlM
      (fun state p => reviseNext (.of layout) location state p.1 p.2)
      (flags ++ sites.map Site.widened, changed)
    = faultless (((sites.zipIdx front.length).mapM fun p => layout.revise location p.2 p.1).map
        fun revised =>
          (flags ++ revised.map Site.widened, changed || anyWidened sites revised))
  := by
  induction sites generalizing front flags changed with
  | nil => simp [Except.map, pure, Except.pure, anyWidened, faultless]
  | cons site sites ih =>
    have hsite : layout.sites[front.length]? = some site := by
      rw [← Array.getElem?_toList, hsites]
      simp
    simp only [List.map_cons, List.zipIdx_cons, List.foldlM_cons, List.mapM_cons]
    rw [reviseNext_eq hfull hnarrow hsite hflags]
    cases hrevise : layout.revise location front.length site with
    | error e => rfl
    | ok site' =>
      have hrest := @ih (front ++ [site]) (by simpa using hsites) (flags ++ [site'.widened])
        (by simpa using hflags) (changed || (site'.widened && !site.widened))
      simp only [List.length_append, List.length_singleton, List.append_assoc,
        List.singleton_append] at hrest
      simp only [Except.map, faultless_ok, pure_bind]
      rw [hrest]
      simp only [bind, Except.bind]
      cases (sites.zipIdx (front.length + 1)).mapM fun p => layout.revise location p.2 p.1 <;>
        simp [Except.map, pure, Except.pure, anyWidened, faultless, Bool.or_assoc]

/-- A round changes something exactly when it leaves fewer jumps to widen. -/
theorem anyWidened_iff {sites revised : List Site} (h : List.Forall₂ Site.Widens sites revised) :
  anyWidened sites revised
    ↔ revised.countP (fun site => !site.widened) < sites.countP (fun site => !site.widened)
  := by
  induction h with
  | nil => simp [anyWidened]
  | @cons site site' sites revised hsite hsites ih =>
    have hle : revised.countP (fun site => !site.widened)
        ≤ sites.countP (fun site => !site.widened) := by
      rcases JvmCoverage.Layout.unwidened_lt_or_eq hsites with hlt | heq
      · exact hlt.le
      · rw [heq]
    simp only [anyWidened, List.zip_cons_cons, List.any_cons, Bool.or_eq_true,
      List.countP_cons] at ih ⊢
    rw [ih]
    rcases hsite with rfl | ⟨hnarrow, -, rfl⟩
    · cases site'.widened <;> simp
    · simp [hnarrow]
      omega

end Revising

theorem limitFrom_le (start : Nat) {old limit : Nat} {sites : List Site}
    (htiles : CodeArray.Tiles old (sites.map Site.insn) limit) :
  Layout.limitFrom start sites + old ≤ start + gain * sites.length + limit
  := by
  induction sites generalizing start old with
  | nil => exact Nat.add_le_add_left htiles.le start
  | cons site sites ih =>
    obtain ⟨rfl, htail⟩ := htiles
    have hgain := limit_le_gain site start
    have hrest := ih (site.limit start) htail
    rw [List.length_cons, Nat.mul_add_one, Layout.limitFrom]
    omega

section Computing

variable {code : Code} {sites : Array Site} (hcode : IsLaid code)
  (hinsns : sites.toList.map Site.insn = code.instructions)

include hcode hinsns

theorem tiles_sites :
  CodeArray.Tiles 0 (sites.toList.map Site.insn) code.length
  := hinsns ▸ hcode.tiles

theorem gain_le :
  gain * sites.toList.length + code.length < 2 ^ 32
  := by
  have hlength := congrArg List.length hinsns
  have hle := hcode.count_le
  have hle' := hcode.length_le
  rw [CodeArray.maxLength] at hle'
  rw [List.length_map] at hlength
  rw [hlength, gain]
  omega

theorem isNarrow_ofSites (oldLength : Nat) :
  IsNarrow (JvmCoverage.Layout.ofSites oldLength sites)
  := by
  have hle := limitFrom_le 0 (tiles_sites hcode hinsns)
  have hgain := gain_le hcode hinsns
  have hlt {site : Site} {label : Nat} (h : (site, label) ∈ Layout.placesFrom 0 sites.toList) :
      site.limit label < 2 ^ 32 := by
    have := (Layout.bounds_placesFrom h).2
    omega
  constructor
  · intro label hlabel
    rw [JvmCoverage.Layout.ofSites_eq] at hlabel
    simp only [List.mem_toArray, List.mem_map, Prod.exists, exists_eq_right] at hlabel
    obtain ⟨site, hplace⟩ := hlabel
    exact (site.label_lt_limit label).trans (hlt hplace)
  · intro site label hplace
    rw [JvmCoverage.Layout.places_ofSites] at hplace
    exact (site.position_lt_limit label).trans (hlt hplace)

theorem placesOf_eq :
  (placesOf (sites.toList.map fun site => site.probe.isSome) (sites.toList.map Site.widened)
      code.instructions : m Places)
    = pure {
        labels := (JvmCoverage.Layout.ofSites code.length sites).labels.toList
        positions := (Layout.of (JvmCoverage.Layout.ofSites code.length sites)).positions
        offset := (JvmCoverage.Layout.ofSites code.length sites).length }
  := by
  have h := foldlM_placeNext (m := m) [] sites.toList 0 rfl rfl
    (tiles_sites hcode hinsns) (by have := gain_le hcode hinsns; omega) [] []
  simp only [hinsns, List.length_nil, List.nil_append] at h
  rw [placesOf, h, Layout.of, JvmCoverage.Layout.places_ofSites, JvmCoverage.Layout.ofSites_eq]

/-- A round revises every site, and tells whether it has widened one. -/
theorem foldlM_reviseNext_ofSites (location : String) :
  code.instructions.zipIdx.foldlM
      (fun state p => reviseNext (.of (.ofSites code.length sites)) location state p.1 p.2)
      (sites.toList.map Site.widened, false)
    = faultless (((JvmCoverage.Layout.ofSites code.length sites).reviseAll location).map
        fun revised => (revised.toList.map Site.widened,
          decide (JvmCoverage.Layout.unwidened revised < JvmCoverage.Layout.unwidened sites)))
  := by
  have hfull := isFull_ofSites code.length sites
  have hnarrow := isNarrow_ofSites hcode hinsns code.length
  have hfront : (JvmCoverage.Layout.ofSites code.length sites).sites.toList
      = [] ++ sites.toList := rfl
  have hrevise := foldlM_reviseNext location hfull hnarrow hfront [] rfl false
  rw [List.length_nil, List.nil_append, hinsns] at hrevise
  have hall := reviseAll_eq (.ofSites code.length sites) location
  rw [hrevise]
  change _ = Except.map _ (sites.toList.zipIdx.mapM _) at hall
  cases hmap : sites.toList.zipIdx.mapM fun p =>
      (JvmCoverage.Layout.ofSites code.length sites).revise location p.2 p.1 with
  | error e =>
    rw [hmap] at hall
    rw [hall]
    rfl
  | ok revised =>
    rw [hmap] at hall
    have hany : anyWidened sites.toList revised
        = decide (JvmCoverage.Layout.unwidened revised.toArray
          < JvmCoverage.Layout.unwidened sites) := by
      rw [Bool.eq_iff_iff, decide_eq_true_iff, JvmCoverage.Layout.unwidened,
        JvmCoverage.Layout.unwidened, ← Array.countP_toList, ← Array.countP_toList]
      exact anyWidened_iff (JvmCoverage.Layout.widens_of_reviseAll hall)
    rw [hall]
    simp only [Except.map, hany, Bool.false_or, List.nil_append]

/-- Each round but the last widens a jump. -/
theorem widen_eq {rounds : Nat} (hrounds : JvmCoverage.Layout.unwidened sites < rounds)
    (location : String) :
  widen code (sites.toList.map fun site => site.probe.isSome) location rounds
      (sites.toList.map Site.widened)
    = faultless ((JvmCoverage.Layout.widen location code.length sites).map Layout.of)
  := by
  induction rounds generalizing sites with
  | zero => omega
  | succ rounds ih =>
    have hlayout : Layout.of (JvmCoverage.Layout.ofSites code.length sites) = {
        oldOffsets := code.instructions.map Instruction.offset
        oldLength := code.length
        labels := (JvmCoverage.Layout.ofSites code.length sites).labels.toList
        positions := (Layout.of (JvmCoverage.Layout.ofSites code.length sites)).positions
        widened := sites.toList.map Site.widened
        length := (JvmCoverage.Layout.ofSites code.length sites).length } := by
      rw [← hinsns, List.map_map]
      rfl
    rw [widen, placesOf_eq hcode hinsns, pure_bind, JvmCoverage.Layout.widen]
    simp only
    split
    · rfl
    rw [codeLength_eq hcode, pure_bind, ← hlayout, foldlM_reviseNext_ofSites hcode hinsns]
    cases hall : (JvmCoverage.Layout.ofSites code.length sites).reviseAll location with
    | error e => rfl
    | ok revised =>
      have hwidened := JvmCoverage.Layout.widens_of_reviseAll hall
      obtain ⟨hinsns', hprobes⟩ := (Layout.Widened.of_widens hwidened).map_eq
      simp only [Except.map, faultless_ok, pure_bind, decide_eq_true_eq]
      by_cases hless : JvmCoverage.Layout.unwidened revised < JvmCoverage.Layout.unwidened sites
      · rw [if_pos hless, if_pos hless]
        have hprobed : revised.toList.map (fun site => site.probe.isSome)
            = sites.toList.map fun site => site.probe.isSome := by
          simpa [Function.comp_def] using congrArg (List.map Option.isSome) hprobes
        rw [← hprobed]
        exact ih (hinsns'.trans hinsns) (by omega)
      · rw [if_neg hless, if_neg hless]
        rfl

end Computing

/-- Laying out a body with probes does not fault. -/
theorem compute_eq {code : Code} (hcode : IsLaid code) {probed : List Bool}
    {probeAt : Nat → Option Nat}
    (hprobed : probed = code.instructions.mapIdx fun i _ => (probeAt i).isSome)
    (location : String) :
  compute code probed location
    = faultless ((JvmCoverage.Layout.compute code probeAt location).map Layout.of)
  := by
  let sites : List Site := code.instructions.mapIdx fun i insn => { insn, probe := probeAt i }
  have hinsns : sites.toArray.toList.map Site.insn = code.instructions :=
    List.ext_getElem (by simp [sites]) (by simp [sites])
  have hprobes : sites.toArray.toList.map (fun site => site.probe.isSome) = probed :=
    hprobed ▸ List.ext_getElem (by simp [sites]) (by simp [sites])
  have hwidened : sites.toArray.toList.map Site.widened
      = .replicate code.instructions.length false :=
    List.ext_getElem (by simp [sites]) (by simp [sites])
  have hrounds : JvmCoverage.Layout.unwidened sites.toArray < code.instructions.length + 1 := by
    have hle : sites.toArray.countP (fun site => !site.widened) ≤ sites.toArray.size :=
      Array.countP_le_size
    have hsize : sites.toArray.size = code.instructions.length := by simp [sites]
    rw [JvmCoverage.Layout.unwidened]
    omega
  rw [compute, ← hwidened, ← hprobes, widen_eq hcode hinsns hrounds, JvmCoverage.Layout.compute]

end JvmCoverage.Machine
