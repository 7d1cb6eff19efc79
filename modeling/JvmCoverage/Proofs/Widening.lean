import JvmCoverage.Proofs.Class
import JvmCoverage.Proofs.Layout

/-!
# Widening comes to an end

Each round of widening looks at the layout of the sites that the rounds before it have led to
(`Layout.Reached`) and widens a `goto` or `jsr` at least, so that there are no more rounds than such
jumps.  The last one finds the code too long, a conditional branch out of reach, or every jump in
reach (`Layout.Comes`); in the last case every instruction stands where it should
(`Layout.IsRight`).
-/

namespace JvmCoverage

/-! ## Jumps that can be widened -/

/-- Whether the operation is a `goto` or `jsr`. -/
def Operation.isShortJump : Operation → Bool
  | branch opcode _ => opcode == Opcode.goto || opcode == Opcode.jsr
  | _ => false

/-- The number of `goto` and `jsr` instructions. -/
def Code.shortJumps (code : Code) : Nat :=
  code.instructions.countP fun insn => insn.op.isShortJump

/-- Of the branches only `goto` and `jsr` have a wide form that they do not have yet. -/
theorem Site.isShortJump_of_isWidenable {site : Site} (h : site.IsWidenable) :
  site.insn.op.isShortJump
  := by
  obtain ⟨opcode, target, hop, hjump, hnarrow⟩ := h
  simp only [Opcode.isGoto, Opcode.isJsr, Opcode.isWideBranch, Bool.or_eq_true,
    Bool.or_eq_false_iff, beq_iff_eq, beq_eq_false_iff_ne] at hjump hnarrow
  simp only [hop, Operation.isShortJump, Bool.or_eq_true, beq_iff_eq]
  tauto

/-- The other branches are conditional. -/
theorem Opcode.isConditional_eq_of_layout? (opcode : Opcode) :
  (opcode.layout? = some .branch16 ∨ opcode.layout? = some .branch32) →
    opcode.isConditional = !(opcode.isGoto || opcode.isJsr)
  := by
  revert opcode
  apply Bytes.forall_of_lt
  decide +kernel

namespace Layout

/-! ## Rounds -/

/-- The instructions of `code` with their probes, none of them widened. -/
def firstSites (code : Code) (probeAt : Nat → Option Nat) : Array Site :=
  (code.instructions.mapIdx fun i insn => { insn, probe := probeAt i : Site }).toArray

/-- The sites that `rounds` rounds of widening have led to. -/
inductive Reached (location : String) (code : Code) (probeAt : Nat → Option Nat) :
    (rounds : Nat) → (sites : Array Site) → Prop where
  | first : Reached location code probeAt 0 (firstSites code probeAt)
  | next {rounds : Nat} {sites revised : Array Site}
      (h : Reached location code probeAt rounds sites)
      (hle : (ofSites code.length sites).length ≤ 65535)
      (hrevised : (ofSites code.length sites).reviseAll location = .ok revised)
      (hne : revised ≠ sites) : Reached location code probeAt (rounds + 1) revised

variable {location : String} {code : Code} {probeAt : Nat → Option Nat} {rounds : Nat}
  {sites : Array Site}

/-- Rounds keep instructions and probes. -/
theorem Reached.widened (h : Reached location code probeAt rounds sites) :
  Widened (firstSites code probeAt).toList sites.toList
  := by
  induction h with
  | first => exact .refl _
  | next _ _ hrevised _ ih =>
    have hwidens := widens_of_reviseAll hrevised
    rw [sites_ofSites] at hwidens
    exact ih.trans (.of_widens hwidens)

theorem Reached.map_insn (h : Reached location code probeAt rounds sites) :
  sites.toList.map Site.insn = code.instructions
  := by
  rw [h.widened.map_eq.1]
  apply List.ext_getElem <;> simp [firstSites]

/-- Only `goto` and `jsr` are widened. -/
theorem Reached.isShortJump (h : Reached location code probeAt rounds sites) :
  ∀ site ∈ sites.toList, site.widened → site.insn.op.isShortJump
  := by
  intro site hsite hwidened
  apply Site.isShortJump_of_isWidenable
  apply h.widened.isWidenable _ site hsite hwidened
  simp only [firstSites, List.mem_mapIdx]
  rintro site ⟨i, hi, rfl⟩
  rfl

/-- Every round leaves fewer instructions in their first form. -/
theorem Reached.add_unwidened_le (h : Reached location code probeAt rounds sites) :
  rounds + unwidened sites ≤ code.instructions.length
  := by
  induction h with
  | first =>
    rw [unwidened, Nat.zero_add]
    apply Array.countP_le_size.trans
    simp [firstSites]
  | @next rounds sites revised _ _ hrevised hne ih =>
    have hwidens := widens_of_reviseAll hrevised
    rw [sites_ofSites] at hwidens
    have hlt := (unwidened_lt_or_eq hwidens).resolve_right fun heq =>
      hne (Array.toList_inj.mp heq)
    rw [Array.countP_toList, Array.countP_toList] at hlt
    rw [unwidened] at ih ⊢
    omega

/-- There are no more rounds than jumps to widen. -/
theorem Reached.le_shortJumps (h : Reached location code probeAt rounds sites) :
  rounds ≤ code.shortJumps
  := by
  have hlength := congrArg List.length h.map_insn
  have hle := h.add_unwidened_le
  have hsplit : sites.toList.length = sites.toList.countP (fun site => site.widened)
      + sites.toList.countP (fun site => !site.widened) := by
    simpa using List.length_eq_countP_add_countP (l := sites.toList) fun site => site.widened
  have hwidened : sites.toList.countP (fun site => site.widened) ≤ code.shortJumps := by
    rw [Code.shortJumps, ← h.map_insn, List.countP_map]
    apply List.countP_mono_left
    exact h.isShortJump
  rw [unwidened, ← Array.countP_toList] at hle
  rw [List.length_map] at hlength
  omega

/-! ## The last round -/

/-- How the loop ends when it looks at the layout. -/
inductive Ends (location : String) (layout : Layout) : Except InstrumentError Layout → Prop where
  | tooLong (h : CodeArray.maxLength < layout.length) :
      Ends location layout
        (.error (.capacity .instrumentedLength layout.length CodeArray.maxLength))
  | stuck {e : InstrumentError} (hle : layout.length ≤ CodeArray.maxLength)
      (h : layout.reviseAll location = .error e) : Ends location layout (.error e)
  | settled (hle : layout.length ≤ CodeArray.maxLength)
      (h : layout.reviseAll location = .ok layout.sites) : Ends location layout (.ok layout)

/-- The loop comes to a round that ends it. -/
theorem exists_ends_widen (sites : Array Site) :
  ∀ rounds, Reached location code probeAt rounds sites →
    ∃ rounds' sites', Reached location code probeAt rounds' sites'
      ∧ Ends location (ofSites code.length sites') (widen location code.length sites)
  := by
  fun_induction widen location code.length sites with
  | case1 sites laid hlong => exact fun _ h => ⟨_, _, h, .tooLong hlong⟩
  | case2 sites laid hlong e he => exact fun _ h => ⟨_, _, h, .stuck (Nat.le_of_not_lt hlong) he⟩
  | case3 sites laid hlong revised hrevised hless ih =>
    intro rounds h
    apply ih _ (.next h (Nat.le_of_not_lt hlong) hrevised _)
    rintro rfl
    exact Nat.lt_irrefl _ hless
  | case4 sites laid hlong revised hrevised hless =>
    intro rounds h
    refine ⟨_, _, h, .settled (Nat.le_of_not_lt hlong) ?_⟩
    rw [hrevised, eq_of_reviseAll hrevised (by rwa [sites_ofSites])]

/-! ## Branches out of reach -/

/-- A look at a layout fails for a branch that does not reach its target and cannot be widened. -/
theorem revise_eq_error {layout : Layout} {i : Nat} {site : Site} {e : InstrumentError}
    (h : layout.revise location i site = .error e) :
  ∃ opcode target, site.insn.op = .branch opcode target
    ∧ (layout.label? target = none
      ∨ ∃ label, layout.label? target = some label
        ∧ reaches (site.position (layout.labels[i]?.getD 0)) label = false
        ∧ (opcode.isGoto || opcode.isJsr) = false
        ∧ e = .unsupported location (.shortBranch opcode site.insn.offset))
  := by
  unfold revise at h
  split at h
  · rename_i opcode target hop
    refine ⟨opcode, target, hop, ?_⟩
    split at h
    · cases h
    · simp only [needsWidening] at h
      split at h
      · rename_i hnone
        exact .inl hnone
      · rename_i label hlabel
        right
        refine ⟨label, hlabel, ?_⟩
        split at h
        · cases h
        · rename_i hreaches
          split at h
          · cases h
          · rename_i hgoto
            exact ⟨by simpa using hreaches, by simpa using hgoto, (Except.error.inj h).symm⟩
  · cases h

/-! ## Every instruction in its place -/

/-- Whether the distance can be said in two bytes. -/
def IsShort (distance : Int) : Prop :=
  -32768 ≤ distance ∧ distance ≤ 32767

theorem reaches_iff {position target : Nat} :
  reaches position target ↔ IsShort ((target : Int) - position)
  := by
  rw [reaches, IsShort, Bool.and_eq_true, decide_eq_true_eq, decide_eq_true_eq]
  omega

/-- Whether the instruction with index `i` stands where it should, at `position`, when control
enters it at `label`. -/
structure Stands (layout : Layout) (i : Nat) (insn : Instruction) (probed : Bool) (site : Site)
    (label position : Nat) : Prop where
  site_eq : layout.sites[i]? = some site
  insn_eq : site.insn = insn
  label_eq : layout.labels[i]? = some label
  entered : layout.label? insn.offset = some label
  moved : layout.position? insn.offset = some position
  /-- The probe takes nine bytes. -/
  position_eq : position = label + if probed then 9 else 0
  /-- The next instruction, or the end of the code, is behind the form that is written there. -/
  next : layout.labels[i + 1]?.getD layout.length
    = position + if site.widened then 5 else insn.op.size position
  /-- The tables of a switch begin at a multiple of four. -/
  aligned : ∀ opcode default cases, insn.op = .switch opcode default cases →
    switchPadding position < 4 ∧ (position + 1 + switchPadding position) % 4 = 0
  widened : site.widened → insn.op.isShortJump
  reach : ∀ opcode target, insn.op = .branch opcode target → site.widened = false →
    opcode.isWideBranch = false →
      ∃ targetLabel, layout.label? target = some targetLabel
        ∧ IsShort ((targetLabel : Int) - position)

/-- Whether the layout puts every instruction of `code` in its place. -/
structure IsRight (layout : Layout) (code : Code) (probeAt : Nat → Option Nat) : Prop where
  sites_size : layout.sites.size = code.instructions.length
  labels_size : layout.labels.size = code.instructions.length
  first : layout.label? 0 = some 0
  stands : ∀ i insn, code.instructions[i]? = some insn →
    ∃ site label position, layout.Stands i insn (probeAt i).isSome site label position
  ascending : layout.labels.toList.Pairwise (· < ·)
  length_le : layout.length ≤ 65535
  limit : layout.limit? code.length = some layout.length

/-- Behind a place stands the next one, or the end. -/
theorem next_getElem?_placesFrom {start i : Nat} {sites : List Site} {site : Site} {label : Nat}
    (h : (placesFrom start sites)[i]? = some (site, label)) :
  ((placesFrom start sites)[i + 1]?.map Prod.snd).getD (limitFrom start sites) = site.limit label
  := by
  induction sites generalizing start i with
  | nil => cases h
  | cons first sites ih =>
    cases i with
    | zero =>
      obtain ⟨rfl, rfl⟩ := Prod.mk.inj (Option.some.inj h)
      cases sites <;> rfl
    | succ i => exact ih h

theorem labels_ofSites (oldLength : Nat) (sites : Array Site) :
  (ofSites oldLength sites).labels.toList = (placesFrom 0 sites.toList).map Prod.snd
  := by
  rw [ofSites_eq]

section Places

variable (htiles : CodeArray.Tiles 0 code.instructions code.length)
  (h : (ofSites code.length sites).IsFor code probeAt)

include htiles h

theorem stands_of_isFor {i : Nat} {insn : Instruction} (hinsn : code.instructions[i]? = some insn) :
  ∃ site label position,
    (ofSites code.length sites).Stands i insn (probeAt i).isSome site label position
  := by
  have hplaces := h.places_eq
  have hinsns := h.insns
  have hprobes := h.probes
  rw [sites_ofSites] at hplaces hinsns hprobes
  rw [← hinsns, List.getElem?_map, Option.map_eq_some_iff] at hinsn
  obtain ⟨site, hsite, rfl⟩ := hinsn
  have hfst := hsite
  rw [← map_fst_placesFrom 0 sites.toList, List.getElem?_map, Option.map_eq_some_iff] at hfst
  obtain ⟨⟨site, label⟩, hplace, rfl⟩ := hfst
  have hmem : (site, label) ∈ (ofSites code.length sites).places := by
    rw [hplaces]
    exact List.mem_of_getElem? hplace
  have hprobe : site.probe = probeAt i := by
    have hmap := congrArg (·[i]?) hprobes
    simpa [hsite, ← hinsns] using hmap
  have hascending := h.ascending htiles
  have hlabels := labels_ofSites code.length sites
  refine ⟨site, label, site.position label, ?_⟩
  exact {
    site_eq := by rw [sites_ofSites, ← Array.getElem?_toList, hsite]
    insn_eq := rfl
    label_eq := by rw [← Array.getElem?_toList, hlabels, List.getElem?_map, hplace]; rfl
    entered := (label?_eq_some hascending).mpr ⟨site, hmem, rfl⟩
    moved := (position?_eq_some hascending).mpr ⟨site, label, hmem, rfl, rfl⟩
    position_eq := by rw [Site.position, Site.lead, hprobe]; rfl
    next := by
      rw [← Array.getElem?_toList, hlabels, List.getElem?_map, h.length_eq, sites_ofSites,
        next_getElem?_placesFrom hplace]
      rfl
    aligned := by
      intro opcode default cases _
      rw [switchPadding]
      omega
    widened := fun hwidened =>
      Site.isShortJump_of_isWidenable (h.widenable site (h.site_mem hmem) hwidened)
    reach := by
      intro opcode target hop hwidened hnarrow
      obtain ⟨targetLabel, hlabel, hreaches⟩ :=
        h.settled site label hmem opcode target hop hwidened hnarrow
      exact ⟨targetLabel, hlabel, reaches_iff.mp hreaches⟩ }

/-- A layout that is computed puts every instruction in its place. -/
theorem isRight_of_isFor (hne : code.instructions ≠ []) :
  (ofSites code.length sites).IsRight code probeAt
  := by
  have hsize := congrArg List.length h.insns
  have hlabels := labels_ofSites code.length sites
  have hplaces := congrArg List.length (map_fst_placesFrom 0 sites.toList)
  have hlength := congrArg List.length hlabels
  simp only [sites_ofSites, List.length_map, Array.length_toList] at hsize hplaces hlength
  exact {
    sites_size := by rw [sites_ofSites, hsize]
    labels_size := by omega
    first := h.label?_zero htiles hne
    stands := fun i insn => stands_of_isFor htiles h
    ascending := by
      rw [hlabels, List.pairwise_map]
      apply (pairwise_placesFrom 0 sites.toList).imp
      intro a b hle
      exact (a.1.label_lt_limit a.2).trans_le hle
    length_le := h.length_le
    limit := by rw [limit?, h.oldLength_eq, if_pos rfl] }

end Places

/-! ## What becomes of code -/

/-- Whether laying out `code` comes to the result: it is too long, a conditional branch does not
reach its target, or every instruction is in its place. -/
inductive Comes (location : String) (code : Code) (probeAt : Nat → Option Nat) :
    Except InstrumentError Layout → Prop where
  | tooLong {rounds : Nat} {sites : Array Site} (h : Reached location code probeAt rounds sites)
      (hlong : 65535 < (ofSites code.length sites).length) :
      Comes location code probeAt
        (.error (.capacity .instrumentedLength (ofSites code.length sites).length 65535))
  | stuck {rounds : Nat} {sites : Array Site} (h : Reached location code probeAt rounds sites)
      (hle : (ofSites code.length sites).length ≤ 65535) {insn : Instruction} {opcode : Opcode}
      {target : Nat} (hinsn : insn ∈ code.instructions) (hop : insn.op = .branch opcode target)
      (hconditional : opcode.isConditional) {label position : Nat}
      (hlabel : (ofSites code.length sites).label? target = some label)
      (hposition : (ofSites code.length sites).position? insn.offset = some position)
      (hfar : ¬ IsShort ((label : Int) - position)) :
      Comes location code probeAt (.error (.unsupported location (.shortBranch opcode insn.offset)))
  | fits {rounds : Nat} {sites : Array Site} (h : Reached location code probeAt rounds sites)
      (hrevised : (ofSites code.length sites).reviseAll location = .ok sites)
      (hright : (ofSites code.length sites).IsRight code probeAt) :
      Comes location code probeAt (.ok (ofSites code.length sites))

/-- A look at the layout fails only for a conditional branch that does not reach its target. -/
theorem Reached.comes_of_reviseAll (h : Reached location code probeAt rounds sites)
    (hcode : CodeArray.WellFormed code.instructions code.length)
    (hle : (ofSites code.length sites).length ≤ CodeArray.maxLength) {e : InstrumentError}
    (he : (ofSites code.length sites).reviseAll location = .error e) :
  Comes location code probeAt (.error e)
  := by
  obtain ⟨i, site, hsite, he⟩ := exists_of_mapIdxM_eq_error he
  rw [sites_ofSites] at hsite
  obtain ⟨opcode, target, hop, hcases⟩ := revise_eq_error he
  have hmem : site.insn ∈ code.instructions := by
    rw [← h.map_insn]
    exact List.mem_map_of_mem (Array.mem_toList_iff.mpr (Array.mem_of_getElem? hsite))
  have hascending : Search.Ascending Site.old (ofSites code.length sites).sites := by
    rw [sites_ofSites]
    exact ascending_old h.map_insn hcode.tiles
  have hplace {i : Nat} {site : Site} (hsite : sites[i]? = some site) :
      ∃ label, (ofSites code.length sites).labels[i]? = some label
        ∧ (site, label) ∈ (ofSites code.length sites).places := by
    obtain ⟨label, hlabel⟩ := exists_label_ofSites code.length hsite
    exact ⟨label, hlabel, mem_places.mpr ⟨i, by rwa [sites_ofSites], hlabel⟩⟩
  rcases hcases with hnone | ⟨label, hlabel, hreaches, hjump, rfl⟩
  · have hlands := hcode.lands site.insn hmem target (by simp [hop, Operation.targets])
    rw [← h.map_insn, List.map_map] at hlands
    obtain ⟨site', hsite', hold⟩ := List.mem_map.mp hlands
    obtain ⟨j, hj⟩ := Array.mem_iff_getElem?.mp (Array.mem_toList_iff.mp hsite')
    obtain ⟨label, -, hplace'⟩ := hplace hj
    rw [(label?_eq_some hascending).mpr ⟨site', hplace', hold⟩] at hnone
    cases hnone
  · obtain ⟨start, hstart, hplace'⟩ := hplace hsite
    rw [hstart, Option.getD_some] at hreaches
    have hlayout := hcode.ops site.insn hmem
    rw [hop] at hlayout
    have hconditional : opcode.isConditional := by
      rw [opcode.isConditional_eq_of_layout? hlayout, hjump, Bool.not_false]
    refine .stuck h hle hmem hop hconditional hlabel
      ((position?_eq_some hascending).mpr ⟨site, start, hplace', rfl, rfl⟩) ?_
    rw [← reaches_iff, hreaches]
    exact Bool.false_ne_true

/-- Laying out code ends after as many rounds as there are jumps to widen at most, and comes to one
of the three results. -/
theorem comes_compute {bytes : List UInt8} {code : Code}
    (h : CodeArray.read bytes = .ok code.instructions) (probeAt : Nat → Option Nat)
    (location : String) :
  (∀ rounds sites, Reached location code probeAt rounds sites → rounds ≤ code.shortJumps)
    ∧ Comes location code probeAt (compute code probeAt location)
  := by
  have hcode := CodeArray.wellFormed_of_read h
  rw [← Code.length_eq h] at hcode
  refine ⟨fun _ _ hreached => hreached.le_shortJumps, ?_⟩
  obtain ⟨rounds, sites, hreached, hends⟩ := exists_ends_widen (firstSites code probeAt) 0
    (.first : Reached location code probeAt 0 (firstSites code probeAt))
  have hcompute : compute code probeAt location
      = widen location code.length (firstSites code probeAt) := rfl
  rw [← hcompute] at hends
  generalize hresult : compute code probeAt location = result at hends
  cases hends with
  | tooLong hlong => exact .tooLong hreached hlong
  | stuck hle he => exact hreached.comes_of_reviseAll hcode hle he
  | settled hle hrevised =>
    rw [sites_ofSites] at hrevised
    refine .fits hreached hrevised (isRight_of_isFor hcode.tiles (isFor_of_compute hresult) ?_)
    intro hnil
    have hpos := hcode.pos
    rw [Code.length, hnil] at hpos
    exact Nat.lt_irrefl 0 hpos

theorem comes_compute_jumpBody :
  CodeArray.read (CodeArray.form ClassFile.jumpBody.instructions)
      = .ok ClassFile.jumpBody.instructions
    ∧ (∀ rounds sites, Reached "A.f" ClassFile.jumpBody some rounds sites → rounds = 0)
    ∧ Comes "A.f" ClassFile.jumpBody some (compute ClassFile.jumpBody some "A.f")
  := by
  have hread := CodeArray.read_written ClassFile.wellFormed_jumpBody.instructions
  obtain ⟨hrounds, hcomes⟩ := comes_compute hread some "A.f"
  exact ⟨hread, fun rounds sites h => Nat.le_zero.mp (hrounds rounds sites h), hcomes⟩

end Layout

end JvmCoverage
