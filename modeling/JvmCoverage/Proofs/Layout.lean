import JvmCoverage.Probe.Layout
import JvmCoverage.Proofs.CodeArray
import JvmCoverage.Proofs.Search
import Mathlib.Data.List.Zip

/-!
# Layouts

A layout puts its sites one behind the other from offset 0 on (`Layout.placesFrom`), finds the
place of every instruction of the code it was made for, and leaves no jump out of reach
(`Layout.isFor_of_compute`).
-/

namespace JvmCoverage

namespace Site

theorem label_le_position (site : Site) (label : Nat) :
  label ≤ site.position label
  := Nat.le_add_right _ _

/-- An instruction takes at least a byte. -/
theorem position_lt_limit (site : Site) (label : Nat) :
  site.position label < site.limit label
  := by
  have hpos : 0 < site.size (site.position label) := by
    rw [size]
    split
    · decide
    · apply Operation.size_pos _ _
  apply Nat.lt_add_of_pos_right hpos

theorem label_lt_limit (site : Site) (label : Nat) :
  label < site.limit label
  := (site.label_le_position label).trans_lt (site.position_lt_limit label)

end Site

namespace Layout

/-! ## Places -/

/-- The sites with their labels when control enters the first at `start`. -/
def placesFrom (start : Nat) : List Site → List (Site × Nat)
  | [] => []
  | site :: sites => (site, start) :: placesFrom (site.limit start) sites

/-- The offset behind the sites when control enters the first at `start`. -/
def limitFrom (start : Nat) : List Site → Nat
  | [] => start
  | site :: sites => limitFrom (site.limit start) sites

/-- The sites of a layout with their labels. -/
def places (layout : Layout) : List (Site × Nat) :=
  layout.sites.toList.zip layout.labels.toList

@[simp]
theorem map_fst_placesFrom (start : Nat) (sites : List Site) :
  (placesFrom start sites).map Prod.fst = sites
  := by
  induction sites generalizing start with
  | nil => rfl
  | cons site sites ih => rw [placesFrom, List.map_cons, ih]

theorem foldl_place (labels : Array Nat) (start : Nat) (sites : List Site) :
  sites.foldl place (labels, start)
    = (labels ++ (placesFrom start sites).map Prod.snd, limitFrom start sites)
  := by
  induction sites generalizing labels start with
  | nil => simp [placesFrom, limitFrom]
  | cons site sites ih => simp [ih, place, placesFrom, limitFrom]

/-- A layout of sites places them from 0 on. -/
theorem ofSites_eq (oldLength : Nat) (sites : Array Site) :
  ofSites oldLength sites
    = { sites, labels := ((placesFrom 0 sites.toList).map Prod.snd).toArray, oldLength,
        length := limitFrom 0 sites.toList }
  := by
  rw [ofSites, ← Array.foldl_toList, foldl_place]
  simp

@[simp]
theorem sites_ofSites (oldLength : Nat) (sites : Array Site) :
  (ofSites oldLength sites).sites = sites
  := by
  rw [ofSites_eq]

theorem places_ofSites (oldLength : Nat) (sites : Array Site) :
  (ofSites oldLength sites).places = placesFrom 0 sites.toList
  := by
  have hzip : placesFrom 0 sites.toList = _ :=
    List.zip_of_prod (map_fst_placesFrom 0 sites.toList) rfl
  rw [hzip, ofSites_eq]
  rfl

/-- The places lie between the first label and the offset behind the sites. -/
theorem bounds_placesFrom {start : Nat} {sites : List Site} {site : Site} {label : Nat}
    (h : (site, label) ∈ placesFrom start sites) :
  start ≤ label ∧ site.limit label ≤ limitFrom start sites
  := by
  have hstart : ∀ (sites : List Site) (start : Nat), start ≤ limitFrom start sites := by
    intro sites
    induction sites with
    | nil => exact fun start => le_rfl
    | cons site sites ih =>
      exact fun start => (site.label_lt_limit start).le.trans (ih (site.limit start))
  induction sites generalizing start with
  | nil => cases h
  | cons site' sites ih =>
    rcases List.mem_cons.mp h with heq | hmem
    · obtain ⟨rfl, rfl⟩ := Prod.mk.inj heq
      exact ⟨le_rfl, hstart sites _⟩
    · obtain ⟨hlow, hhigh⟩ := ih hmem
      exact ⟨(site'.label_lt_limit start).le.trans hlow, hhigh⟩

/-- Behind a place stands the next one. -/
theorem next_placesFrom {offset start limit : Nat} {sites : List Site}
    (htiles : CodeArray.Tiles offset (sites.map Site.insn) limit) {site : Site} {label : Nat}
    (hplace : (site, label) ∈ placesFrom start sites) :
  (site.insn.limit = limit ∧ site.limit label = limitFrom start sites)
    ∨ ∃ site', (site', site.limit label) ∈ placesFrom start sites ∧ site'.old = site.insn.limit
  := by
  induction sites generalizing offset start with
  | nil => cases hplace
  | cons first sites ih =>
    obtain ⟨-, htiles⟩ := htiles
    rcases List.mem_cons.mp hplace with heq | hplace
    · obtain ⟨rfl, rfl⟩ := Prod.mk.inj heq
      cases sites with
      | nil => exact .inl ⟨htiles, rfl⟩
      | cons second sites =>
        exact .inr ⟨second, List.mem_cons_of_mem _ List.mem_cons_self, htiles.1⟩
    · rcases ih htiles hplace with hlast | ⟨site', hplace', hold⟩
      · exact .inl hlast
      · exact .inr ⟨site', List.mem_cons_of_mem _ hplace', hold⟩

/-- Places do not overlap. -/
theorem pairwise_placesFrom (start : Nat) (sites : List Site) :
  (placesFrom start sites).Pairwise fun a b => a.1.limit a.2 ≤ b.2
  := by
  induction sites generalizing start with
  | nil => exact .nil
  | cons site sites ih => exact .cons (fun b hb => (bounds_placesFrom hb).1) (ih _)

/-! ## Looking up places -/

/-- A place is a site with the label of the same index. -/
theorem mem_places {layout : Layout} {site : Site} {label : Nat} :
  (site, label) ∈ layout.places
    ↔ ∃ i : Nat, layout.sites[i]? = some site ∧ layout.labels[i]? = some label
  := by
  simp only [places, List.mem_iff_getElem?, List.getElem?_zip_eq_some, Array.getElem?_toList]

/-- A layout of sites has a label for each of them. -/
theorem exists_label_ofSites (oldLength : Nat) {sites : Array Site} {i : Nat} {site : Site}
    (h : sites[i]? = some site) :
  ∃ label, (ofSites oldLength sites).labels[i]? = some label
  := by
  rw [← Array.getElem?_toList, ← map_fst_placesFrom 0 sites.toList, List.getElem?_map,
    Option.map_eq_some_iff] at h
  obtain ⟨⟨site, label⟩, hplace, rfl⟩ := h
  exact ⟨label, by simp [ofSites_eq, hplace]⟩

variable {layout : Layout}

/-- Control going to an instruction goes to its label. -/
theorem label?_eq_some (h : Search.Ascending Site.old layout.sites) {old label : Nat} :
  layout.label? old = some label ↔ ∃ site, (site, label) ∈ layout.places ∧ site.old = old
  := by
  simp only [label?, index?, Option.bind_eq_some_iff, Search.find?_eq_some h, mem_places]
  constructor
  · rintro ⟨i, ⟨site, hsite, hold⟩, hlabel⟩
    exact ⟨site, ⟨i, hsite, hlabel⟩, hold⟩
  · rintro ⟨site, ⟨i, hsite, hlabel⟩, hold⟩
    exact ⟨i, ⟨site, hsite, hold⟩, hlabel⟩

/-- An instruction stands behind its probe. -/
theorem position?_eq_some (h : Search.Ascending Site.old layout.sites) {old position : Nat} :
  layout.position? old = some position
    ↔ ∃ site label, (site, label) ∈ layout.places ∧ site.old = old
      ∧ site.position label = position
  := by
  simp only [position?, index?, Option.bind_eq_some_iff, Option.map_eq_some_iff,
    Search.find?_eq_some h, mem_places]
  constructor
  · rintro ⟨i, ⟨site, hsite, hold⟩, site', hsite', label, hlabel, hposition⟩
    obtain rfl := Option.some.inj (hsite.symm.trans hsite')
    exact ⟨site, label, ⟨i, hsite, hlabel⟩, hold, hposition⟩
  · rintro ⟨site, label, ⟨i, hsite, hlabel⟩, hold, hposition⟩
    exact ⟨i, ⟨site, hsite, hold⟩, site, hsite, label, hlabel, hposition⟩

end Layout

/-! ## Widening -/

namespace Site

/-- Whether the instruction is a jump with a two-byte distance that has a form with four. -/
def IsWidenable (site : Site) : Prop :=
  ∃ opcode target, site.insn.op = .branch opcode target ∧ (opcode.isGoto || opcode.isJsr)
    ∧ opcode.isWideBranch = false

/-- Whether `site'` is decided like `site`, or in addition that a jump is widened. -/
def Widens (site site' : Site) : Prop :=
  site' = site
    ∨ (site.widened = false ∧ site.IsWidenable ∧ site' = { site with widened := true })

end Site

namespace Layout

variable {layout : Layout}

/-- Whether a jump with a two-byte distance reaches its target. -/
def InReach (layout : Layout) (site : Site) (label : Nat) : Prop :=
  ∀ opcode target, site.insn.op = .branch opcode target → site.widened = false →
    opcode.isWideBranch = false →
    ∃ targetLabel, layout.label? target = some targetLabel
      ∧ reaches (site.position label) targetLabel

/-- A look at a place widens the jump, or finds it in reach. -/
theorem revise_eq_ok {location : String} {i : Nat} {site site' : Site}
    (h : layout.revise location i site = .ok site') :
  site.Widens site'
    ∧ (site' = site → layout.InReach site (layout.labels[i]?.getD 0))
  := by
  unfold revise at h
  split at h
  · rename_i opcode target hop
    split at h
    · rename_i hwide
      cases h
      use .inl rfl
      intro _ opcode' target' hop' hwidened hnarrow
      obtain ⟨rfl, rfl⟩ := Operation.branch.inj (hop.symm.trans hop')
      simp [hwidened, hnarrow] at hwide
    · rename_i hwide
      simp only [Bool.or_eq_true, not_or, Bool.not_eq_true] at hwide
      obtain ⟨hwidened, hnarrow⟩ := hwide
      obtain ⟨widen, hneeds, rfl⟩ := map_eq_ok.mp h
      unfold needsWidening at hneeds
      split at hneeds
      · cases hneeds
      rename_i targetLabel hlabel
      split at hneeds
      · rename_i hreaches
        cases hneeds
        use .inl (by rw [← hwidened])
        intro _ opcode' target' hop' _ _
        obtain ⟨rfl, rfl⟩ := Operation.branch.inj (hop.symm.trans hop')
        exact ⟨targetLabel, hlabel, hreaches⟩
      split at hneeds
      · rename_i hgoto
        cases hneeds
        refine ⟨.inr ⟨hwidened, ⟨opcode, target, hop, hgoto, hnarrow⟩, rfl⟩, ?_⟩
        intro heq
        rw [← heq] at hwidened
        cases hwidened
      · cases hneeds
  · rename_i hop
    cases h
    use .inl rfl
    intro _ opcode target hop'
    exact absurd hop' (hop opcode target)

/-- Widening leaves fewer jumps to widen, unless it widens none. -/
theorem unwidened_lt_or_eq {sites sites' : List Site}
    (h : List.Forall₂ Site.Widens sites sites') :
  sites'.countP (fun site => !site.widened) < sites.countP (fun site => !site.widened)
    ∨ sites' = sites
  := by
  induction h with
  | nil => exact .inr rfl
  | @cons site site' sites sites' hsite hsites ih =>
    rw [List.countP_cons, List.countP_cons]
    rcases hsite with rfl | ⟨hwidened, -, rfl⟩
    · rcases ih with hlt | rfl
      · exact .inl (Nat.add_lt_add_right hlt _)
      · exact .inr rfl
    · have hle : sites'.countP (fun site => !site.widened)
          ≤ sites.countP (fun site => !site.widened) := by
        rcases ih with hlt | rfl
        · apply hlt.le
        · exact le_rfl
      left
      simp only [hwidened]
      simp
      omega

/-- Whether a look at the layout leaves every jump as it is, each being in reach. -/
def IsSettled (layout : Layout) : Prop :=
  ∀ site label, (site, label) ∈ layout.places → layout.InReach site label

theorem widens_of_reviseAll {location : String} {revised : Array Site}
    (h : layout.reviseAll location = .ok revised) :
  List.Forall₂ Site.Widens layout.sites.toList revised.toList
  := by
  rw [← List.zipIdx_map_fst 0 layout.sites.toList, List.forall₂_map_left_iff]
  apply (forall₂_of_mapIdxM h).imp fun _ _ h => (revise_eq_ok h).1

/-- A look at the layout that leaves as many jumps to widen leaves every site as it is. -/
theorem eq_of_reviseAll {location : String} {revised : Array Site}
    (h : layout.reviseAll location = .ok revised)
    (hcount : ¬ unwidened revised < unwidened layout.sites) :
  revised = layout.sites
  := by
  simp only [unwidened, ← Array.countP_toList] at hcount
  exact Array.toList_inj.mp ((unwidened_lt_or_eq (widens_of_reviseAll h)).resolve_left hcount)

/-- A look at the layout that widens no more jumps finds every jump in reach. -/
theorem isSettled_of_reviseAll {location : String} {revised : Array Site}
    (h : layout.reviseAll location = .ok revised)
    (hcount : ¬ unwidened revised < unwidened layout.sites) :
  layout.IsSettled
  := by
  have hrevised := forall₂_of_mapIdxM h
  rw [eq_of_reviseAll h hcount] at hrevised
  intro site label hplace
  obtain ⟨i, hsite, hlabel⟩ := mem_places.mp hplace
  rw [← Array.getElem?_toList] at hsite
  obtain ⟨hi, rfl⟩ := List.getElem?_eq_some_iff.mp hsite
  have hrevise := hrevised.get (i := i) (by simpa using hi) hi
  simp only [List.get_eq_getElem, List.getElem_zipIdx, Nat.zero_add] at hrevise
  have hreach := (revise_eq_ok hrevise).2 rfl
  rwa [hlabel] at hreach

/-- Sites that the widening of others has led to. -/
def Widened (sites sites' : List Site) : Prop :=
  List.Forall₂ (fun site site' => site'.insn = site.insn ∧ site'.probe = site.probe
    ∧ (site'.widened → site.widened ∨ site'.IsWidenable)) sites sites'

theorem Widened.refl (sites : List Site) :
  Widened sites sites
  := List.forall₂_same.mpr fun _ _ => ⟨rfl, rfl, .inl⟩

theorem Widened.of_widens {sites sites' : List Site} (h : List.Forall₂ Site.Widens sites sites') :
  Widened sites sites'
  := by
  apply h.imp
  rintro site site' (rfl | ⟨-, hwidenable, rfl⟩)
  · exact ⟨rfl, rfl, .inl⟩
  · exact ⟨rfl, rfl, fun _ => .inr hwidenable⟩

/-- Widening some jumps and then some more is widening. -/
theorem Widened.trans {sites sites' sites'' : List Site} (h : Widened sites sites')
    (h' : Widened sites' sites'') :
  Widened sites sites''
  := by
  induction h generalizing sites'' with
  | nil => apply h'
  | cons hsite _ ih =>
    cases h' with
    | cons hsite' h' =>
      refine .cons ?_ (ih h')
      obtain ⟨hinsn, hprobe, hwidened⟩ := hsite
      obtain ⟨hinsn', hprobe', hwidened'⟩ := hsite'
      refine ⟨hinsn'.trans hinsn, hprobe'.trans hprobe, ?_⟩
      intro hsite''
      rcases hwidened' hsite'' with hsite' | hwidenable
      · rcases hwidened hsite' with hsite | hwidenable
        · exact .inl hsite
        · rw [Site.IsWidenable, hinsn', ← Site.IsWidenable]
          exact .inr hwidenable
      · exact .inr hwidenable

/-- Widening keeps instructions and probes. -/
theorem Widened.map_eq {sites sites' : List Site} (h : Widened sites sites') :
  sites'.map Site.insn = sites.map Site.insn ∧ sites'.map Site.probe = sites.map Site.probe
  := by
  induction h with
  | nil => exact ⟨rfl, rfl⟩
  | cons hsite _ ih =>
    obtain ⟨hinsn, hprobe, -⟩ := hsite
    obtain ⟨hinsns, hprobes⟩ := ih
    simp only [List.map_cons, hinsn, hprobe, hinsns, hprobes, and_self]

/-- Only jumps that can be are widened. -/
theorem Widened.isWidenable {sites sites' : List Site} (h : Widened sites sites')
    (hsites : ∀ site ∈ sites, site.widened = false) :
  ∀ site ∈ sites', site.widened → site.IsWidenable
  := by
  induction h with
  | nil => simp
  | cons hsite _ ih =>
    obtain ⟨hhead, htail⟩ := List.forall_mem_cons.mp hsites
    refine List.forall_mem_cons.mpr ⟨?_, ih htail⟩
    intro hwidened
    rcases hsite.2.2 hwidened with habsurd | hwidenable
    · rw [hhead] at habsurd
      cases habsurd
    · apply hwidenable

theorem widen_eq_ok {location : String} {oldLength : Nat} {sites : Array Site}
    (h : widen location oldLength sites = .ok layout) :
  Widened sites.toList layout.sites.toList ∧ layout = ofSites oldLength layout.sites
    ∧ layout.length ≤ CodeArray.maxLength ∧ layout.IsSettled
  := by
  fun_induction widen location oldLength sites with
  | case1 sites laid hlong => cases h
  | case2 sites laid hlong e he => cases h
  | case3 sites laid hlong revised hrevised hless ih =>
    obtain ⟨hwidened, hlaid⟩ := ih h
    have hwidens := widens_of_reviseAll hrevised
    rw [sites_ofSites] at hwidens
    exact ⟨(Widened.of_widens hwidens).trans hwidened, hlaid⟩
  | case4 sites laid hlong revised hrevised hless =>
    obtain rfl : ofSites oldLength sites = layout := Except.ok.inj h
    refine ⟨?_, ?_, Nat.le_of_not_lt hlong, ?_⟩
    · rw [sites_ofSites]
      exact .refl _
    · rw [sites_ofSites]
    · apply isSettled_of_reviseAll hrevised
      rwa [sites_ofSites]

/-! ## Layouts of code -/

/-- Whether the layout is one of `code` with the probes `probeAt` in front of its instructions. -/
structure IsFor (layout : Layout) (code : Code) (probeAt : Nat → Option Nat) : Prop where
  insns : layout.sites.toList.map Site.insn = code.instructions
  probes : layout.sites.toList.map Site.probe
    = code.instructions.mapIdx fun i _ => probeAt i
  places_eq : layout.places = placesFrom 0 layout.sites.toList
  length_eq : layout.length = limitFrom 0 layout.sites.toList
  oldLength_eq : layout.oldLength = code.length
  length_le : layout.length ≤ CodeArray.maxLength
  settled : layout.IsSettled
  widenable : ∀ site ∈ layout.sites.toList, site.widened → site.IsWidenable

/-- A layout that is computed is one of the code. -/
theorem isFor_of_compute {code : Code} {probeAt : Nat → Option Nat} {location : String}
    (h : compute code probeAt location = .ok layout) :
  layout.IsFor code probeAt
  := by
  obtain ⟨hwidened, hlayout, hle, hsettled⟩ := widen_eq_ok h
  obtain ⟨hinsns, hprobes⟩ := hwidened.map_eq
  exact {
    insns := by
      rw [hinsns]
      apply List.ext_getElem <;> simp
    probes := by
      rw [hprobes]
      apply List.ext_getElem <;> simp
    places_eq := by
      rw [hlayout, places_ofSites, sites_ofSites]
    length_eq := by
      rw [hlayout, ofSites_eq]
    oldLength_eq := by
      rw [hlayout, ofSites_eq]
    length_le := hle
    settled := hsettled
    widenable := by
      apply hwidened.isWidenable
      simp only [List.mem_mapIdx]
      rintro site ⟨i, hi, rfl⟩
      rfl }

/-! ## The order of places -/

/-- Sites of the instructions of a code array stand in order. -/
theorem ascending_old {sites : Array Site} {insns : List Instruction} {limit : Nat}
    (hsites : sites.toList.map Site.insn = insns) (htiles : CodeArray.Tiles 0 insns limit) :
  Search.Ascending Site.old sites
  := by
  have hpairwise : insns.Pairwise fun a b => a.offset < b.offset :=
    htiles.pairwise.imp fun hle => (CodeArray.offset_lt_limit _).trans_le hle
  rw [← hsites, List.pairwise_map] at hpairwise
  apply hpairwise

namespace IsFor

variable {code : Code} {probeAt : Nat → Option Nat}

theorem map_fst_places (h : layout.IsFor code probeAt) :
  layout.places.map Prod.fst = layout.sites.toList
  := by
  rw [h.places_eq, map_fst_placesFrom]

theorem map_insn_places (h : layout.IsFor code probeAt) :
  layout.places.map (fun place => place.1.insn) = code.instructions
  := by
  have hcomp : (fun place : Site × Nat => place.1.insn) = Site.insn ∘ Prod.fst := rfl
  rw [hcomp, ← List.map_map, h.map_fst_places, h.insns]

theorem site_mem (h : layout.IsFor code probeAt) {site : Site} {label : Nat}
    (hplace : (site, label) ∈ layout.places) :
  site ∈ layout.sites.toList
  := by
  have hmem := List.mem_map_of_mem (f := Prod.fst) hplace
  rwa [h.map_fst_places] at hmem

theorem insn_mem (h : layout.IsFor code probeAt) {site : Site} {label : Nat}
    (hplace : (site, label) ∈ layout.places) :
  site.insn ∈ code.instructions
  := by
  rw [← h.insns]
  apply List.mem_map_of_mem (h.site_mem hplace)

/-- Every instruction has a place. -/
theorem exists_place (h : layout.IsFor code probeAt) {insn : Instruction}
    (hinsn : insn ∈ code.instructions) :
  ∃ site label, (site, label) ∈ layout.places ∧ site.insn = insn
  := by
  rw [← h.map_insn_places] at hinsn
  obtain ⟨⟨site, label⟩, hplace, rfl⟩ := List.mem_map.mp hinsn
  exact ⟨site, label, hplace, rfl⟩

/-- Places lie inside the code with probes. -/
theorem limit_le (h : layout.IsFor code probeAt) {site : Site} {label : Nat}
    (hplace : (site, label) ∈ layout.places) :
  site.limit label ≤ layout.length
  := by
  rw [h.places_eq] at hplace
  rw [h.length_eq]
  apply (bounds_placesFrom hplace).2

variable {limit : Nat}

theorem ascending (h : layout.IsFor code probeAt)
    (htiles : CodeArray.Tiles 0 code.instructions limit) :
  Search.Ascending Site.old layout.sites
  := ascending_old h.insns htiles

/-- Instructions keep their order. -/
theorem pairwise_places (h : layout.IsFor code probeAt)
    (htiles : CodeArray.Tiles 0 code.instructions limit) :
  layout.places.Pairwise fun a b => a.1.old < b.1.old ∧ a.1.limit a.2 ≤ b.2
  := by
  apply List.Pairwise.and
  · have hpairwise := h.ascending htiles
    rw [Search.Ascending, ← h.map_fst_places, List.pairwise_map] at hpairwise
    apply hpairwise
  · rw [h.places_eq]
    apply pairwise_placesFrom 0 _

/-- Of two instructions the one in front moves to the lesser place. -/
theorem limit_le_label (h : layout.IsFor code probeAt)
    (htiles : CodeArray.Tiles 0 code.instructions limit) {site site' : Site} {label label' : Nat}
    (hplace : (site, label) ∈ layout.places) (hplace' : (site', label') ∈ layout.places)
    (hlt : site.old < site'.old) :
  site.limit label ≤ label'
  := by
  have hpairwise := h.pairwise_places htiles
  obtain ⟨i, hi, heq⟩ := List.mem_iff_getElem.mp hplace
  obtain ⟨j, hj, heq'⟩ := List.mem_iff_getElem.mp hplace'
  rw [List.pairwise_iff_getElem] at hpairwise
  rcases Nat.lt_trichotomy i j with hij | rfl | hji
  · have hle := (hpairwise i j hi hj hij).2
    rwa [heq, heq'] at hle
  · rw [heq] at heq'
    obtain ⟨rfl, rfl⟩ := Prod.mk.inj heq'
    exact absurd hlt (Nat.lt_irrefl _)
  · have hgt := (hpairwise j i hj hi hji).1
    rw [heq, heq'] at hgt
    exact absurd hlt hgt.asymm

/-- There is one place for each offset. -/
theorem place_unique (h : layout.IsFor code probeAt)
    (htiles : CodeArray.Tiles 0 code.instructions limit) {site site' : Site} {label label' : Nat}
    (hplace : (site, label) ∈ layout.places) (hplace' : (site', label') ∈ layout.places)
    (heq : site.old = site'.old) :
  site = site' ∧ label = label'
  := by
  obtain ⟨i, hi, hget⟩ := List.mem_iff_getElem.mp hplace
  obtain ⟨j, hj, hget'⟩ := List.mem_iff_getElem.mp hplace'
  have hpairwise := h.pairwise_places htiles
  rw [List.pairwise_iff_getElem] at hpairwise
  rcases Nat.lt_trichotomy i j with hij | rfl | hji
  · have hlt := (hpairwise i j hi hj hij).1
    rw [hget, hget'] at hlt
    exact absurd heq hlt.ne
  · apply Prod.mk.inj (hget.symm.trans hget')
  · have hlt := (hpairwise j i hj hi hji).1
    rw [hget, hget'] at hlt
    exact absurd heq.symm hlt.ne

/-- Places do not overlap. -/
theorem place_unique_of_lt (h : layout.IsFor code probeAt)
    (htiles : CodeArray.Tiles 0 code.instructions limit) {site site' : Site} {label label' : Nat}
    (hplace : (site, label) ∈ layout.places) (hplace' : (site', label') ∈ layout.places)
    (hlt : label < site'.limit label') (hlt' : label' < site.limit label) :
  site = site' ∧ label = label'
  := by
  rcases Nat.lt_trichotomy site.old site'.old with hold | hold | hold
  · have hle := h.limit_le_label htiles hplace hplace' hold
    omega
  · apply h.place_unique htiles hplace hplace' hold
  · have hle := h.limit_le_label htiles hplace' hplace hold
    omega

/-- Behind an instruction stands the next one in moved code too. -/
theorem next_place (h : layout.IsFor code probeAt)
    (htiles : CodeArray.Tiles 0 code.instructions limit) {site : Site} {label : Nat}
    (hplace : (site, label) ∈ layout.places) :
  (site.insn.limit = limit ∧ site.limit label = layout.length)
    ∨ ∃ site', (site', site.limit label) ∈ layout.places ∧ site'.old = site.insn.limit
  := by
  rw [h.places_eq] at hplace ⊢
  rw [← h.insns] at htiles
  rw [h.length_eq]
  apply next_placesFrom htiles hplace

/-- Control enters moved code where it entered the code. -/
theorem label?_zero (h : layout.IsFor code probeAt)
    (htiles : CodeArray.Tiles 0 code.instructions limit) (hne : code.instructions ≠ []) :
  layout.label? 0 = some 0
  := by
  apply (label?_eq_some (h.ascending htiles)).mpr
  rw [h.places_eq]
  rw [← h.insns] at htiles hne
  generalize layout.sites.toList = sites at htiles hne
  cases sites with
  | nil => exact absurd rfl hne
  | cons site sites => exact ⟨site, List.mem_cons_self, htiles.1⟩

/-! ## Moved offsets -/

/-- The offsets of instructions have labels. -/
theorem exists_label (h : layout.IsFor code probeAt)
    (htiles : CodeArray.Tiles 0 code.instructions limit) {old : Nat} :
  (∃ label, layout.label? old = some label) ↔ old ∈ code.instructions.map Instruction.offset
  := by
  simp only [label?_eq_some (h.ascending htiles), List.mem_map]
  constructor
  · rintro ⟨label, site, hplace, rfl⟩
    exact ⟨site.insn, h.insn_mem hplace, rfl⟩
  · rintro ⟨insn, hinsn, rfl⟩
    obtain ⟨site, label, hplace, rfl⟩ := h.exists_place hinsn
    exact ⟨label, site, hplace, rfl⟩

/-- The offsets of instructions have positions. -/
theorem exists_position (h : layout.IsFor code probeAt)
    (htiles : CodeArray.Tiles 0 code.instructions limit) {old : Nat} :
  (∃ position, layout.position? old = some position)
    ↔ old ∈ code.instructions.map Instruction.offset
  := by
  simp only [position?_eq_some (h.ascending htiles), List.mem_map]
  constructor
  · rintro ⟨position, site, label, hplace, rfl, -⟩
    exact ⟨site.insn, h.insn_mem hplace, rfl⟩
  · rintro ⟨insn, hinsn, rfl⟩
    obtain ⟨site, label, hplace, rfl⟩ := h.exists_place hinsn
    exact ⟨site.position label, site, label, hplace, rfl, rfl⟩

/-- A range may go up to an instruction or to the end of the code. -/
theorem limit?_eq_some (h : layout.IsFor code probeAt)
    (htiles : CodeArray.Tiles 0 code.instructions code.length) {old new : Nat} :
  layout.limit? old = some new
    ↔ (old = code.length ∧ new = layout.length)
      ∨ ∃ site, (site, new) ∈ layout.places ∧ site.old = old
  := by
  rw [limit?, h.oldLength_eq, ← label?_eq_some (h.ascending htiles)]
  split
  · rename_i heq
    have hnone : layout.label? old ≠ some new := by
      intro hlabel
      obtain ⟨site, hplace, hold⟩ := (label?_eq_some (h.ascending htiles)).mp hlabel
      have hlimit := (htiles.bounds (h.insn_mem hplace)).2
      have hlt := CodeArray.offset_lt_limit site.insn
      have hoffset : site.insn.offset = old := hold
      omega
    constructor
    · intro hnew
      exact .inl ⟨heq, (Option.some.inj hnew).symm⟩
    · rintro (⟨-, rfl⟩ | hlabel)
      · rfl
      · exact absurd hlabel hnone
  · rename_i hne
    simp [hne]

/-- Ranges keep their order. -/
theorem limit?_lt (h : layout.IsFor code probeAt)
    (htiles : CodeArray.Tiles 0 code.instructions code.length) {old old' new new' : Nat}
    (hnew : layout.limit? old = some new) (hnew' : layout.limit? old' = some new')
    (hlt : old < old') :
  new < new'
  := by
  have hle : ∀ site label, (site, label) ∈ layout.places → site.old < code.length := by
    intro site label hplace
    apply (CodeArray.offset_lt_limit site.insn).trans_le (htiles.bounds (h.insn_mem hplace)).2
  rcases (h.limit?_eq_some htiles).mp hnew with ⟨rfl, -⟩ | ⟨site, hplace, rfl⟩
  · rcases (h.limit?_eq_some htiles).mp hnew' with ⟨rfl, -⟩ | ⟨site', hplace', rfl⟩
    · exact absurd hlt (Nat.lt_irrefl _)
    · exact absurd hlt (hle _ _ hplace').asymm
  · have hlimit := site.label_lt_limit new
    rcases (h.limit?_eq_some htiles).mp hnew' with ⟨rfl, rfl⟩ | ⟨site', hplace', rfl⟩
    · apply hlimit.trans_le (h.limit_le hplace)
    · apply hlimit.trans_le (h.limit_le_label htiles hplace hplace' hlt)

/-- Control goes to the end of a range of code that goes up to an instruction. -/
theorem limit?_of_label? (h : layout.IsFor code probeAt)
    (htiles : CodeArray.Tiles 0 code.instructions code.length) {old label : Nat}
    (hlabel : layout.label? old = some label) :
  layout.limit? old = some label
  := (h.limit?_eq_some htiles).mpr (.inr ((label?_eq_some (h.ascending htiles)).mp hlabel))

/-- The place of an instruction lies behind the ends of the same ranges as the instruction did. -/
theorem limit?_le_iff (h : layout.IsFor code probeAt)
    (htiles : CodeArray.Tiles 0 code.instructions code.length) {site : Site} {label : Nat}
    (hplace : (site, label) ∈ layout.places) {old new : Nat}
    (hnew : layout.limit? old = some new) {offset : Nat} (hle : label ≤ offset)
    (hlt : offset < site.limit label) :
  new ≤ offset ↔ old ≤ site.old
  := by
  have hlabel : layout.limit? site.old = some label :=
    h.limit?_of_label? htiles ((label?_eq_some (h.ascending htiles)).mpr ⟨site, hplace, rfl⟩)
  constructor
  · intro hbefore
    by_contra hbehind
    rw [Nat.not_le] at hbehind
    rcases (h.limit?_eq_some htiles).mp hnew with ⟨-, rfl⟩ | ⟨site', hplace', rfl⟩
    · have hlength := h.limit_le hplace
      omega
    · have hlimit := h.limit_le_label htiles hplace hplace' hbehind
      omega
  · intro hbefore
    rcases Nat.lt_or_eq_of_le hbefore with hbefore | rfl
    · apply (h.limit?_lt htiles hnew hlabel hbefore).le.trans hle
    · obtain rfl := Option.some.inj (hnew.symm.trans hlabel)
      apply hle

/-- An instruction stands behind the ends of the same ranges as before. -/
theorem limit?_le_position_iff (h : layout.IsFor code probeAt)
    (htiles : CodeArray.Tiles 0 code.instructions code.length) {site : Site} {label : Nat}
    (hplace : (site, label) ∈ layout.places) {old new : Nat}
    (hnew : layout.limit? old = some new) :
  new ≤ site.position label ↔ old ≤ site.old
  := h.limit?_le_iff htiles hplace hnew (site.label_le_position label)
    (site.position_lt_limit label)

end IsFor

end Layout

end JvmCoverage
