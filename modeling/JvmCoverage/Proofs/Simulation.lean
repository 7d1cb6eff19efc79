import JvmCoverage.Proofs.Steps

/-!
# Code with probes runs like the code

Every path through a planned method has exactly one image in the method with probes.  The image
visits the moved instructions in the same order, and in front of each of them the probe that is
planned there, from its first instruction to its last (`MethodPlan.IsImage`).  The other way round
every path through the method with probes is such an image, unless a probe raises or the path
stops in a probe (`ClassPlan.simulates_of_apply`).
-/

namespace JvmCoverage

/-! ## Visits -/

namespace Site

/-- The offsets that control visits from the label of a site to its instruction. -/
def visit (site : Site) (label : Nat) : List Nat :=
  match site.probe with
  | some _ => [label, label + 3, label + 6, site.position label]
  | none => [site.position label]

variable {site : Site} {label : Nat}

theorem position_of_probe {number : Nat} (h : site.probe = some number) :
  site.position label = label + Probe.length
  := by
  rw [position, lead, h]
  rfl

theorem position_of_none (h : site.probe = none) :
  site.position label = label
  := by
  rw [position, lead, h]
  rfl

theorem visit_of_probe {number : Nat} (h : site.probe = some number) :
  site.visit label = [label, label + 3, label + 6, label + 9]
  := by
  rw [visit, h, position_of_probe h]
  rfl

theorem visit_of_none (h : site.probe = none) :
  site.visit label = [label]
  := by
  rw [visit, h, position_of_none h]

/-- A visit starts at the label. -/
theorem visit_eq_cons (site : Site) (label : Nat) :
  ∃ rest, site.visit label = label :: rest
  := by
  cases hprobe : site.probe with
  | some number => exact ⟨_, visit_of_probe hprobe⟩
  | none => exact ⟨_, visit_of_none hprobe⟩

/-- A visit stays in the place of its site. -/
theorem bounds_of_mem_visit {offset : Nat} (h : offset ∈ site.visit label) :
  label ≤ offset ∧ offset < site.limit label
  := by
  have hlt := site.position_lt_limit label
  cases hprobe : site.probe with
  | some number =>
    rw [position_of_probe hprobe, Probe.length] at hlt
    simp only [visit_of_probe hprobe, List.mem_cons, List.not_mem_nil, or_false] at h
    omega
  | none =>
    rw [position_of_none hprobe] at hlt
    obtain rfl := List.mem_singleton.mp (visit_of_none hprobe ▸ h)
    exact ⟨le_rfl, hlt⟩

theorem nodup_visit (site : Site) (label : Nat) :
  (site.visit label).Nodup
  := by
  cases hprobe : site.probe with
  | some number => simp [visit_of_probe hprobe]
  | none => simp [visit_of_none hprobe]

end Site

namespace Layout

/-- Whether the offset stands between the label of an instruction and the instruction, as those of
the instructions of probes do. -/
def InProbe (layout : Layout) (offset : Nat) : Prop :=
  ∃ old label position, layout.label? old = some label ∧ layout.position? old = some position
    ∧ label ≤ offset ∧ offset < position

/-- Whether the offset does not stand there. -/
def OutsideProbes (layout : Layout) (offset : Nat) : Prop := ¬ layout.InProbe offset

variable {layout : Layout} {code moved : Code} {probeAt : Nat → Option Nat}
  {base pool : ConstantPool} {bridge : Bridge} {segment : UInt32} {site : Site} {label limit : Nat}

theorem IsFor.inProbe_iff (h : layout.IsFor code probeAt)
    (htiles : CodeArray.Tiles 0 code.instructions limit) {offset : Nat} :
  layout.InProbe offset
    ↔ ∃ site label, (site, label) ∈ layout.places ∧ label ≤ offset ∧ offset < site.position label
  := by
  simp only [InProbe, label?_eq_some (h.ascending htiles), position?_eq_some (h.ascending htiles)]
  constructor
  · rintro ⟨_, label, _, ⟨site, hplace, rfl⟩, ⟨site', label', hplace', hold, rfl⟩, hle, hlt⟩
    obtain ⟨rfl, rfl⟩ := h.place_unique htiles hplace' hplace hold
    exact ⟨site', label', hplace', hle, hlt⟩
  · rintro ⟨site, label, hplace, hle, hlt⟩
    exact ⟨site.old, label, _, ⟨site, hplace, rfl⟩, ⟨site, label, hplace, rfl, rfl⟩, hle, hlt⟩

/-- Instructions do not stand in probes. -/
theorem IsFor.outsideProbes_position (h : layout.IsFor code probeAt)
    (htiles : CodeArray.Tiles 0 code.instructions limit) (hplace : (site, label) ∈ layout.places) :
  layout.OutsideProbes (site.position label)
  := by
  rw [OutsideProbes, h.inProbe_iff htiles]
  rintro ⟨site', label', hplace', hle, hlt⟩
  have hposition := site.label_le_position label
  have hlimit := site.position_lt_limit label
  have hlimit' := site'.position_lt_limit label'
  obtain ⟨rfl, rfl⟩ :=
    h.place_unique_of_lt htiles hplace hplace' (by omega) (by omega)
  apply Nat.lt_irrefl _ hlt

/-- From the instructions of a probe that raises nothing control goes straight on. -/
theorem IsMoved.step_inProbe_iff (h : layout.IsMoved pool bridge segment code moved)
    (hlayout : layout.IsFor code probeAt) (htiles : CodeArray.Tiles 0 code.instructions limit)
    (hplace : (site, label) ∈ layout.places) {number : Nat} (hprobe : site.probe = some number)
    (target : Nat) :
  (moved.Step layout.OutsideProbes label target ↔ target = label + 3)
    ∧ (moved.Step layout.OutsideProbes (label + 3) target
      ↔ target = label + 6)
    ∧ (moved.Step layout.OutsideProbes (label + 6) target
      ↔ target = label + 9)
  := by
  have hposition : site.position label = label + 9 := Site.position_of_probe hprobe
  rw [← hposition]
  apply h.step_probe_iff hlayout hplace hprobe
  intro offset hle hlt hraises
  apply hraises ((hlayout.inProbe_iff htiles).mpr ⟨site, label, hplace, hle, hlt⟩)

/-- Control that is at the label of a site passes the visit to its instruction. -/
theorem IsMoved.isChain_visit_append (h : layout.IsMoved pool bridge segment code moved)
    (hlayout : layout.IsFor code probeAt) (htiles : CodeArray.Tiles 0 code.instructions limit)
    (hplace : (site, label) ∈ layout.places) {rest : List Nat} :
  (site.visit label ++ rest).IsChain (moved.Step layout.OutsideProbes)
    ↔ (site.position label :: rest).IsChain (moved.Step layout.OutsideProbes)
  := by
  cases hprobe : site.probe with
  | none => rw [Site.visit_of_none hprobe, Site.position_of_none hprobe, List.singleton_append]
  | some number =>
    have hstep := h.step_inProbe_iff hlayout htiles hplace hprobe
    have hposition : site.position label = label + 9 := Site.position_of_probe hprobe
    simp [Site.visit_of_probe hprobe, hposition, List.isChain_cons_cons, (hstep _).1,
      (hstep _).2.1, (hstep _).2.2]

/-- A path at the label of a site that does not stop in a probe passes the visit. -/
theorem IsMoved.exists_visit (h : layout.IsMoved pool bridge segment code moved)
    (hlayout : layout.IsFor code probeAt) (htiles : CodeArray.Tiles 0 code.instructions limit)
    (hplace : (site, label) ∈ layout.places) {image : List Nat}
    (hchain : (label :: image).IsChain (moved.Step layout.OutsideProbes))
    (hlast : ∀ last ∈ (label :: image).getLast?, layout.OutsideProbes last) :
  ∃ rest, label :: image = site.visit label ++ rest
  := by
  cases hprobe : site.probe with
  | none => exact ⟨image, by rw [Site.visit_of_none hprobe, List.singleton_append]⟩
  | some number =>
    have hstep := h.step_inProbe_iff hlayout htiles hplace hprobe
    have hstays : ∀ offset, label ≤ offset → offset < label + 9 →
        ¬ ∀ last ∈ [offset].getLast?, layout.OutsideProbes last := by
      intro offset hle hlt hlast
      refine hlast offset rfl ((hlayout.inProbe_iff htiles).mpr ⟨site, label, hplace, hle, ?_⟩)
      rwa [Site.position_of_probe hprobe]
    rw [Site.visit_of_probe hprobe]
    match image with
    | [] => exact absurd hlast (hstays label (by omega) (by omega))
    | [first] =>
      obtain ⟨hfirst, -⟩ := List.isChain_cons_cons.mp hchain
      obtain rfl := (hstep first).1.mp hfirst
      exact absurd hlast (hstays (label + 3) (by omega) (by omega))
    | [first, second] =>
      obtain ⟨hfirst, hchain⟩ := List.isChain_cons_cons.mp hchain
      obtain ⟨hsecond, -⟩ := List.isChain_cons_cons.mp hchain
      obtain rfl := (hstep first).1.mp hfirst
      obtain rfl := (hstep second).2.1.mp hsecond
      exact absurd hlast (hstays (label + 6) (by omega) (by omega))
    | first :: second :: third :: rest =>
      obtain ⟨hfirst, hchain⟩ := List.isChain_cons_cons.mp hchain
      obtain ⟨hsecond, hchain⟩ := List.isChain_cons_cons.mp hchain
      obtain ⟨hthird, -⟩ := List.isChain_cons_cons.mp hchain
      obtain rfl := (hstep first).1.mp hfirst
      obtain rfl := (hstep second).2.1.mp hsecond
      obtain rfl := (hstep third).2.2.mp hthird
      exact ⟨rest, rfl⟩

end Layout

/-! ## Images of paths -/

namespace MethodPlan

/-- Whether `image` visits the new position of every offset of `path`, each behind the whole of
the probe that is planned there, and nothing else. -/
inductive IsImage (plan : MethodPlan) (pool : ConstantPool) (bridge : Bridge) (segment : UInt32)
    (moved : Code) : (path image : List Nat) → Prop
  | nil : IsImage plan pool bridge segment moved [] []
  | bare {old position : Nat} {path image : List Nat} (hprobe : plan.probeAt? old = none)
      (hposition : plan.layout.position? old = some position)
      (h : IsImage plan pool bridge segment moved path image) :
      IsImage plan pool bridge segment moved (old :: path) (position :: image)
  | probed {old position label number : Nat} {probe : List Instruction} {path image : List Nat}
      (hprobe : plan.probeAt? old = some number)
      (hposition : plan.layout.position? old = some position)
      (hrun : Probe.IsProbe pool bridge segment number label probe)
      (hmem : ∀ insn ∈ probe, insn ∈ moved.instructions)
      (hbehind : position = label + Probe.length)
      (h : IsImage plan pool bridge segment moved path image) :
      IsImage plan pool bridge segment moved (old :: path)
        (probe.map Instruction.offset ++ position :: image)

variable {plan : MethodPlan} {code moved : Code} {base pool : ConstantPool} {bridge : Bridge}
  {segment : UInt32} {first : Nat} (hplan : plan.IsOf code first) (hcode : code.WellFormed base)
  (hmoved : plan.layout.IsMoved pool bridge segment code moved)

include hplan hcode

/-- What has an image is an instruction with a place. -/
theorem IsImage.exists_place {old : Nat} {path image : List Nat}
    (h : plan.IsImage pool bridge segment moved (old :: path) image) :
  ∃ site label, (site, label) ∈ plan.layout.places ∧ site.old = old
  := by
  have hposition : ∃ position, plan.layout.position? old = some position := by
    cases h with
    | bare _ hposition _ => exact ⟨_, hposition⟩
    | probed _ hposition _ _ _ _ => exact ⟨_, hposition⟩
  obtain ⟨position, hposition⟩ := hposition
  obtain ⟨site, label, hplace, hold, -⟩ :=
    (Layout.position?_eq_some (hplan.layout.ascending hcode.instructions.tiles)).mp hposition
  exact ⟨site, label, hplace, hold⟩

include hmoved

/-- The image of a path starts with the visit of the first site. -/
theorem isImage_cons_iff {site : Site} {label : Nat} (hplace : (site, label) ∈ plan.layout.places)
    {path image : List Nat} :
  plan.IsImage pool bridge segment moved (site.old :: path) image
    ↔ ∃ rest, plan.IsImage pool bridge segment moved path rest ∧ image = site.visit label ++ rest
  := by
  have htiles := hcode.instructions.tiles
  have hprobeAt := hplan.probe_eq htiles (hplan.layout.site_mem hplace)
  have hposition : plan.layout.position? site.old = some (site.position label) :=
    (Layout.position?_eq_some (hplan.layout.ascending htiles)).mpr ⟨site, label, hplace, rfl, rfl⟩
  constructor
  · intro h
    cases h with
    | @bare _ position _ rest hprobe hposition' h =>
      obtain rfl := Option.some.inj (hposition.symm.trans hposition')
      rw [← hprobeAt] at hprobe
      use rest, h
      rw [Site.visit_of_none hprobe, Site.position_of_none hprobe]
      rfl
    | @probed _ position label' number probe _ rest hprobe hposition' hrun _ hbehind h =>
      obtain rfl := Option.some.inj (hposition.symm.trans hposition')
      rw [← hprobeAt] at hprobe
      rw [Site.position_of_probe hprobe] at hbehind
      obtain rfl := Nat.add_right_cancel hbehind
      obtain ⟨one, two, three, rfl, -⟩ := hrun
      use rest, h
      rw [Site.visit_of_probe hprobe, Site.position_of_probe hprobe]
      rfl
  · rintro ⟨rest, h, rfl⟩
    cases hprobe : site.probe with
    | none =>
      have hbare := h.bare (hprobeAt ▸ hprobe) hposition
      rw [Site.visit_of_none hprobe]
      rwa [Site.position_of_none hprobe] at hbare
    | some number =>
      obtain ⟨probe, hrun, hmem⟩ := (hmoved.pieces.exists_piece hplace).2 number hprobe
      have hprobed := h.probed (hprobeAt ▸ hprobe) hposition hrun hmem
        (Site.position_of_probe hprobe)
      obtain ⟨one, two, three, rfl, -⟩ := hrun
      rw [Site.visit_of_probe hprobe]
      rwa [Site.position_of_probe hprobe] at hprobed

/-- A path has one image. -/
theorem IsImage.unique {path image image' : List Nat}
    (h : plan.IsImage pool bridge segment moved path image)
    (h' : plan.IsImage pool bridge segment moved path image') :
  image = image'
  := by
  induction path generalizing image image' with
  | nil =>
    cases h
    cases h'
    rfl
  | cons old path ih =>
    obtain ⟨site, label, hplace, rfl⟩ := h.exists_place hplan hcode
    obtain ⟨rest, hrest, rfl⟩ := (isImage_cons_iff hplan hcode hmoved hplace).mp h
    obtain ⟨rest', hrest', rfl⟩ := (isImage_cons_iff hplan hcode hmoved hplace).mp h'
    rw [ih hrest hrest']

/-- A path is the image of one path. -/
theorem IsImage.unique_origin {path path' image : List Nat}
    (h : plan.IsImage pool bridge segment moved path image)
    (h' : plan.IsImage pool bridge segment moved path' image) :
  path = path'
  := by
  induction path generalizing path' image with
  | nil =>
    cases h
    cases path' with
    | nil => rfl
    | cons old path' =>
      obtain ⟨site, label, hplace, rfl⟩ := h'.exists_place hplan hcode
      obtain ⟨rest, -, heq⟩ := (isImage_cons_iff hplan hcode hmoved hplace).mp h'
      obtain ⟨visit, hvisit⟩ := site.visit_eq_cons label
      rw [hvisit] at heq
      cases heq
  | cons old path ih =>
    obtain ⟨site, label, hplace, rfl⟩ := h.exists_place hplan hcode
    obtain ⟨rest, hrest, rfl⟩ := (isImage_cons_iff hplan hcode hmoved hplace).mp h
    obtain ⟨visit, hvisit⟩ := site.visit_eq_cons label
    cases path' with
    | nil =>
      rw [hvisit] at h'
      cases h'
    | cons old' path' =>
      obtain ⟨site', label', hplace', rfl⟩ := h'.exists_place hplan hcode
      obtain ⟨rest', hrest', heq⟩ := (isImage_cons_iff hplan hcode hmoved hplace').mp h'
      obtain ⟨visit', hvisit'⟩ := site'.visit_eq_cons label'
      have hlabel : label = label' := by
        rw [hvisit, hvisit'] at heq
        apply (List.cons.inj heq).1
      subst hlabel
      obtain ⟨rfl, -⟩ := hplan.layout.place_unique_of_lt hcode.instructions.tiles hplace hplace'
        (site'.label_lt_limit label) (site.label_lt_limit label)
      obtain rfl := List.append_cancel_left heq
      rw [ih hrest hrest']

/-- The offsets of a visit stand in an image as often as the old offset stands in the path. -/
theorem IsImage.count_eq {path image : List Nat}
    (h : plan.IsImage pool bridge segment moved path image) {site : Site} {label : Nat}
    (hplace : (site, label) ∈ plan.layout.places) {offset : Nat}
    (hmem : offset ∈ site.visit label) :
  image.count offset = path.count site.old
  := by
  have htiles := hcode.instructions.tiles
  induction path generalizing image with
  | nil =>
    cases h
    rfl
  | cons old path ih =>
    obtain ⟨site', label', hplace', rfl⟩ := h.exists_place hplan hcode
    obtain ⟨rest, hrest, rfl⟩ := (isImage_cons_iff hplan hcode hmoved hplace').mp h
    rw [List.count_append, ih hrest, List.count_cons, Nat.add_comm]
    congr 1
    by_cases hold : site'.old = site.old
    · obtain ⟨rfl, rfl⟩ := hplan.layout.place_unique htiles hplace' hplace hold
      rw [List.count_eq_one_of_mem (site'.nodup_visit label') hmem, if_pos (beq_self_eq_true _)]
    · rw [if_neg (by simpa using hold), List.count_eq_zero]
      intro hmem'
      obtain ⟨hle, hlt⟩ := Site.bounds_of_mem_visit hmem
      obtain ⟨hle', hlt'⟩ := Site.bounds_of_mem_visit hmem'
      obtain ⟨rfl, -⟩ := hplan.layout.place_unique_of_lt htiles hplace' hplace
        (hle'.trans_lt hlt) (hle.trans_lt hlt')
      apply hold rfl

/-! ## Simulation -/

/-- A path from an instruction on has an image from its label on, in which no probe raises. -/
theorem exists_image {site : Site} {label : Nat} (hplace : (site, label) ∈ plan.layout.places)
    {path : List Nat} (hchain : (site.old :: path).IsChain (code.Step fun _ => True)) :
  ∃ image, plan.IsImage pool bridge segment moved (site.old :: path) (label :: image)
    ∧ (label :: image).IsChain (moved.Step plan.layout.OutsideProbes)
  := by
  have htiles := hcode.instructions.tiles
  induction path generalizing site label with
  | nil =>
    obtain ⟨image, hvisit⟩ := site.visit_eq_cons label
    rw [← List.append_nil (site.visit label)] at hvisit
    use image
    rw [← hvisit, hmoved.isChain_visit_append hplan.layout htiles hplace]
    exact ⟨(isImage_cons_iff hplan hcode hmoved hplace).mpr ⟨[], .nil, rfl⟩, .singleton _⟩
  | cons old path ih =>
    obtain ⟨hstep, hchain⟩ := List.isChain_cons_cons.mp hchain
    obtain ⟨insn, hinsn, rfl⟩ := List.mem_map.mp (hcode.mem_of_step hstep)
    obtain ⟨site', label', hplace', rfl⟩ := hplan.layout.exists_place hinsn
    obtain ⟨image', himage, hrest⟩ := ih hplace' hchain
    obtain ⟨visit, hvisit⟩ := site.visit_eq_cons label
    have hlabel : plan.layout.label? site'.insn.offset = some label' :=
      (Layout.label?_eq_some (hplan.layout.ascending htiles)).mpr ⟨site', hplace', rfl⟩
    have hstep' := (hmoved.step_position_iff hplan.layout hcode hplace
      (hplan.layout.outsideProbes_position htiles hplace)).mpr ⟨_, hstep, hlabel⟩
    use visit ++ label' :: image'
    rw [← List.cons_append, ← hvisit, hmoved.isChain_visit_append hplan.layout htiles hplace]
    exact ⟨(isImage_cons_iff hplan hcode hmoved hplace).mpr ⟨_, himage, rfl⟩,
      List.isChain_cons_cons.mpr ⟨hstep', hrest⟩⟩

/-- A path from a label on in which no probe raises, and which does not stop in a probe, is the
image of a path. -/
theorem exists_origin {site : Site} {label : Nat} (hplace : (site, label) ∈ plan.layout.places)
    {image : List Nat}
    (hchain : (label :: image).IsChain (moved.Step plan.layout.OutsideProbes))
    (hlast : ∀ last ∈ (label :: image).getLast?, plan.layout.OutsideProbes last) :
  ∃ path, plan.IsImage pool bridge segment moved (site.old :: path) (label :: image)
    ∧ (site.old :: path).IsChain (code.Step fun _ => True)
  := by
  have htiles := hcode.instructions.tiles
  -- each visit is a part of the path, so the induction is on the length of the rest
  induction hlength : image.length using Nat.strong_induction_on generalizing image site label with
  | h n ih =>
    obtain ⟨rest, heq⟩ := hmoved.exists_visit hplan.layout htiles hplace hchain hlast
    rw [heq] at hchain hlast ⊢
    simp only [isImage_cons_iff hplan hcode hmoved hplace, List.append_cancel_left_eq]
    rw [hmoved.isChain_visit_append hplan.layout htiles hplace] at hchain
    cases rest with
    | nil => exact ⟨[], ⟨[], .nil, rfl⟩, .singleton _⟩
    | cons next rest =>
      obtain ⟨hstep, hchain⟩ := List.isChain_cons_cons.mp hchain
      obtain ⟨old, hstep, hlabel⟩ := (hmoved.step_position_iff hplan.layout hcode hplace
        (hplan.layout.outsideProbes_position htiles hplace)).mp hstep
      obtain ⟨site', hplace', rfl⟩ :=
        (Layout.label?_eq_some (hplan.layout.ascending htiles)).mp hlabel
      have hlt : rest.length < n := by
        obtain ⟨visit, hvisit⟩ := site.visit_eq_cons label
        have hlengths := congrArg List.length heq
        rw [hvisit] at hlengths
        simp only [List.length_cons, List.length_append] at hlengths
        omega
      have hlast' : ∀ last ∈ (next :: rest).getLast?, plan.layout.OutsideProbes last := by
        rwa [List.getLast?_append_of_ne_nil _ (List.cons_ne_nil next rest)] at hlast
      obtain ⟨path, himage, hpath⟩ := ih rest.length hlt hplace' hchain hlast' rfl
      exact ⟨site'.old :: path, ⟨_, himage, rfl⟩, List.isChain_cons_cons.mpr ⟨hstep, hpath⟩⟩

omit hmoved in
/-- The block that starts at an offset has a place there, with the probe of the block. -/
theorem exists_place_of_block {id number : Nat} {b : BasicBlock}
    (hb : (FlowGraph.ofCode code).blocks[id]? = some b)
    (hnumber : plan.blockProbes[id]? = some (some number)) :
  ∃ site label, (site, label) ∈ plan.layout.places ∧ site.old = b.start
    ∧ site.probe = some number
  := by
  have htiles := hcode.instructions.tiles
  rw [← Array.getElem?_toList] at hb
  obtain ⟨insn, hinsn, hstart⟩ :=
    FlowGraph.exists_start (FlowGraph.forall₂_isOf code) (List.mem_of_getElem? hb)
  rw [FlowGraph.flatten_codeRuns] at hinsn
  obtain ⟨site, label, hplace, rfl⟩ := hplan.layout.exists_place hinsn
  use site, label, hplace, hstart
  rw [Array.getElem?_toList] at hb
  have hblock : (FlowGraph.ofCode code).blockAt? site.old = some id :=
    (FlowGraph.blockAt?_eq_some htiles).mpr ⟨b, hb, hstart.symm⟩
  rw [hplan.probe_eq htiles (hplan.layout.site_mem hplace), probeAt?, hplan.graph_eq, hblock,
    Option.bind_some, probeOf?, hnumber]
  rfl

/-- Whether the moved code runs like the code.  Every path through the code has exactly one image.
A path through the moved code is an image if no probe raises and it does not stop in a probe.  The
instructions of the probe of a block run as often as the block is entered. -/
structure Simulates (plan : MethodPlan) (pool : ConstantPool) (bridge : Bridge)
    (segment : UInt32) (code moved : Code) : Prop where
  image : ∀ path, code.IsPath (fun _ => True) path →
    ∃! image, moved.IsPath (fun _ => True) image ∧ plan.IsImage pool bridge segment moved path image
  origin : ∀ image, moved.IsPath plan.layout.OutsideProbes image →
    (∀ last ∈ image.getLast?, plan.layout.OutsideProbes last) →
    ∃! path, code.IsPath (fun _ => True) path ∧ plan.IsImage pool bridge segment moved path image
  count : ∀ path image, plan.IsImage pool bridge segment moved path image →
    ∀ (id number : Nat) (b : BasicBlock), (FlowGraph.ofCode code).blocks[id]? = some b →
      plan.blockProbes[id]? = some (some number) →
      ∃ label probe, Probe.IsProbe pool bridge segment number label probe
        ∧ ∀ insn ∈ probe, insn ∈ moved.instructions
          ∧ image.count insn.offset = path.count b.start

/-- Moved code runs like the code. -/
theorem simulates :
  plan.Simulates pool bridge segment code moved
  := by
  have htiles := hcode.instructions.tiles
  have hzero := hplan.layout.label?_zero htiles hcode.ne_nil
  obtain ⟨entry, hentry, hold⟩ :=
    (Layout.label?_eq_some (hplan.layout.ascending htiles)).mp hzero
  refine ⟨?_, ?_, ?_⟩
  · rintro path ⟨hhead, hchain⟩
    obtain ⟨path, rfl⟩ := List.head?_eq_some_iff.mp hhead
    rw [← hold] at hchain ⊢
    obtain ⟨image, himage, hmovedChain⟩ := exists_image hplan hcode hmoved hentry hchain
    have hpath : moved.IsPath plan.layout.OutsideProbes (0 :: image) := ⟨rfl, hmovedChain⟩
    exact ⟨0 :: image, ⟨hpath.mono fun _ _ => trivial, himage⟩,
      fun image' h' => h'.2.unique hplan hcode hmoved himage⟩
  · rintro image ⟨hhead, hchain⟩ hlast
    obtain ⟨image, rfl⟩ := List.head?_eq_some_iff.mp hhead
    obtain ⟨path, himage, hpath⟩ := exists_origin hplan hcode hmoved hentry hchain hlast
    rw [hold] at himage hpath
    exact ⟨0 :: path, ⟨⟨rfl, hpath⟩, himage⟩,
      fun path' h' => h'.2.unique_origin hplan hcode hmoved himage⟩
  · intro path image himage id number b hb hnumber
    obtain ⟨site, label, hplace, hstart, hprobe⟩ :=
      exists_place_of_block hplan hcode hb hnumber
    obtain ⟨probe, hrun, hmem⟩ := (hmoved.pieces.exists_piece hplace).2 number hprobe
    refine ⟨label, probe, hrun, fun insn hinsn => ⟨hmem insn hinsn, ?_⟩⟩
    rw [← hstart]
    apply himage.count_eq hplan hcode hmoved hplace
    obtain ⟨one, two, three, rfl, -⟩ := hrun
    have hoffset := List.mem_map_of_mem (f := Instruction.offset) hinsn
    rw [Site.visit_of_probe hprobe]
    apply List.mem_append_left [label + 9] hoffset

end MethodPlan

/-! ## Classes -/

namespace ClassPlan

/-- In a class with probes every planned method runs like before. -/
theorem simulates_of_apply {bytes : List UInt8} {policy : Policy} {c c' : ClassFile}
    {classPlan : ClassPlan} {segment : UInt32} (hread : ClassFile.read bytes = .ok c)
    (hplan : ofClass policy c = .ok classPlan) (happly : classPlan.apply segment c = .ok c')
    {methodPlan : MethodPlan} (hmem : methodPlan ∈ classPlan.planned) :
  ∃ m m' code moved, c.methods[methodPlan.method]? = some m ∧ m.code? = some code
    ∧ c'.methods[methodPlan.method]? = some m' ∧ m'.code? = some moved
    ∧ methodPlan.Simulates c'.pool policy.bridge segment code moved
  := by
  obtain ⟨hc, -⟩ := ClassFile.wellFormed_of_read hread
  have hof := isOf_of_ofClass hplan hc
  have happlied := (apply_spec hof hc).1 c' happly
  obtain ⟨m, code, moved, hm, hcode, hm', hmoved⟩ := happlied.moved.planned methodPlan hmem
  obtain ⟨-, -, -, -, -, hcode'⟩ := Method.exists_attributes hcode fun _ => moved
  obtain ⟨_, _, hin⟩ := isIn_of_plans hof hc hmem
  obtain rfl := Option.some.inj (hin.method.symm.trans hm)
  obtain rfl := Option.some.inj (hin.body.symm.trans hcode)
  obtain ⟨first, hplanned⟩ := hin.isOf
  exact ⟨_, _, _, moved, by simpa using hm, hcode, by simpa using hm', hcode',
    MethodPlan.simulates hplanned hin.wellFormed hmoved⟩

/-- The class with a jump runs from its first instruction through its jump to its last like
before. -/
theorem simulates_of_apply_jumpClass :
  ∃ plan c' methodPlan moved, ofClass {} ClassFile.jumpClass = .ok plan
    ∧ plan.apply 0 ClassFile.jumpClass = .ok c' ∧ methodPlan ∈ plan.planned
    ∧ methodPlan.Simulates c'.pool {} 0 ClassFile.jumpBody moved
    ∧ ClassFile.jumpBody.IsPath (fun _ => True) [0, 1, 20]
    ∧ ∃ image, moved.IsPath (fun _ => True) image
      ∧ methodPlan.IsImage c'.pool {} 0 moved [0, 1, 20] image
  := by
  have hread := ClassFile.read_form_jumpClass
  obtain ⟨plan, c', hplan, hne, happly⟩ := exists_probed_jumpClass
  obtain ⟨methodPlan, hmem⟩ := List.exists_mem_of_ne_nil _ hne
  obtain ⟨m, m', code, moved, hm, hcode, -, -, hsimulates⟩ :=
    simulates_of_apply hread hplan happly hmem
  obtain rfl := List.mem_singleton.mp (List.mem_of_getElem? hm)
  obtain rfl : ClassFile.jumpBody = code := Option.some.inj hcode
  have hpath : ClassFile.jumpBody.IsPath (fun _ => True) [0, 1, 20] := by
    refine ⟨rfl, List.isChain_cons_cons.mpr ⟨?_, List.isChain_cons_cons.mpr ⟨?_, .singleton _⟩⟩⟩
    · exact ⟨⟨0, .plain 0x03 []⟩, by simp [ClassFile.jumpBody], rfl, .next rfl (by decide)⟩
    · exact ⟨⟨1, .switch Opcode.tableswitch 20 (.table 0 [20])⟩, by simp [ClassFile.jumpBody], rfl,
        .jump (by decide)⟩
  obtain ⟨image, himage, -⟩ := hsimulates.image _ hpath
  exact ⟨plan, c', methodPlan, moved, hplan, happly, hmem, hsimulates, hpath, image, himage⟩

end ClassPlan

end JvmCoverage
