import JvmCoverage.Proofs.Agreement
import JvmCoverage.Proofs.SideTables
import Mathlib.Data.List.Dedup
import Mathlib.Data.List.Perm.Subperm

/-!
# The order of loading does not matter

Two agents that load the same classes in different orders give them different segments.  Their
registries are still equal, since records stand in the order of identities
(`Ledger.Loaded.registry_eq`), and a class that is hit as often has the same counters, wherever its
segment is.  So the reports are equal (`Agent.snapshot_eq_of_same_classes`).
-/

namespace JvmCoverage

/-! ## Hits -/

namespace Segment

/-- The counters after each probe has run `times` more. -/
def advance (times : Nat → Nat) (s : Segment) : Segment :=
  { s with counts := s.counts.mapIdx fun probe count => count + UInt64.ofNat (times probe) }

theorem advance_zero (s : Segment) :
  s.advance (fun _ => 0) = s
  := by
  obtain ⟨identity, counts⟩ := s
  simp only [advance, mk.injEq, true_and]
  apply Array.ext_getElem?
  intro i
  simp

theorem advance_hit (times : Nat → Nat) (probe : Nat) (s : Segment) :
  (s.hit probe).advance times = s.advance fun p => times p + if probe = p then 1 else 0
  := by
  simp only [advance, hit, mk.injEq, true_and]
  apply Array.ext
  · simp
  · intro p hp hp'
    simp only [Array.getElem_mapIdx, Array.getElem_modify, UInt64.ofNat_add]
    split
    · rw [UInt64.add_assoc]
      congr 1
      apply UInt64.add_comm
    · simp

theorem advance_congr {times times' : Nat → Nat} {s : Segment}
    (h : ∀ p < s.counts.size, times p = times' p) :
  s.advance times = s.advance times'
  := by
  simp only [advance, mk.injEq, true_and, Array.mapIdx_eq_mapIdx_iff]
  intro p hp
  rw [h p hp]

end Segment

namespace Store

/-- The store after several hits, each of a probe of a segment. -/
def hitAll (store : Store) (hits : List (Nat × Nat)) : Store :=
  hits.foldl (fun store target => store.hit target.1 target.2) store

theorem outlines_hitAll (store : Store) (hits : List (Nat × Nat)) :
  (store.hitAll hits).outlines = store.outlines
  := by
  induction hits generalizing store with
  | nil => rfl
  | cons target hits ih => exact (ih _).trans (outlines_hit _ _ _)

/-- A counter goes up by the number of its hits, in whatever order they come. -/
theorem segments_hitAll (store : Store) (hits : List (Nat × Nat)) (k : Nat) :
  (store.hitAll hits).segments[k]?
    = store.segments[k]?.map (Segment.advance fun probe => hits.count (k, probe))
  := by
  induction hits generalizing store with
  | nil =>
    have hid : (Segment.advance fun _ => 0) = id := funext Segment.advance_zero
    simp only [List.count_nil, hid, Option.map_id]
    rfl
  | cons target hits ih =>
    obtain ⟨segment, probe⟩ := target
    have hrest : (store.hitAll ((segment, probe) :: hits)).segments[k]?
        = (store.hit segment probe).segments[k]?.map
          (Segment.advance fun probe => hits.count (k, probe)) := ih _
    rw [hrest, hit, Array.getElem?_modify]
    split
    · rename_i heq
      rw [Option.map_map]
      congr 1
      funext s
      rw [Function.comp_apply, Segment.advance_hit]
      congr 1
      funext p
      simp [List.count_cons, heq]
    · rename_i hne
      congr 2
      funext p
      simp [hne]

/-- Classes have the same segment only when they are the same. -/
theorem Holds.eq_iff {store : Store} {identity identity' : ClassIdentity} {k k' probes probes' : Nat}
    (h : store.Holds identity k probes) (h' : store.Holds identity' k' probes') :
  k = k' ↔ identity = identity'
  := by
  obtain ⟨counts, hget, -⟩ := h.counters
  obtain ⟨counts', hget', -⟩ := h'.counters
  constructor
  · rintro rfl
    exact (Segment.mk.inj (Option.some.inj (hget.symm.trans hget'))).1
  · rintro rfl
    exact Option.some.inj (h.index.symm.trans h'.index)

end Store

/-! ## Loading -/

namespace Ledger

/-- The classes that take counters, each once. -/
def takers (records : List ClassRecord) : List ClassIdentity :=
  ((records.filter (0 < ·.probeCount)).map ClassRecord.identity).dedup

theorem mem_takers {records : List ClassRecord} {identity : ClassIdentity} :
  identity ∈ takers records ↔ ∃ r ∈ records, 0 < r.probeCount ∧ r.identity = identity
  := by
  rw [takers, List.mem_dedup, List.mem_map]
  simp [and_assoc]

/-- Whether the ledger has some of the records, those in `done` among them, over a store with room
for `capacity` segments, and counters that are all 0. -/
structure Loaded (capacity : Nat) (records done : List ClassRecord) (ledger : Ledger) : Prop where
  sound : ledger.Sound (· ∈ records)
  complete : ∀ r ∈ done, ledger.registry.get? r.identity = some r
  capacity_eq : ledger.store.capacity = capacity
  fresh : ∀ s ∈ ledger.store.segments, s = .fresh s.identity s.counts.size

theorem loaded_empty (capacity : Nat) (records : List ClassRecord) :
  Loaded capacity records [] ⟨{ capacity }, {}⟩
  where
    sound := sound_empty _ capacity
    complete := by simp
    capacity_eq := rfl
    fresh := by simp

variable {capacity : Nat} {records done : List ClassRecord} {ledger : Ledger} {r : ClassRecord}

/-- While a class that takes counters has none, there are fewer segments than such classes. -/
theorem Sound.size_lt (h : ledger.Sound (· ∈ records)) (hr : r ∈ records) (hpos : 0 < r.probeCount)
    (hindex : ledger.store.indexOf? r.identity = none) :
  ledger.store.size < (takers records).length
  := by
  have hnodup : (r.identity :: ledger.store.segments.toList.map Segment.identity).Nodup := by
    apply List.nodup_cons.mpr ⟨?_, h.nodup_segments⟩
    intro hmem
    obtain ⟨s, hs, hidentity⟩ := List.mem_map.mp hmem
    have hother := Array.findIdx?_eq_none_iff.mp hindex s (Array.mem_toList_iff.mp hs)
    simp [hidentity] at hother
  have hsubset : r.identity :: ledger.store.segments.toList.map Segment.identity
      ⊆ takers records := by
    rw [List.cons_subset]
    refine ⟨mem_takers.mpr ⟨r, hr, hpos, rfl⟩, ?_⟩
    intro identity hmem
    obtain ⟨s, hs, rfl⟩ := List.mem_map.mp hmem
    have houtline : (s.identity, s.counts.size) ∈ ledger.store.outlines :=
      Array.mem_map.mpr ⟨s, Array.mem_toList_iff.mp hs, rfl⟩
    obtain ⟨hsize, r', hget, hcount⟩ := (h.outlined _ _).mp houtline
    obtain ⟨hidentity, hr'⟩ := h.known _ r' hget
    exact mem_takers.mpr ⟨r', hr', by omega, hidentity⟩
  have hlength := (List.Nodup.subperm hnodup hsubset).length_le
  rw [List.length_cons, List.length_map, Array.length_toList] at hlength
  apply hlength

section Entering

variable (hcoherent : Coherent (· ∈ records)) (hroom : (takers records).length ≤ capacity)

include hcoherent hroom

/-- A class that comes gets its counters while there is room. -/
theorem Loaded.exists_allocate (h : ledger.Loaded capacity records done) (hr : r ∈ records)
    (hpos : 0 < r.probeCount) :
  ∃ segment store, ledger.store.allocate r.identity r.probeCount = .ok (segment, store)
  := by
  cases hindex : ledger.store.indexOf? r.identity with
  | none =>
    have hlt := h.sound.size_lt hr hpos hindex
    rw [← h.capacity_eq] at hroom
    exact ⟨_, _, Store.allocate_eq_ok.mpr (.inr ⟨hindex, hlt.trans_le hroom, rfl, rfl⟩)⟩
  | some segment =>
    obtain ⟨counts, hcounts⟩ := Store.exists_of_indexOf? hindex
    -- a segment of the class is that of its record
    obtain ⟨old, hget, hold, hsize⟩ := h.sound.exists_record (Array.mem_of_getElem? hcounts)
    obtain rfl := hcoherent old r (h.sound.known _ old hget).2 hr hold
    exact ⟨_, _, Store.allocate_eq_ok.mpr (.inl ⟨⟨hindex, counts, hcounts, hsize.symm⟩, rfl⟩)⟩

/-- A class that comes is entered while there is room. -/
theorem Loaded.enter (h : ledger.Loaded capacity records done) (hr : r ∈ records) :
  (ledger.enter r).Loaded capacity records (done ++ [r])
  := by
  have hentered := h.sound.enter hcoherent hr
  have hcomplete : ∀ r' ∈ done ++ [r],
      (ledger.registry.insert r).get? r'.identity = some r' := by
    intro r' hr'
    rw [h.sound.get?_insert hcoherent hr]
    rcases List.mem_append.mp hr' with hr' | hr'
    · have hget := h.complete r' hr'
      split
      · rename_i heq
        rw [hcoherent r' r (h.sound.known _ r' hget).2 hr heq]
      · apply hget
    · obtain rfl := List.mem_singleton.mp hr'
      apply if_pos rfl
  by_cases hzero : r.probeCount = 0
  · rw [Ledger.enter, if_pos hzero] at hentered ⊢
    exact {
      sound := hentered
      complete := hcomplete
      capacity_eq := h.capacity_eq
      fresh := h.fresh }
  · obtain ⟨segment, store, hallocate⟩ :=
      h.exists_allocate hcoherent hroom hr (Nat.pos_of_ne_zero hzero)
    rw [Ledger.enter, if_neg hzero, hallocate] at hentered ⊢
    have hstore : store.capacity = ledger.store.capacity
        ∧ ∀ s ∈ store.segments, s = .fresh s.identity s.counts.size := by
      rcases Store.allocate_eq_ok.mp hallocate with ⟨-, rfl⟩ | ⟨-, -, -, rfl⟩
      · exact ⟨rfl, h.fresh⟩
      · refine ⟨rfl, ?_⟩
        intro s hs
        rcases Array.mem_push.mp hs with hs | rfl
        · apply h.fresh s hs
        · simp [Segment.fresh]
    exact {
      sound := hentered
      complete := hcomplete
      capacity_eq := hstore.1.trans h.capacity_eq
      fresh := hstore.2 }

/-- Classes that come are entered while there is room. -/
theorem Loaded.foldl_enter {new : List ClassRecord} (h : ledger.Loaded capacity records done)
    (hnew : new ⊆ records) :
  (new.foldl (fun ledger r => ledger.enter r) ledger).Loaded capacity records (done ++ new)
  := by
  induction new generalizing done ledger with
  | nil =>
    rw [List.append_nil]
    apply h
  | cons r new ih =>
    obtain ⟨hr, hnew⟩ := List.cons_subset.mp hnew
    rw [List.append_cons]
    apply ih (h.enter hcoherent hroom hr) hnew

end Entering

/-! ## Two orders -/

section Orders

variable {capacity' : Nat} {records' : List ClassRecord} {ledger' : Ledger}
  (h : ledger.Loaded capacity records records) (h' : ledger'.Loaded capacity' records' records')
  (hsame : ∀ r, r ∈ records ↔ r ∈ records')

include h h' hsame

theorem Loaded.get?_of_get? {identity : ClassIdentity}
    (hget : ledger.registry.get? identity = some r) :
  ledger'.registry.get? identity = some r
  := by
  obtain ⟨rfl, hmem⟩ := h.sound.known _ r hget
  apply h'.complete r ((hsame r).mp hmem)

/-- The same classes make the same registry, in whatever order they come. -/
theorem Loaded.registry_eq :
  ledger.registry = ledger'.registry
  := by
  have hentries : ledger.registry.entries = ledger'.registry.entries := by
    apply h.sound.ascending.eq_of_lookup ClassIdentity.isOrder_precedes h'.sound.ascending
    intro identity
    apply Option.ext
    intro r
    exact ⟨h.get?_of_get? h' hsame, h'.get?_of_get? h fun r => (hsame r).symm⟩
  exact congrArg Registry.mk hentries

/-- The same classes get as many counters, in whatever order they come. -/
theorem Loaded.mem_outlines_iff {identity : ClassIdentity} {probes : Nat} :
  (identity, probes) ∈ ledger.store.outlines ↔ (identity, probes) ∈ ledger'.store.outlines
  := by
  rw [h.sound.outlined, h'.sound.outlined, h.registry_eq h' hsame]

end Orders

theorem Sound.hitAll {known : ClassRecord → Prop} (h : ledger.Sound known)
    (hits : List (Nat × Nat)) :
  Sound known ⟨ledger.store.hitAll hits, ledger.registry⟩
  := h.of_outlines (Store.outlines_hitAll _ _)

/-- After some hits a class has the numbers of its hits as counters. -/
theorem Loaded.countsFor_hitAll (h : ledger.Loaded capacity records done) (hits : List (Nat × Nat))
    {identity : ClassIdentity} {k probes : Nat} (hholds : ledger.store.Holds identity k probes) :
  CoverageReport.countsFor (ledger.store.hitAll hits).segments.toList identity
    = ((Segment.fresh identity probes).advance fun p => hits.count (k, p)).counts
  := by
  obtain ⟨counts, hget, hsize⟩ := hholds.counters
  have hfresh := h.fresh _ (Array.mem_of_getElem? hget)
  dsimp only at hfresh
  rw [hsize] at hfresh
  have hhit := Store.segments_hitAll ledger.store hits k
  rw [hget, hfresh, Option.map_some] at hhit
  apply (h.sound.hitAll hits).countsFor_eq (Array.mem_of_getElem? hhit)

/-- The class of an outline has a segment. -/
theorem Sound.exists_holds {known : ClassRecord → Prop} (h : ledger.Sound known)
    {identity : ClassIdentity} {probes : Nat} (hmem : (identity, probes) ∈ ledger.store.outlines) :
  ∃ k, ledger.store.Holds identity k probes
  := by
  obtain ⟨s, hs, heq⟩ := Array.mem_map.mp hmem
  obtain ⟨rfl, rfl⟩ := Prod.mk.inj heq
  obtain ⟨k, hk⟩ := Array.mem_iff_getElem?.mp hs
  exact ⟨k, h.indexOf?_eq hk, s.counts, hk, rfl⟩

/-- The same classes with as many hits make the same report. -/
theorem Loaded.report_eq {capacity' : Nat} {records' : List ClassRecord} {ledger' : Ledger}
    (h : ledger.Loaded capacity records records) (h' : ledger'.Loaded capacity' records' records')
    (hsame : ∀ r, r ∈ records ↔ r ∈ records') {hits hits' : List (Nat × Nat)}
    (hhits : ∀ identity k k' probes, ledger.store.Holds identity k probes →
      ledger'.store.Holds identity k' probes →
        ∀ p < probes, hits.count (k, p) = hits'.count (k', p)) :
  report ⟨ledger.store.hitAll hits, ledger.registry⟩
    = report ⟨ledger'.store.hitAll hits', ledger'.registry⟩
  := by
  have hcounts : ∀ identity,
      CoverageReport.countsFor (ledger.store.hitAll hits).segments.toList identity
        = CoverageReport.countsFor (ledger'.store.hitAll hits').segments.toList identity := by
    intro identity
    by_cases hmem : ∃ probes, (identity, probes) ∈ ledger.store.outlines
    · obtain ⟨probes, hmem⟩ := hmem
      obtain ⟨k, hk⟩ := h.sound.exists_holds hmem
      obtain ⟨k', hk'⟩ := h'.sound.exists_holds ((h.mem_outlines_iff h' hsame).mp hmem)
      rw [h.countsFor_hitAll hits hk, h'.countsFor_hitAll hits' hk']
      congr 1
      apply Segment.advance_congr
      intro p hp
      apply hhits identity k k' probes hk hk' p (by simpa [Segment.fresh] using hp)
    · -- no segment of the class comes up by hits
      have hnone : ∀ (store : Store) (hits : List (Nat × Nat)),
          (¬ ∃ probes, (identity, probes) ∈ store.outlines) →
            CoverageReport.countsFor (store.hitAll hits).segments.toList identity = #[] := by
        intro store hits hmem
        apply CoverageReport.countsFor_of_none
        rintro s hs rfl
        apply hmem
        rw [← Store.outlines_hitAll store hits]
        exact ⟨s.counts.size, Array.mem_map.mpr ⟨s, Array.mem_toList_iff.mp hs, rfl⟩⟩
      rw [hnone _ hits hmem, hnone _ hits' (by simpa [h.mem_outlines_iff h' hsame] using hmem)]
  rw [report, report, h.registry_eq h' hsame, CoverageReport.aggregate, CoverageReport.aggregate]
  congr 2
  funext r
  rw [hcounts]

end Ledger

/-! ## Agents -/

namespace Agent

/-- The number of the classes that take counters. -/
def demand (policy : Policy) (classes : List (List UInt8)) : Nat :=
  (Ledger.takers (classes.filterMap (recordOf? policy))).length

theorem demand_le_length (policy : Policy) (classes : List (List UInt8)) :
  demand policy classes ≤ classes.length
  := by
  apply (List.dedup_sublist _).length_le.trans
  rw [List.length_map]
  apply (List.length_filter_le _ _).trans (List.length_filterMap_le _ _)

variable {policy : Policy} {filter filter' : ClassFilter} {capacity capacity' : Nat}
  {loads loads' : List Call}

/-- Loading classes enters their records one after the other. -/
theorem foldl_after_loads (hload : ∀ call ∈ loads, call.bytes?.isSome) (ledger : Ledger) :
  loads.foldl (Ledger.after policy filter) ledger
    = ((loads.filterMap (Call.accepted? filter)).filterMap (recordOf? policy)).foldl
      (fun ledger r => ledger.enter r) ledger
  := by
  rw [List.filterMap_filterMap]
  induction loads generalizing ledger with
  | nil => rfl
  | cons call loads ih =>
    obtain ⟨hcall, hload⟩ := List.forall_mem_cons.mp hload
    have hafter : ledger.after policy filter call
        = (call.record? policy filter).elim ledger ledger.enter := by
      cases call with
      | transform className bytes => rfl
      | tryTransform className bytes => rfl
      | _ => cases hcall
    rw [List.foldl_cons, hafter, ih hload, List.filterMap_cons, Call.record?]
    cases (call.accepted? filter).bind (recordOf? policy) <;> rfl

/-- An agent with room for the classes that it loads has their records, and no others. -/
theorem loaded_run (hbridge : ClassPlan.BridgeFits policy.bridge)
    (hload : ∀ call ∈ loads, call.bytes?.isSome)
    (hdistinct : Distinct (loads.filterMap (Call.accepted? filter)))
    (hroom : demand policy (loads.filterMap (Call.accepted? filter)) ≤ capacity) :
  ((fresh policy filter capacity).run loads).ledger.Loaded capacity
    ((loads.filterMap (Call.accepted? filter)).filterMap (recordOf? policy))
    ((loads.filterMap (Call.accepted? filter)).filterMap (recordOf? policy))
  := by
  have hcoherent : Ledger.Coherent
      (· ∈ (loads.filterMap (Call.accepted? filter)).filterMap (recordOf? policy)) := by
    intro r r' hr hr'
    apply coherent_isRecordOf hdistinct r r' (List.mem_filterMap.mp hr) (List.mem_filterMap.mp hr')
  rw [ledger_run hbridge]
  change (loads.foldl (Ledger.after policy filter) _).Loaded _ _ _
  rw [foldl_after_loads hload]
  apply (Ledger.loaded_empty capacity _).foldl_enter hcoherent hroom (List.Subset.refl _)

/-- Hits change counters only. -/
theorem ledger_run_hits (agent : Agent) (hits : List (Nat × Nat)) :
  (agent.run (hits.map fun target => .hit target.1 target.2)).ledger
    = ⟨agent.store.hitAll hits, agent.registry⟩
  := by
  induction hits generalizing agent with
  | nil => rfl
  | cons target hits ih => apply ih (agent.hit target.1 target.2)

/-- Two agents with room for the same classes, of which no two have the same identity, make the same
report on them, in whatever order they load them, when each probe has run as often, wherever its
class has its segment. -/
theorem snapshot_eq_of_same_classes (hbridge : ClassPlan.BridgeFits policy.bridge)
    (hload : ∀ call ∈ loads, call.bytes?.isSome) (hload' : ∀ call ∈ loads', call.bytes?.isSome)
    (hsame : ∀ bytes, bytes ∈ loads.filterMap (Call.accepted? filter)
      ↔ bytes ∈ loads'.filterMap (Call.accepted? filter'))
    (hdistinct : Distinct (loads.filterMap (Call.accepted? filter)))
    (hroom : demand policy (loads.filterMap (Call.accepted? filter)) ≤ capacity)
    (hroom' : demand policy (loads'.filterMap (Call.accepted? filter')) ≤ capacity')
    {agent agent' : Agent} (hagent : (fresh policy filter capacity).run loads = agent)
    (hagent' : (fresh policy filter' capacity').run loads' = agent')
    {hits hits' : List (Nat × Nat)}
    (hhits : ∀ identity k k' probes, agent.store.Holds identity k probes →
      agent'.store.Holds identity k' probes →
        ∀ p < probes, hits.count (k, p) = hits'.count (k', p)) :
  (agent.run (hits.map fun target => .hit target.1 target.2)).snapshot
    = (agent'.run (hits'.map fun target => .hit target.1 target.2)).snapshot
  := by
  have hdistinct' := hdistinct.mono fun bytes => (hsame bytes).mpr
  have hloaded := loaded_run hbridge hload hdistinct hroom
  have hloaded' := loaded_run hbridge hload' hdistinct' hroom'
  rw [hagent] at hloaded
  rw [hagent'] at hloaded'
  have hrecords : ∀ r, r ∈ (loads.filterMap (Call.accepted? filter)).filterMap (recordOf? policy)
      ↔ r ∈ (loads'.filterMap (Call.accepted? filter')).filterMap (recordOf? policy) := by
    intro r
    rw [List.mem_filterMap, List.mem_filterMap]
    simp only [hsame]
  have hreport := hloaded.report_eq hloaded' hrecords hhits
  change Ledger.report (agent.run _).ledger = Ledger.report (agent'.run _).ledger
  rw [ledger_run_hits agent hits, ledger_run_hits agent' hits']
  apply hreport

/-! ## Two classes in two orders -/

/-- A class that got its probes has a record with probes. -/
theorem exists_record_of_tryTransform {agent agent' : Agent} {className : String}
    {bytes out : List UInt8} (hbridge : ClassPlan.BridgeFits agent.policy.bridge)
    (h : agent.tryTransform className bytes = (.ok (some out), agent')) :
  ∃ r, recordOf? agent.policy bytes = some r ∧ 0 < r.probeCount
  := by
  have hattempt := attempt_tryTransform hbridge className bytes
  rw [h] at hattempt
  cases hattempt with
  | @probed c plan _ _ _ log hread hcalls hplan hempty hallocate hrender =>
    have hout := exists_render hread hplan hbridge hrender 0
    exact ⟨_, recordOf?_eq_some.mpr ⟨c, plan, hread, hcalls, hplan, .inr hout, rfl⟩,
      probeCount_pos hempty _⟩

/-- A class with probes that is loaded gets counters when there is room. -/
theorem exists_holds_run (hbridge : ClassPlan.BridgeFits policy.bridge)
    (hload : ∀ call ∈ loads, call.bytes?.isSome)
    (hdistinct : Distinct (loads.filterMap (Call.accepted? filter)))
    (hroom : demand policy (loads.filterMap (Call.accepted? filter)) ≤ capacity)
    {bytes : List UInt8} {r : ClassRecord} (hbytes : bytes ∈ loads.filterMap (Call.accepted? filter))
    (hr : recordOf? policy bytes = some r) (hpos : 0 < r.probeCount) :
  ∃ k, ((fresh policy filter capacity).run loads).store.Holds r.identity k r.probeCount
  := by
  have hloaded := loaded_run hbridge hload hdistinct hroom
  apply hloaded.sound.exists_holds
  rw [hloaded.sound.outlined]
  exact ⟨hpos, r, hloaded.complete r (List.mem_filterMap.mpr ⟨bytes, hbytes, hr⟩), rfl⟩

theorem identityOf?_jumpClass :
  identityOf? ClassFile.jumpClass.form = some (.of "A" ClassFile.jumpClass.form)
  := by
  rw [identityOf?, ClassFile.read_form_jumpClass]
  rfl

theorem distinct_jumpClass_tableClass :
  Distinct [ClassFile.jumpClass.form, ClassFile.tableClass.form]
  := by
  have htable : identityOf? ClassFile.tableClass.form
      = some (.of "A" ClassFile.tableClass.form) := by
    rw [identityOf?, ClassFile.read_form_tableClass]
    rfl
  have hne : ClassIdentity.of "A" ClassFile.jumpClass.form
      ≠ .of "A" ClassFile.tableClass.form := by
    decide +kernel
  intro bytes hbytes bytes' hbytes' identity hidentity hidentity'
  rw [← hidentity'] at hidentity
  simp only [List.mem_cons, List.not_mem_nil, or_false] at hbytes hbytes'
  rcases hbytes with rfl | rfl <;> rcases hbytes' with rfl | rfl
  · rfl
  · rw [identityOf?_jumpClass, htable] at hidentity
    exact absurd (Option.some.inj hidentity) hne
  · rw [identityOf?_jumpClass, htable] at hidentity
    exact absurd (Option.some.inj hidentity).symm hne
  · rfl

/-- Two classes called `A`, one with a jump and one with tables, loaded in both orders, make the same
report when the one with a jump was hit once. -/
theorem snapshot_eq_of_same_classes_jumpClass :
  ∃ (agent agent' : Agent) (k k' probes : Nat), 0 < probes
    ∧ (fresh {} .all 2).run [.tryTransform "A" ClassFile.jumpClass.form,
      .tryTransform "A" ClassFile.tableClass.form] = agent
    ∧ (fresh {} .all 3).run [.tryTransform "A" ClassFile.tableClass.form,
      .tryTransform "A" ClassFile.jumpClass.form] = agent'
    ∧ agent.store.Holds (.of "A" ClassFile.jumpClass.form) k probes
    ∧ agent'.store.Holds (.of "A" ClassFile.jumpClass.form) k' probes
    ∧ (agent.run [.hit k 0]).snapshot = (agent'.run [.hit k' 0]).snapshot
  := by
  have hbridge : ClassPlan.BridgeFits ({} : Policy).bridge := by decide +kernel
  have hdistinct := distinct_jumpClass_tableClass
  obtain ⟨out, _, hdone⟩ := exists_tryTransform_jumpClass
  obtain ⟨r, hr, hpos⟩ := exists_record_of_tryTransform hbridge hdone
  have hidentity : r.identity = .of "A" ClassFile.jumpClass.form :=
    Option.some.inj ((identityOf?_of_recordOf? hr).symm.trans identityOf?_jumpClass)
  rw [← hidentity]
  clear hdone hidentity
  -- nothing below looks into the classes
  generalize ClassFile.jumpClass.form = jump at hdistinct hr ⊢
  generalize ClassFile.tableClass.form = table at hdistinct ⊢
  have hswap : [jump, table].Perm [table, jump] := .swap _ _ _
  have hload : ∀ a b : List UInt8,
      ∀ call ∈ [Call.tryTransform "A" a, .tryTransform "A" b], call.bytes?.isSome := by
    simp [Call.bytes?]
  have hroom := demand_le_length {} [jump, table]
  have hroom' := (demand_le_length {} [table, jump]).trans (Nat.le_succ 2)
  obtain ⟨k, hk⟩ : ∃ k, ((fresh {} .all 2).run [.tryTransform "A" jump,
      .tryTransform "A" table]).store.Holds r.identity k r.probeCount :=
    exists_holds_run hbridge (hload _ _) hdistinct hroom List.mem_cons_self hr hpos
  obtain ⟨k', hk'⟩ : ∃ k', ((fresh {} .all 3).run [.tryTransform "A" table,
      .tryTransform "A" jump]).store.Holds r.identity k' r.probeCount :=
    exists_holds_run hbridge (hload _ _) (hdistinct.mono hswap.symm.subset) hroom'
      (List.mem_cons_of_mem _ List.mem_cons_self) hr hpos
  refine ⟨_, _, k, k', r.probeCount, hpos, rfl, rfl, hk, hk', ?_⟩
  change (Agent.run _ ([(k, 0)].map fun target => .hit target.1 target.2)).snapshot
    = (Agent.run _ ([(k', 0)].map fun target => .hit target.1 target.2)).snapshot
  apply snapshot_eq_of_same_classes hbridge (hload _ _) (hload _ _) (fun _ => hswap.mem_iff) hdistinct
    hroom hroom' rfl rfl
  intro identity i i' probes hi hi' p hp
  have hsame : k = i ↔ k' = i' := by rw [hk.eq_iff hi, hk'.eq_iff hi']
  simp [List.count_singleton, hsame]

end Agent

end JvmCoverage
