import JvmCoverage.Proofs.Ledger

/-!
# Counters, records and reports agree

Whatever is asked of an agent over a store of its own, each segment is that of one record with as
many probes, and each record with probes has a segment.  The report has an entry for each record, and
its totals are those of the counters (`Agent.agrees_run`).  It takes that no two classes have the
same identity: a class is known by its name and a digest of eight bytes.
-/

namespace JvmCoverage

/-! ## Records -/

/-- A record that is made of a class tells its probes in order, each with a listed method. -/
theorem Agent.sound_of_recordOf? {policy : Policy} {bytes : List UInt8} {r : ClassRecord}
    (h : recordOf? policy bytes = some r) :
  r.Sound
  := by
  obtain ⟨c, plan, hread, -, hplan, -, rfl⟩ := recordOf?_eq_some.mp h
  have hbooks := ClassPlan.keepsBooks_of_ofClass hplan (ClassFile.wellFormed_of_read hread).1
  use hbooks.numbered
  intro p hp
  obtain ⟨record, hrecord, -⟩ := hbooks.probe_listed p hp
  exact (List.getElem?_eq_some_iff.mp hrecord).1

/-- The counters of a class are those of a segment of the class, if there is one. -/
theorem CoverageReport.countsFor_cases (segments : List Segment) (identity : ClassIdentity) :
  (∃ s ∈ segments, s.identity = identity ∧ countsFor segments identity = s.counts)
    ∨ (∀ s ∈ segments, s.identity ≠ identity) ∧ countsFor segments identity = #[]
  := by
  cases hfind : segments.find? (·.identity == identity) with
  | none =>
    have hnone : ∀ s ∈ segments, s.identity ≠ identity := by simpa using hfind
    exact .inr ⟨hnone, countsFor_of_none hnone⟩
  | some s =>
    refine .inl ⟨s, List.mem_of_find?_eq_some hfind, ?_, ?_⟩
    · simpa using List.find?_some hfind
    · rw [countsFor, hfind]
      rfl

namespace Ledger

variable {known : ClassRecord → Prop} {ledger : Ledger}

section Sound

variable (h : ledger.Sound known)

include h

/-- A record is found under its identity. -/
theorem Sound.mem_records_iff {r : ClassRecord} :
  r ∈ ledger.registry.records ↔ ledger.registry.get? r.identity = some r
  := by
  rw [Registry.records, List.mem_map]
  constructor
  · rintro ⟨⟨identity, r'⟩, hentry, rfl⟩
    have hget := (h.ascending.lookup_eq_some_iff ClassIdentity.isOrder_precedes).mpr hentry
    obtain ⟨hidentity, -⟩ := h.known identity r' hget
    dsimp only
    rw [hidentity]
    apply hget
  · exact fun hget => ⟨_, Ordered.mem_of_lookup hget, rfl⟩

/-- Records stand under their identities. -/
theorem Sound.map_identity_records :
  ledger.registry.records.map ClassRecord.identity = ledger.registry.entries.map Prod.fst
  := by
  rw [Registry.records, List.map_map]
  apply List.map_congr_left
  rintro ⟨identity, r⟩ hentry
  have hget := (h.ascending.lookup_eq_some_iff ClassIdentity.isOrder_precedes).mpr hentry
  apply (h.known identity r hget).1

/-- Records stand in the order of their identities. -/
theorem Sound.pairwise_records :
  ledger.registry.records.Pairwise fun a b => a.identity.precedes b.identity
  := by
  have hkeys : (ledger.registry.entries.map Prod.fst).Pairwise fun a b => a.precedes b :=
    List.pairwise_map.mpr h.ascending
  rw [← h.map_identity_records] at hkeys
  apply List.pairwise_map.mp hkeys

theorem Sound.nodup_records :
  (ledger.registry.records.map ClassRecord.identity).Nodup
  := by
  rw [h.map_identity_records]
  apply h.ascending.nodup_keys ClassIdentity.isOrder_precedes

theorem Sound.nodup_segments :
  (ledger.store.segments.toList.map Segment.identity).Nodup
  := by
  have hdistinct := h.distinct
  rw [Store.outlines, Array.toList_map, List.map_map] at hdistinct
  apply hdistinct

/-- A segment is that of one record with as many probes. -/
theorem Sound.exists_record {s : Segment} (hs : s ∈ ledger.store.segments) :
  ∃ r, ledger.registry.get? s.identity = some r ∧ r.identity = s.identity
    ∧ r.probeCount = s.counts.size
  := by
  have hmem : (s.identity, s.counts.size) ∈ ledger.store.outlines :=
    Array.mem_map.mpr ⟨s, hs, rfl⟩
  obtain ⟨-, r, hget, hcount⟩ := (h.outlined _ _).mp hmem
  exact ⟨r, hget, (h.known _ r hget).1, hcount⟩

/-- A record with probes has a segment. -/
theorem Sound.exists_segment {r : ClassRecord} (hr : r ∈ ledger.registry.records)
    (hpos : 0 < r.probeCount) :
  ∃ s ∈ ledger.store.segments, s.identity = r.identity
  := by
  have hmem := (h.outlined r.identity r.probeCount).mpr
    ⟨hpos, r, (h.mem_records_iff).mp hr, rfl⟩
  obtain ⟨s, hs, heq⟩ := Array.mem_map.mp hmem
  exact ⟨s, hs, (Prod.mk.inj heq).1⟩

/-- The segment in a place is found under its identity. -/
theorem Sound.indexOf?_eq {k : Nat} {s : Segment} (hs : ledger.store.segments[k]? = some s) :
  ledger.store.indexOf? s.identity = some k
  := by
  obtain ⟨hlt, rfl⟩ := Array.getElem?_eq_some_iff.mp hs
  apply Array.findIdx?_eq_some_iff_getElem.mpr ⟨hlt, by simp, ?_⟩
  intro j hj
  have hne := List.pairwise_iff_getElem.mp h.nodup_segments j k (by simp; omega) (by simpa) hj
  simpa using hne

/-- A class has as many counters as its record has probes. -/
theorem Sound.size_countsFor {r : ClassRecord} (hr : r ∈ ledger.registry.records) :
  (CoverageReport.countsFor ledger.store.segments.toList r.identity).size = r.probeCount
  := by
  rcases CoverageReport.countsFor_cases ledger.store.segments.toList r.identity with
    ⟨s, hs, hidentity, hcounts⟩ | ⟨hnone, hcounts⟩
  · obtain ⟨r', hget, -, hsize⟩ := h.exists_record (Array.mem_toList_iff.mp hs)
    rw [hidentity, (h.mem_records_iff).mp hr] at hget
    obtain rfl := Option.some.inj hget
    rw [hcounts, hsize]
  · rw [hcounts, Array.size_empty]
    by_contra hne
    obtain ⟨s, hs, hidentity⟩ := h.exists_segment hr (by omega)
    apply hnone s (Array.mem_toList_iff.mpr hs) hidentity

/-- The counters of a segment are those of its class. -/
theorem Sound.countsFor_eq {s : Segment} (hs : s ∈ ledger.store.segments) :
  CoverageReport.countsFor ledger.store.segments.toList s.identity = s.counts
  := by
  rcases CoverageReport.countsFor_cases ledger.store.segments.toList s.identity with
    ⟨s', hs', hidentity, hcounts⟩ | ⟨hnone, -⟩
  · have hinj := List.inj_on_of_nodup_map h.nodup_segments
    rw [hcounts, hinj hs' (Array.mem_toList_iff.mpr hs) hidentity]
  · exact absurd rfl (hnone s (Array.mem_toList_iff.mpr hs))

theorem Sound.perm_report :
  (ledger.report.classes.map Prod.snd).Perm (ledger.registry.records.map fun r =>
    r.coverage (CoverageReport.countsFor ledger.store.segments.toList r.identity))
  := CoverageReport.perm_aggregate h.pairwise_records

/-- What a report adds up over methods is the sum over the segments of what the counters of each
amount to. -/
theorem Sound.total_report {f : Array UInt64 → Nat} (hf : f #[] = 0) {g : MethodCoverage → Nat}
    (hg : ∀ r ∈ ledger.registry.records, ∀ counts : Array UInt64, counts.size = r.probeCount →
      CoverageSummary.total g (r.coverage counts).methods = f counts) :
  CoverageSummary.total g ((ledger.report.classes.map Prod.snd).flatMap ClassCoverage.methods)
    = (ledger.store.segments.toList.map fun s => f s.counts).sum
  := by
  have hrecorded : ∀ s ∈ ledger.store.segments.toList,
      s.identity ∈ ledger.registry.records.map ClassRecord.identity := by
    intro s hs
    obtain ⟨r, hget, hidentity, -⟩ := h.exists_record (Array.mem_toList_iff.mp hs)
    rw [← hidentity] at hget ⊢
    apply List.mem_map_of_mem (h.mem_records_iff.mpr hget)
  rw [report, CoverageReport.total_aggregate h.pairwise_records,
    ← CoverageReport.sum_countsFor f hf h.nodup_records h.nodup_segments hrecorded]
  congr 1
  apply List.map_congr_left
  intro r hr
  apply hg r hr _ (h.size_countsFor hr)

/-- A class has run when a counter of its segment is not 0. -/
theorem Sound.executed_iff {entry : String × ClassCoverage}
    (hentry : entry ∈ ledger.report.classes) :
  entry.2.executed
    ↔ ∃ s ∈ ledger.store.segments, s.identity = entry.2.identity ∧ ∃ count ∈ s.counts, 0 < count
  := by
  obtain ⟨r, -, hr⟩ := List.mem_map.mp (h.perm_report.mem_iff.mp (List.mem_map_of_mem hentry))
  have hexecuted : entry.2.executed
      ↔ ∃ count ∈ CoverageReport.countsFor ledger.store.segments.toList r.identity, 0 < count := by
    rw [← hr, ClassRecord.coverage, Array.any_eq_true']
    simp
  have hidentity : entry.2.identity = r.identity := by
    rw [← hr]
    rfl
  rw [hexecuted, hidentity]
  constructor
  · rintro ⟨count, hcount, hpos⟩
    rcases CoverageReport.countsFor_cases ledger.store.segments.toList r.identity with
      ⟨s, hs, hidentity, hcounts⟩ | ⟨-, hcounts⟩
    · rw [hcounts] at hcount
      exact ⟨s, Array.mem_toList_iff.mp hs, hidentity, count, hcount, hpos⟩
    · rw [hcounts] at hcount
      simp at hcount
  · rintro ⟨s, hs, hidentity, count, hcount, hpos⟩
    rw [← h.countsFor_eq hs, hidentity] at hcount
    exact ⟨count, hcount, hpos⟩

end Sound

end Ledger

/-! ## Agents -/

namespace Agent

/-- Whether the counters, the records and the report of the agent agree. -/
structure Agrees (agent : Agent) : Prop where
  /-- A segment is found under the identity of its class, by its place. -/
  slots : ∀ (k : Nat) (s : Segment), agent.store.segments[k]? = some s →
    agent.store.indexOf? s.identity = some k
  distinct : (agent.store.segments.toList.map Segment.identity).Nodup
  recorded : ∀ s ∈ agent.store.segments, ∃ r, agent.registry.get? s.identity = some r
    ∧ r.identity = s.identity ∧ r.probeCount = s.counts.size
  counted : ∀ r ∈ agent.registry.records, 0 < r.probeCount →
    ∃ s ∈ agent.store.segments, s.identity = r.identity
  /-- The report has one entry for each record. -/
  entries : (agent.snapshot.classes.map fun entry => entry.2.identity).Perm
    (agent.registry.records.map ClassRecord.identity)
  identities : (agent.registry.records.map ClassRecord.identity).Nodup
  probesTotal : agent.snapshot.summary.probesTotal
    = (agent.store.segments.toList.map fun s => s.counts.size).sum
  probesHit : agent.snapshot.summary.probesHit
    = (agent.store.segments.toList.map fun s => s.counts.countP (0 < ·)).sum
  executed : ∀ entry ∈ agent.snapshot.classes, entry.2.executed
    ↔ ∃ s ∈ agent.store.segments, s.identity = entry.2.identity ∧ ∃ count ∈ s.counts, 0 < count

variable {agent : Agent} {known : ClassRecord → Prop}

/-- An agent with a sound ledger agrees with itself. -/
theorem agrees_of_sound (h : agent.ledger.Sound known) (hknown : ∀ r, known r → r.Sound) :
  agent.Agrees
  := by
  have hsound : ∀ r ∈ agent.ledger.registry.records, r.Sound := fun r hr =>
    hknown r (h.known _ r (h.mem_records_iff.mp hr)).2
  exact {
    slots := fun k s => h.indexOf?_eq
    distinct := h.nodup_segments
    recorded := fun s => h.exists_record
    counted := fun r => h.exists_segment
    entries := by
      have hidentities := h.perm_report.map ClassCoverage.identity
      rw [List.map_map, List.map_map] at hidentities
      apply hidentities
    identities := h.nodup_records
    probesTotal := by
      apply h.total_report (f := Array.size) rfl
      intro r hr counts hsize
      rw [(hsound r hr).probesTotal_methods, hsize]
    probesHit := by
      apply h.total_report (f := Array.countP (0 < ·)) rfl
      intro r hr counts hsize
      apply (hsound r hr).probesHit_methods hsize
    executed := fun entry => h.executed_iff }

/-! ## Every run -/

/-- The identity of a class. -/
def identityOf? (bytes : List UInt8) : Option ClassIdentity :=
  match ClassFile.read bytes with
  | .error _ => none
  | .ok c => some (.of c.name bytes)

/-- Whether no two different classes among these have the same identity. -/
def Distinct (classes : List (List UInt8)) : Prop :=
  ∀ bytes ∈ classes, ∀ bytes' ∈ classes, ∀ identity, identityOf? bytes = some identity →
    identityOf? bytes' = some identity → bytes = bytes'

theorem Distinct.mono {classes classes' : List (List UInt8)} (h : Distinct classes)
    (hsubset : classes' ⊆ classes) :
  Distinct classes'
  := fun bytes hbytes bytes' hbytes' => h bytes (hsubset hbytes) bytes' (hsubset hbytes')

/-- A record is made under the identity of its class. -/
theorem identityOf?_of_recordOf? {policy : Policy} {bytes : List UInt8} {r : ClassRecord}
    (h : recordOf? policy bytes = some r) :
  identityOf? bytes = some r.identity
  := by
  obtain ⟨c, plan, hread, -, -, -, rfl⟩ := recordOf?_eq_some.mp h
  rw [identityOf?, hread]
  rfl

/-- Whether the record is made of one of the classes. -/
def IsRecordOf (policy : Policy) (classes : List (List UInt8)) (r : ClassRecord) : Prop :=
  ∃ bytes ∈ classes, recordOf? policy bytes = some r

/-- Different classes with different identities have records with different identities. -/
theorem coherent_isRecordOf {policy : Policy} {classes : List (List UInt8)}
    (h : Distinct classes) :
  Ledger.Coherent (IsRecordOf policy classes)
  := by
  rintro r r' ⟨bytes, hbytes, hr⟩ ⟨bytes', hbytes', hr'⟩ heq
  have hidentity := identityOf?_of_recordOf? hr'
  rw [← heq] at hidentity
  obtain rfl := h bytes hbytes bytes' hbytes' _ (identityOf?_of_recordOf? hr) hidentity
  apply Option.some.inj (hr.symm.trans hr')

/-- An agent over a store of its own that was asked for nothing yet. -/
def fresh (policy : Policy) (filter : ClassFilter) (capacity : Nat) : Agent :=
  { policy, filter, store := { capacity } }

/-- A class that a call hands over and the filter lets pass is one that the call hands over. -/
theorem Call.bytes?_of_accepted? {filter : ClassFilter} {call : Call} {bytes : List UInt8}
    (h : call.accepted? filter = some bytes) :
  call.bytes? = some bytes
  := by
  cases call with
  | transform className other =>
    rw [accepted?] at h
    split at h
    · apply h
    · cases h
  | tryTransform className other => apply h
  | _ => cases h

/-- The ledger of an agent stays sound, whatever it is asked for. -/
theorem sound_run {policy : Policy} (hbridge : ClassPlan.BridgeFits policy.bridge)
    (filter : ClassFilter) (capacity : Nat) {calls : List Call}
    (hdistinct : Distinct (calls.filterMap Call.bytes?)) :
  ((fresh policy filter capacity).run calls).ledger.Sound
    (IsRecordOf policy (calls.filterMap Call.bytes?))
  := by
  rw [ledger_run hbridge]
  apply (Ledger.sound_empty _ capacity).run (coherent_isRecordOf hdistinct)
  intro call hcall r hr
  obtain ⟨bytes, haccepted, hrecord⟩ := Option.bind_eq_some_iff.mp hr
  exact ⟨bytes, List.mem_filterMap.mpr ⟨call, hcall, Call.bytes?_of_accepted? haccepted⟩, hrecord⟩

/-- Whatever an agent over a store of its own is asked for, its counters, records and reports
agree. -/
theorem agrees_run {policy : Policy} (hbridge : ClassPlan.BridgeFits policy.bridge)
    (filter : ClassFilter) (capacity : Nat) {calls : List Call}
    (hdistinct : Distinct (calls.filterMap Call.bytes?)) :
  ((fresh policy filter capacity).run calls).Agrees
  := by
  apply agrees_of_sound (sound_run hbridge filter capacity hdistinct)
  rintro r ⟨bytes, -, hr⟩
  apply sound_of_recordOf? hr

/-- The class with a jump is counted and reported in agreement, before and after its counters are
set to 0. -/
theorem agrees_run_jumpClass :
  Distinct [ClassFile.jumpClass.form, []]
    ∧ ((fresh {} .all 1).run [.transform "A" ClassFile.jumpClass.form, .hit 0 1]).Agrees
    ∧ ((fresh {} .all 1).run [.transform "A" ClassFile.jumpClass.form, .hit 0 1,
      .tryTransform "A" [], .snapshot, .resetSegment 0, .drain, .reset,
      .tryTransform "A" ClassFile.jumpClass.form]).Agrees
  := by
  have hnone : identityOf? [] = none := by decide +kernel
  have hdistinct : Distinct [ClassFile.jumpClass.form, []] := by
    intro bytes hbytes bytes' hbytes' identity hidentity hidentity'
    have hform : ∀ bytes ∈ [ClassFile.jumpClass.form, []], identityOf? bytes = some identity →
        bytes = ClassFile.jumpClass.form := by
      simp [hnone]
    rw [hform bytes hbytes hidentity, hform bytes' hbytes' hidentity']
  have hbridge : ClassPlan.BridgeFits ({} : Policy).bridge := by decide +kernel
  refine ⟨hdistinct, agrees_run hbridge .all 1 (hdistinct.mono ?_),
    agrees_run hbridge .all 1 (hdistinct.mono ?_)⟩
  · apply List.subset_append_left [ClassFile.jumpClass.form] [[]]
  · change [ClassFile.jumpClass.form, [], ClassFile.jumpClass.form] ⊆ _
    simp

end Agent

end JvmCoverage
