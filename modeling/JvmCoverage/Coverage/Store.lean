import JvmCoverage.Coverage.Identity
import JvmCoverage.Error.Instrument

/-!
# Counters

A `Store` holds one segment of counters for each class, in the order in which the classes asked
for them.  The number of a segment is its position.  Segments are never given up.
-/

namespace JvmCoverage

/-- The counters of a class, one for each probe. -/
structure Segment where
  identity : ClassIdentity
  counts : Array UInt64
  deriving DecidableEq

namespace Segment

/-- The counters of a class with `probes` probes, none of which has run. -/
def fresh (identity : ClassIdentity) (probes : Nat) : Segment :=
  ⟨identity, .replicate probes 0⟩

/-- The count of `probe`, 0 if there is no such probe. -/
def count (s : Segment) (probe : Nat) : UInt64 := s.counts[probe]?.getD 0

/-- The counters after `probe` has run once more; counters start anew at 0 after 2⁶⁴ runs. -/
def hit (probe : Nat) (s : Segment) : Segment :=
  { s with counts := s.counts.modify probe (· + 1) }

/-- The counters set to 0. -/
def reset (s : Segment) : Segment :=
  { s with counts := s.counts.map fun _ => 0 }

end Segment

/-- The counters of all classes. -/
structure Store where
  /-- The most segments the store has room for. -/
  capacity : Nat
  segments : Array Segment := #[]
  deriving DecidableEq

namespace Store

/-- The number of segments that programs run with. -/
def defaultCapacity : Nat := 65536

/-- The number of segments. -/
def size (store : Store) : Nat := store.segments.size

/-- The number of the segment of a class. -/
def indexOf? (store : Store) (identity : ClassIdentity) : Option Nat :=
  store.segments.findIdx? (·.identity == identity)

/-- The counters of a class. -/
def counts? (store : Store) (identity : ClassIdentity) : Option (Array UInt64) :=
  (store.segments.find? (·.identity == identity)).map Segment.counts

/-- The number of the segment of a class with `probes` probes, and the store with that segment.
Fails when the class has a segment of another size, or has none and there is no room for one
more. -/
def allocate (store : Store) (identity : ClassIdentity) (probes : Nat) :
    Except InstrumentError (Nat × Store) :=
  match store.indexOf? identity with
  | some index =>
    let existing := (store.segments[index]?.map (·.counts.size)).getD 0
    if existing = probes then .ok (index, store)
    else .error (.segmentMismatch identity.text existing probes)
  | none =>
    if store.capacity ≤ store.size then
      .error (.capacity .segments (store.size + 1) store.capacity)
    else
      .ok (store.size, { store with segments := store.segments.push (.fresh identity probes) })

/-- The store after a probe has run once more. -/
def hit (segment probe : Nat) (store : Store) : Store :=
  { store with segments := store.segments.modify segment (Segment.hit probe) }

/-- The store with the counters of one segment set to 0. -/
def resetSegment (segment : Nat) (store : Store) : Store :=
  { store with segments := store.segments.modify segment Segment.reset }

/-- The store with all counters set to 0. -/
def reset (store : Store) : Store :=
  { store with segments := store.segments.map Segment.reset }

end Store

end JvmCoverage
