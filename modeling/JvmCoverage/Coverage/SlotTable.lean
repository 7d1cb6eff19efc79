import JvmCoverage.Coverage.Store
import Std.Data.HashMap.Basic

/-!
# Counters in slots

A `SlotTable` keeps the segments of a store where a probe finds them without a search.  It has a
fixed number of slots, which are filled from the first on and never emptied.  The number of a slot
is all that a probe has to know, and it has 32 bits.  Next to the slots the table keeps how many of
them are filled, and in which one each class has its counters.
-/

namespace JvmCoverage

/-- A segment together with the number of its slot. -/
structure Slot where
  number : UInt32
  segment : Segment
  deriving DecidableEq

/-- The slot with its segment changed. -/
def Slot.map (f : Segment → Segment) (slot : Slot) : Slot :=
  { slot with segment := f slot.segment }

/-- The counters of all classes, in slots. -/
structure SlotTable where
  slots : Array (Option Slot)
  /-- The number of slots that are filled. -/
  allocated : Nat := 0
  /-- The number of the slot of each class. -/
  index : Std.HashMap ClassIdentity UInt32 := ∅

namespace SlotTable

/-- A table of which no slot is filled. -/
def withCapacity (capacity : Nat) : SlotTable where
  slots := .replicate capacity none

/-- The number of slots. -/
def capacity (t : SlotTable) : Nat := t.slots.size

/-- What is in the slot with the given number. -/
def slot? (number : UInt32) (t : SlotTable) : Option Slot :=
  t.slots[number.toNat]?.join

/-- The slots that are filled, in order. -/
def filled (t : SlotTable) : List Slot :=
  (t.slots.toList.take t.allocated).filterMap id

/-- The slot of a class with `probes` probes, and the table in which the class has it.  A class
keeps its slot; a class without one is given the next that is free.  Fails when the class has
another number of counters, or when it has none and no slot is free, and then the table stays as
it is. -/
def allocate (identity : ClassIdentity) (probes : Nat) (t : SlotTable) :
    Except InstrumentError Slot × SlotTable :=
  match t.index[identity]?.bind t.slot? with
  | some slot =>
    let existing := slot.segment.counts.size
    if existing = probes then (.ok slot, t)
    else (.error (.segmentMismatch identity.text existing probes), t)
  | none =>
    if t.capacity ≤ t.allocated then
      (.error (.capacity .segments (t.allocated + 1) t.capacity), t)
    else
      let number := UInt32.ofNat t.allocated
      -- a slot is written once, and what is there stays
      let slot := t.slots[t.allocated]?.join.getD ⟨number, .fresh identity probes⟩
      (.ok slot,
        { slots := t.slots.setIfInBounds t.allocated slot
          allocated := t.allocated + 1
          index := t.index.insert identity number })

/-- The table after a probe of the slot with the given number has run once more. -/
def hit (number probe : UInt32) (t : SlotTable) : SlotTable :=
  { t with slots := t.slots.modify number.toNat (Option.map (Slot.map (.hit probe.toNat))) }

/-- The table with the counters of one slot set to 0. -/
def resetSlot (number : UInt32) (t : SlotTable) : SlotTable :=
  { t with slots := t.slots.modify number.toNat (Option.map (Slot.map .reset)) }

/-- The table with the counters of all filled slots set to 0. -/
def reset (t : SlotTable) : SlotTable :=
  { t with slots := t.slots.mapIdx fun number slot =>
      if number < t.allocated then slot.map (Slot.map .reset) else slot }

end SlotTable

end JvmCoverage
