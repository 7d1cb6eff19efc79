/-!
# Binary search

`Search.lastUpTo? key items wanted` halves a range of `items` until one place is left.  On items
with ascending keys that is the last one with a key up to `wanted`, if there is one, and
`Search.find?` finds `wanted` exactly when it occurs among the keys.  On other arrays the answer
is still determined, by which keys are compared: a range is split in the middle, and its upper
half is kept when it begins with a key up to `wanted`.
-/

namespace JvmCoverage.Search

variable {α : Type}

/-- Whether the item at `i` has a key up to `wanted`. -/
def isUpTo (key : α → Nat) (items : Array α) (wanted i : Nat) : Bool :=
  match items[i]? with
  | some item => key item ≤ wanted
  | none => false

/-- The index left when the `size` places from `base` on are halved down to one. -/
def narrow (key : α → Nat) (items : Array α) (wanted base size : Nat) : Nat :=
  if 1 < size then
    let half := size / 2
    let middle := base + half
    narrow key items wanted (if isUpTo key items wanted middle then middle else base) (size - half)
  else base
termination_by size

/-- The index of the last item with a key up to `wanted`. -/
def lastUpTo? (key : α → Nat) (items : Array α) (wanted : Nat) : Option Nat :=
  let i := narrow key items wanted 0 items.size
  if isUpTo key items wanted i then some i else none

/-- The index of the item with the key `wanted`. -/
def find? (key : α → Nat) (items : Array α) (wanted : Nat) : Option Nat :=
  (lastUpTo? key items wanted).filter fun i => items[i]?.map key == some wanted

end JvmCoverage.Search
