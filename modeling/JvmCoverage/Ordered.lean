/-!
# Association lists in order

Entries stand in ascending order of their keys, so that two lists with the same entries are
equal.  `Ordered.insert` keeps the order and replaces the entry with an equal key.
-/

namespace JvmCoverage.Ordered

variable {κ β : Type} [DecidableEq κ]

/-- The value of the first entry for `key`. -/
def lookup (key : κ) : List (κ × β) → Option β
  | [] => none
  | (other, value) :: rest => if key = other then some value else lookup key rest

/-- The entries with `value` for `key`, where `before` is the order of keys. -/
def insert (before : κ → κ → Bool) (key : κ) (value : β) : List (κ × β) → List (κ × β)
  | [] => [(key, value)]
  | (other, previous) :: rest =>
    if key = other then (key, value) :: rest
    else if before key other then (key, value) :: (other, previous) :: rest
    else (other, previous) :: insert before key value rest

/-- The entries with `value` for `key`, unless there is an entry for `key` already. -/
def insertNew (before : κ → κ → Bool) (key : κ) (value : β) (entries : List (κ × β)) :
    List (κ × β) :=
  if (lookup key entries).isSome then entries else insert before key value entries

theorem lookup_insert_self (before : κ → κ → Bool) (key : κ) (value : β)
    (entries : List (κ × β)) :
  lookup key (insert before key value entries) = some value
  := by
  fun_induction insert before key value entries <;> simp_all [lookup]

theorem lookup_insert_other (before : κ → κ → Bool) {key other : κ} (value : β)
    (entries : List (κ × β)) (h : other ≠ key) :
  lookup other (insert before key value entries) = lookup other entries
  := by
  fun_induction insert before key value entries <;> simp_all [lookup]

end JvmCoverage.Ordered
