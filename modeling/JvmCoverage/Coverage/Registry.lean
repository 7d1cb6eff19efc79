import JvmCoverage.Coverage.Record
import JvmCoverage.Ordered

/-!
# Registered classes

A `Registry` keeps the record of every class seen, in the order of identities.  The first record
for an identity is kept.
-/

namespace JvmCoverage

/-- The records of classes by identity. -/
structure Registry where
  entries : List (ClassIdentity × ClassRecord) := []
  deriving DecidableEq

namespace Registry

/-- The registry with `record`, unless there is one for its identity. -/
def insert (record : ClassRecord) (registry : Registry) : Registry :=
  ⟨Ordered.insertNew ClassIdentity.precedes record.identity record registry.entries⟩

/-- The record for `identity`. -/
def get? (registry : Registry) (identity : ClassIdentity) : Option ClassRecord :=
  Ordered.lookup identity registry.entries

/-- The records in the order of identities. -/
def records (registry : Registry) : List ClassRecord :=
  registry.entries.map (·.2)

/-- The number of records. -/
def size (registry : Registry) : Nat := registry.entries.length

end Registry

end JvmCoverage
