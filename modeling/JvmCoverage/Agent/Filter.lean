/-!
# Which classes are instrumented

A `ClassFilter` accepts the classes whose names begin with one of its prefixes.
-/

namespace JvmCoverage

/-- The beginnings of names of classes to instrument. -/
structure ClassFilter where
  prefixes : List String
  deriving DecidableEq

namespace ClassFilter

/-- The name with slashes between packages. -/
def internalName (name : String) : String :=
  name.map fun c => if c = '.' then '/' else c

/-- The filter for the given beginnings, in which packages may be separated by dots. -/
def of (prefixes : List String) : ClassFilter :=
  ⟨prefixes.map internalName⟩

/-- The filter that accepts every class. -/
def all : ClassFilter := of [""]

/-- Whether the class called `name` is instrumented. -/
def accepts (filter : ClassFilter) (name : String) : Bool :=
  filter.prefixes.any fun p => p.toList.isPrefixOf name.toList

end ClassFilter

end JvmCoverage
