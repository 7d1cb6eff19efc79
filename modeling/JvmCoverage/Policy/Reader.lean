import JvmCoverage.Document.Tree
import JvmCoverage.Policy.Basic

/-!
# Reading policies

A policy is written as a JSON record.  Fields that are left out keep their defaults and unknown
fields are ignored.  A list with the values of the fields in order stands for the record as
well.
-/

namespace JvmCoverage

/-- The granularity called `name`. -/
def Granularity.named? (name : String) : Option Granularity :=
  if name = basicBlock.name then some basicBlock
  else if name = line.name then some line
  else none

/-- A granularity: its name, or a record with `null` under its name. -/
def Granularity.ofTree? : JsonTree → Option Granularity
  | .text content => content.bind named?
  | .record [(key, .null)] => key.bind named?
  | _ => none

/-- A bridge, of which all fields are needed. -/
def Bridge.ofTree? (tree : JsonTree) : Option Bridge := do
  let fields ← tree.fields? ["owner", "name", "descriptor"]
  let owner ← JsonTree.field? fields "owner" JsonTree.text? none
  let name ← JsonTree.field? fields "name" JsonTree.text? none
  let descriptor ← JsonTree.field? fields "descriptor" JsonTree.text? none
  return { owner, name, descriptor := descriptor }

namespace Policy

/-- The names of the fields, in order. -/
def fieldNames : List String :=
  ["granularity", "excluded_methods", "skip_annotation", "bridge", "self_check"]

/-- A policy. -/
def ofTree? (tree : JsonTree) : Option Policy := do
  let fields ← tree.fields? fieldNames
  let base : Policy := {}
  let granularity ←
    JsonTree.field? fields "granularity" Granularity.ofTree? (some base.granularity)
  let excludedMethods ←
    JsonTree.field? fields "excluded_methods" JsonTree.texts? (some base.excludedMethods)
  let skipAnnotation ←
    JsonTree.field? fields "skip_annotation" JsonTree.optionalText? (some base.skipAnnotation)
  let bridge ← JsonTree.field? fields "bridge" Bridge.ofTree? (some base.bridge)
  let selfCheck ← JsonTree.field? fields "self_check" JsonTree.flag? (some base.selfCheck)
  return { granularity, excludedMethods, skipAnnotation, bridge, selfCheck := selfCheck }

/-- The policy that `source` is the JSON text of. -/
def parse? (source : String) : Option Policy :=
  JsonTree.parse source >>= ofTree?

end Policy

end JvmCoverage
