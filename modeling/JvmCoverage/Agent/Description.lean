import JvmCoverage.Agent.Basic
import JvmCoverage.Text.Visible

/-!
# Describing an agent

The one-line description of an agent for logs: its policy, and how much it has seen.
-/

namespace JvmCoverage

open Text.Visible (quoted)

/-- A name with its fields in braces. -/
def describeFields (name : String) (fields : List String) : String :=
  name ++ " \x7b " ++ String.intercalate ", " fields ++ " \x7d"

/-- The description of a granularity. -/
def Granularity.description : Granularity → String
  | basicBlock => "BasicBlock"
  | line => "Line"

/-- The description of a bridge. -/
def Bridge.description (b : Bridge) : String :=
  describeFields "ProbeBridge"
    ["owner: " ++ quoted b.owner, "name: " ++ quoted b.name, "descriptor: " ++ quoted b.descriptor]

/-- The description of a policy. -/
def Policy.description (p : Policy) : String :=
  let skip := match p.skipAnnotation with
    | some type => "Some(" ++ quoted type ++ ")"
    | none => "None"
  describeFields "InstrumentConfig"
    ["granularity: " ++ p.granularity.description,
      "excluded_methods: [" ++ String.intercalate ", " (p.excludedMethods.map quoted) ++ "]",
      "skip_annotation: " ++ skip, "bridge: " ++ p.bridge.description,
      "self_check: " ++ (if p.selfCheck then "true" else "false")]

/-- The description of an agent. -/
def Agent.description (agent : Agent) : String :=
  describeFields "CoverageAgent"
    ["config: " ++ agent.policy.description, "classes: " ++ toString agent.registry.size,
      "segments: " ++ toString agent.store.size, ".."]

end JvmCoverage
