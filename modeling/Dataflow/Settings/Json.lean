import Dataflow.Json.Decoder
import Dataflow.Json.Printer
import Dataflow.Settings

/-!
# Settings as JSON

Every member may be left out: settings then have their default and overrides set nothing.
-/

namespace Dataflow

namespace Settings

/-- Settings as a record. -/
def toJson (s : Settings) : Json :=
  Json.record [("max_iterations", .ofNat s.maxIterations.toNat),
    ("disabled_rules", .ofList .ofString s.disabledRules)]

/-- Reads settings. -/
def ofJson : Json.Decoder Settings
  | 0, _ => none
  | n + 1, j => do
    let [maxIterations, disabledRules] ← j.slots? layout | none
    return ⟨← Json.withDefault default.maxIterations Json.word n maxIterations,
      ← Json.withDefault default.disabledRules (Json.list Json.string) n disabledRules⟩

end Settings

namespace Overrides

/-- Overrides as a record; what is not set is written as null. -/
def toJson (o : Overrides) : Json :=
  Json.record [("max_iterations", .ofOption (fun w ↦ .ofNat w.toNat) o.maxIterations),
    ("disabled_rules", .ofOption (.ofList .ofString) o.disabledRules)]

/-- Reads overrides. -/
def ofJson : Json.Decoder Overrides
  | 0, _ => none
  | n + 1, j => do
    let [maxIterations, disabledRules] ← j.slots? Settings.layout | none
    return ⟨← Json.nullable Json.word n maxIterations,
      ← Json.nullable (Json.list Json.string) n disabledRules⟩

end Overrides

end Dataflow
