import Dataflow.FunctionSpec
import Dataflow.Json.Decoder
import Dataflow.Json.Printer

/-!
# Function specs as JSON

The member for the arguments is left out when there are none.
-/

namespace Dataflow.FunctionSpec

/-- A function spec as a record. -/
def toJson (f : FunctionSpec) : Json :=
  if f.args.isEmpty then Json.record [("class_name", .ofString f.name)]
  else Json.record
    [("class_name", .ofString f.name), ("args", .ofList .ofString f.args)]

/-- The record of a function spec. -/
def layout : Layout :=
  [("class_name", .required), ("args", .optional)]

/-- Reads a function spec. -/
def ofJson : Json.Decoder FunctionSpec
  | 0, _ => none
  | n + 1, j => do
    let [name, args] ← j.slots? layout | none
    return ⟨← Json.required Json.string n name,
      ← Json.withDefault [] (Json.list Json.string) n args⟩

end Dataflow.FunctionSpec
