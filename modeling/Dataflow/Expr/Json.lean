import Dataflow.Expr
import Dataflow.FunctionSpec.Json
import Dataflow.Schema.Json

/-!
# Expressions as JSON
-/

namespace Dataflow

namespace Expr

/-- An expression as an object that names its form. -/
def toJson : Expr → Json
  | project input column =>
    Json.record [("Project",
      Json.record [("input", .ofNat input.toNat), ("column", .ofNat column.toNat)])]
  | cast arg target converter =>
    Json.record [("Cast",
      Json.record [("input", arg.toJson), ("to", target.toJson),
        ("func_spec", .ofOption FunctionSpec.toJson converter)])]

/-- The record of a projection. -/
def projectLayout : Layout :=
  [("input", .required), ("column", .required)]

/-- The record of a cast. -/
def castLayout : Layout :=
  [("input", .required), ("to", .required), ("func_spec", .nullable)]

/-- Reads an expression. Its form and its record are two levels. -/
def ofJson : Json.Decoder Expr
  | n + 2, j => do
    match ← j.variant? with
    | ("Project", content) =>
      let [input, column] ← content.slots? projectLayout | none
      return project (← Json.required Json.word n input) (← Json.required Json.word n column)
    | ("Cast", content) =>
      let [some arg, target, converter] ← content.slots? castLayout | none
      return cast (← ofJson n arg) (← Json.required Field.ofJson n target)
        (← Json.nullable FunctionSpec.ofJson n converter)
    | _ => none
  | _, _ => none

end Expr

namespace OutputColumn

/-- An output column as a record of its expression. -/
def toJson (c : OutputColumn) : Json :=
  Json.record [("root", c.root.toJson)]

/-- The record of an output column. -/
def layout : Layout :=
  [("root", .required)]

/-- Reads an output column. -/
def ofJson : Json.Decoder OutputColumn
  | 0, _ => none
  | n + 1, j => do
    let [root] ← j.slots? layout | none
    return ⟨← Json.required Expr.ofJson n root⟩

end OutputColumn

end Dataflow
