import Dataflow.Expr.Json
import Dataflow.Operator
import Dataflow.Plan.Json

/-!
# Operators as JSON

Every operator is an object that names its kind and holds the record of its data.
-/

namespace Dataflow

namespace Kind

/-- A kind, given by its keyword. -/
def toJson (k : Kind) : Json :=
  .ofString k.keyword

/-- Reads a kind. -/
def ofJson : Json.Decoder Kind
  | n, j => do ofKeyword? (← Json.keyword n j)

end Kind

/-! ## Parts of operators -/

namespace FileSpec

/-- A file specification as a record. -/
def toJson (f : FileSpec) : Json :=
  Json.record [("file_name", .ofString f.fileName), ("func_spec", f.function.toJson)]

/-- The record of a file specification. -/
def layout : Layout :=
  [("file_name", .required), ("func_spec", .required)]

/-- Reads a file specification. -/
def ofJson : Json.Decoder FileSpec
  | 0, _ => none
  | n + 1, j => do
    let [fileName, function] ← j.slots? layout | none
    return ⟨← Json.required Json.string n fileName,
      ← Json.required FunctionSpec.ofJson n function⟩

end FileSpec

namespace OutputHandle

/-- A handle as a record. -/
def toJson (h : OutputHandle) : Json :=
  Json.record [("spec", .ofString h.text)]

/-- The record of a handle. -/
def layout : Layout :=
  [("spec", .required)]

/-- Reads a handle. -/
def ofJson : Json.Decoder OutputHandle
  | 0, _ => none
  | n + 1, j => do
    let [text] ← j.slots? layout | none
    return ⟨← Json.required Json.string n text⟩

end OutputHandle

namespace Command

/-- A command as a record. -/
def toJson (c : Command) : Json :=
  Json.record [("executable", .ofString c.executable), ("output_spec", c.output.toJson)]

/-- The record of a command. -/
def layout : Layout :=
  [("executable", .required), ("output_spec", .required)]

/-- Reads a command. -/
def ofJson : Json.Decoder Command
  | 0, _ => none
  | n + 1, j => do
    let [executable, output] ← j.slots? layout | none
    return ⟨← Json.required Json.string n executable,
      ← Json.required OutputHandle.ofJson n output⟩

end Command

/-! ## The operators of a dataflow -/

namespace Load

/-- A load as a record. -/
def toJson (l : Load) : Json :=
  Json.record [
    ("alias", .ofOption .ofString l.name),
    ("file_spec", l.file.toJson),
    ("schema", .ofOption Schema.toJson l.declared),
    ("determined_schema", .ofOption Schema.toJson l.determined),
    ("cast_inserted", .bool l.castInserted)]

/-- The record of a load. -/
def layout : Layout :=
  [("alias", .nullable), ("file_spec", .required), ("schema", .nullable),
    ("determined_schema", .nullable), ("cast_inserted", .required)]

/-- Reads a load. -/
def ofJson : Json.Decoder Load
  | 0, _ => none
  | n + 1, j => do
    let [name, file, declared, determined, castInserted] ← j.slots? layout | none
    return ⟨← Json.nullable Json.string n name, ← Json.required FileSpec.ofJson n file,
      ← Json.nullable Schema.ofJson n declared, ← Json.nullable Schema.ofJson n determined,
      ← Json.required Json.truth n castInserted⟩

end Load

namespace Stream

/-- A stream as a record. -/
def toJson (s : Stream) : Json :=
  Json.record [
    ("alias", .ofOption .ofString s.name),
    ("command", s.command.toJson),
    ("schema", .ofOption Schema.toJson s.declared),
    ("cast_inserted", .bool s.castInserted)]

/-- The record of a stream. -/
def layout : Layout :=
  [("alias", .nullable), ("command", .required), ("schema", .nullable),
    ("cast_inserted", .required)]

/-- Reads a stream. -/
def ofJson : Json.Decoder Stream
  | 0, _ => none
  | n + 1, j => do
    let [name, command, declared, castInserted] ← j.slots? layout | none
    return ⟨← Json.nullable Json.string n name, ← Json.required Command.ofJson n command,
      ← Json.nullable Schema.ofJson n declared, ← Json.required Json.truth n castInserted⟩

end Stream

namespace Filter

/-- A filter as a record. -/
def toJson (f : Filter) : Json :=
  Json.record [("alias", .ofOption .ofString f.name), ("predicate", .ofString f.predicate)]

/-- The record of a filter. -/
def layout : Layout :=
  [("alias", .nullable), ("predicate", .required)]

/-- Reads a filter. -/
def ofJson : Json.Decoder Filter
  | 0, _ => none
  | n + 1, j => do
    let [name, predicate] ← j.slots? layout | none
    return ⟨← Json.nullable Json.string n name, ← Json.required Json.string n predicate⟩

end Filter

namespace Join

/-- A pair of columns as a list of two. -/
def pairToJson (p : String × String) : Json :=
  .arr [.ofString p.1, .ofString p.2]

/-- A join as a record. -/
def toJson (op : Join) : Json :=
  Json.record [("alias", .ofOption .ofString op.name), ("on", .ofList pairToJson op.on)]

/-- The record of a join. -/
def layout : Layout :=
  [("alias", .nullable), ("on", .required)]

/-- Reads a join. -/
def ofJson : Json.Decoder Join
  | 0, _ => none
  | n + 1, j => do
    let [name, on] ← j.slots? layout | none
    return ⟨← Json.nullable Json.string n name,
      ← Json.required (Json.list (Json.pair Json.string)) n on⟩

end Join

namespace Store

/-- A store as a record. -/
def toJson (s : Store) : Json :=
  Json.record [("alias", .ofOption .ofString s.name), ("file_spec", s.file.toJson)]

/-- The record of a store. -/
def layout : Layout :=
  [("alias", .nullable), ("file_spec", .required)]

/-- Reads a store. -/
def ofJson : Json.Decoder Store
  | 0, _ => none
  | n + 1, j => do
    let [name, file] ← j.slots? layout | none
    return ⟨← Json.nullable Json.string n name, ← Json.required FileSpec.ofJson n file⟩

end Store

namespace Generate

/-- A generation as a record. -/
def toJson (g : Generate) : Json :=
  Json.record [("outputs", .ofList OutputColumn.toJson g.outputs),
    ("flatten", .ofList .bool g.flatten)]

/-- The record of a generation. -/
def layout : Layout :=
  [("outputs", .required), ("flatten", .required)]

/-- Reads a generation. The two lists may differ in length. -/
def ofJson : Json.Decoder Generate
  | 0, _ => none
  | n + 1, j => do
    let [outputs, flatten] ← j.slots? layout | none
    return ⟨← Json.required (Json.list OutputColumn.ofJson) n outputs,
      ← Json.required (Json.list Json.truth) n flatten⟩

end Generate

namespace InnerOperator

/-- An inner operator as an object that names its form. -/
def toJson : InnerOperator → Json
  | generate g => Json.record [("Generate", g.toJson)]
  | innerLoad column =>
    Json.record [("InnerLoad", Json.record [("column", .ofNat column.toNat)])]

/-- The record of an inner load. -/
def loadLayout : Layout :=
  [("column", .required)]

/-- Reads an inner operator. -/
def ofJson : Json.Decoder InnerOperator
  | n + 2, j => do
    match ← j.variant? with
    | ("Generate", content) => return generate (← Generate.ofJson (n + 1) content)
    | ("InnerLoad", content) =>
      let [column] ← content.slots? loadLayout | none
      return innerLoad (← Json.required Json.word n column)
    | _ => none
  | _, _ => none

end InnerOperator

namespace ForEach

/-- A for-each as a record. -/
def toJson (f : ForEach) : Json :=
  Json.record [("alias", .ofOption .ofString f.name),
    ("inner_plan", f.inner.toJson InnerOperator.toJson)]

/-- The record of a for-each. -/
def layout : Layout :=
  [("alias", .nullable), ("inner_plan", .required)]

/-- Reads a for-each. -/
def ofJson : Json.Decoder ForEach
  | 0, _ => none
  | n + 1, j => do
    let [name, inner] ← j.slots? layout | none
    return ⟨← Json.nullable Json.string n name,
      ← Json.required (Plan.ofJson InnerOperator.ofJson) n inner⟩

end ForEach

namespace Operator

/-- An operator as an object that names its kind. -/
def toJson : Operator → Json
  | load op => Json.record [("Load", op.toJson)]
  | stream op => Json.record [("Stream", op.toJson)]
  | filter op => Json.record [("Filter", op.toJson)]
  | forEach op => Json.record [("ForEach", op.toJson)]
  | join op => Json.record [("Join", op.toJson)]
  | store op => Json.record [("Store", op.toJson)]

/-- Reads an operator. -/
def ofJson : Json.Decoder Operator
  | 0, _ => none
  | n + 1, j => do
    match ← j.variant? with
    | ("Load", content) => return load (← Load.ofJson n content)
    | ("Stream", content) => return stream (← Stream.ofJson n content)
    | ("Filter", content) => return filter (← Filter.ofJson n content)
    | ("ForEach", content) => return forEach (← ForEach.ofJson n content)
    | ("Join", content) => return join (← Join.ofJson n content)
    | ("Store", content) => return store (← Store.ofJson n content)
    | _ => none

end Operator

namespace LogicalPlan

/-- The plan of a dataflow as a record. -/
def toJson (p : LogicalPlan) : Json :=
  Plan.toJson Operator.toJson p

/-- Reads the plan of a dataflow. -/
def ofJson : Json.Decoder LogicalPlan :=
  Plan.ofJson Operator.ofJson

end LogicalPlan

end Dataflow
