import Dataflow.Json.Decoder
import Dataflow.Json.Printer
import Dataflow.Schema

/-!
# Types, fields and schemas as JSON

A field is a record of its name, its type and, if it has members, the schema of these.
-/

namespace Dataflow

namespace DataType

/-- A type, given by its name. -/
def toJson (t : DataType) : Json :=
  .ofString t.name

/-- Reads a type by its name; other spellings are refused. -/
def ofJson : Json.Decoder DataType
  | n, j => do ofName? (← Json.keyword n j)

end DataType

namespace Field

mutual

/-- A field as a record. -/
def toJson : Field → Json
  | ⟨name, type, none⟩ =>
    Json.record [("alias", .ofOption .ofString name), ("data_type", type.toJson)]
  | ⟨name, type, some members⟩ =>
    Json.record [("alias", .ofOption .ofString name), ("data_type", type.toJson),
      ("schema", Json.record [("fields", .arr (toJsonEach members))])]

/-- Fields as records. -/
def toJsonEach : List Field → List Json
  | [] => []
  | f :: fs => toJson f :: toJsonEach fs

end

/-- The record of a field. -/
def layout : Layout :=
  [("alias", .nullable), ("data_type", .required), ("schema", .optional)]

/-- The record of a schema. -/
def schemaLayout : Layout :=
  [("fields", .required)]

mutual

/-- Reads a field. -/
def ofJson : Json.Decoder Field
  | 0, _ => none
  | n + 1, j => do
    let [name, type, schema] ← j.slots? layout | none
    return ⟨← Json.nullable Json.string n name, ← Json.required DataType.ofJson n type,
      ← membersOfJson n schema⟩

/-- Reads the members of a field from the slot of their schema, which lie two levels below it. -/
def membersOfJson : Nat → Option Json → Option (Option (List Field))
  | _, none | _, some .null => some none
  | n + 2, some s => do
    let [some (.arr items)] ← s.slots? schemaLayout | none
    return some (← items.mapM (ofJson n))
  | _, _ => none

end

end Field

namespace Schema

/-- A schema as a record of its fields. -/
def toJson (s : Schema) : Json :=
  Json.record [("fields", .ofList Field.toJson s.fields)]

/-- Reads a schema. -/
def ofJson : Json.Decoder Schema
  | 0, _ => none
  | n + 1, j => do
    let [fields] ← j.slots? Field.schemaLayout | none
    return ⟨← Json.required (Json.list Field.ofJson) n fields⟩

end Schema

end Dataflow
