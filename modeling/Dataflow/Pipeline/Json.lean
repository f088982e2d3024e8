import Dataflow.Pipeline.Untyped
import Dataflow.Settings.Json

/-!
# Pipeline documents as JSON

What a document leaves out is written as null.
-/

namespace Dataflow

namespace FieldDecl

mutual

/-- A declared field as a record. -/
def toJson : FieldDecl → Json
  | ⟨name, type, none⟩ =>
    Json.record [("name", .ofString name), ("type", .ofString type), ("fields", .null)]
  | ⟨name, type, some members⟩ =>
    Json.record [("name", .ofString name), ("type", .ofString type),
      ("fields", .arr (toJsonEach members))]

/-- Declared fields as records. -/
def toJsonEach : List FieldDecl → List Json
  | [] => []
  | f :: fs => toJson f :: toJsonEach fs

end

/-- Reads a declared field from a document of its own. -/
def ofJson : Json.Decoder FieldDecl
  | 0, _ => none
  | n + 1, j => do
    let [name, type, members] ← j.slots? layout | none
    let name ← Json.required Json.string n name
    let type ← Json.required Json.string n type
    match members, n with
    | none, _ | some .null, _ => return ⟨name, type, none⟩
    | some (.arr items), m + 1 => return ⟨name, type, ← items.mapM (ofJson m)⟩
    | _, _ => none

end FieldDecl

namespace Step

/-- An optional text. -/
def textToJson : Option String → Json :=
  .ofOption .ofString

/-- An optional list of declared fields. -/
def fieldsToJson : Option (List FieldDecl) → Json :=
  .ofOption (.ofList FieldDecl.toJson)

/-- A pair of columns as a list of two. -/
def keysToJson (p : String × String) : Json :=
  .arr [.ofString p.1, .ofString p.2]

/-- A step as a record, in which the entry that says what it is comes first. -/
def toJson : Step → Json
  | load name source loader schema determined =>
    Json.record [(tagName, .ofString "load"), ("alias", textToJson name),
      ("source", .ofString source), ("loader", textToJson loader),
      ("schema", fieldsToJson schema), ("determined_schema", fieldsToJson determined)]
  | stream name input command output schema =>
    Json.record [(tagName, .ofString "stream"), ("alias", textToJson name),
      ("input", textToJson input), ("command", .ofString command),
      ("output", textToJson output), ("schema", fieldsToJson schema)]
  | filter name input predicate =>
    Json.record [(tagName, .ofString "filter"), ("alias", textToJson name),
      ("input", textToJson input), ("expr", .ofString predicate)]
  | join name inputs on =>
    Json.record [(tagName, .ofString "join"), ("alias", textToJson name),
      ("inputs", .ofList .ofString inputs), ("on", .ofList keysToJson on)]
  | store name input destination storer =>
    Json.record [(tagName, .ofString "store"), ("alias", textToJson name),
      ("input", textToJson input), ("destination", .ofString destination),
      ("storer", textToJson storer)]

/-- Reads a step. -/
def ofJson : Json.Decoder Step
  | n, j => do ofUntyped (← Untyped.ofJson n j)

end Step

namespace Pipeline

/-- A document as a record. -/
def toJson (p : Pipeline) : Json :=
  Json.record [("config", .ofOption Overrides.toJson p.overrides),
    ("steps", .ofList Step.toJson p.steps)]

/-- Reads a document. -/
def ofJson : Json.Decoder Pipeline
  | 0, _ => none
  | n + 1, j => do
    let [overrides, steps] ← j.slots? layout | none
    return ⟨← Json.nullable Overrides.ofJson n overrides,
      ← Json.required (Json.list Step.ofJson) n steps⟩

end Pipeline

end Dataflow
