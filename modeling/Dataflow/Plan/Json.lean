import Dataflow.Json.Decoder
import Dataflow.Json.Printer
import Dataflow.Plan

/-!
# Plans as JSON

Tables are objects whose keys are identifiers in decimal. Reading checks the form alone: the two lists
of neighbours need not agree, and the next identifier may be in use.
-/

namespace Dataflow

namespace OpId

/-- An identifier as a number. -/
def toJson (i : OpId) : Json :=
  .ofNat i.toNat

/-- Reads an identifier. -/
def ofJson : Json.Decoder OpId
  | n, j => (Json.word n j).map OpId.mk

/-- The key of an identifier. -/
def toKey (i : OpId) : List Char :=
  Text.Decimal.digits i.toNat

/-- Reads a key, which has to be a numeral without escapes. -/
def ofKey? (body : List Char) : Option OpId :=
  if Json.isNumeral body then (Text.Decimal.word? body).map OpId.mk else none

end OpId

namespace Edge

/-- An edge as a record. -/
def toJson (e : Edge) : Json :=
  Json.record [("from", e.source.toJson), ("to", e.target.toJson),
    ("from_port", .ofNat e.outSlot), ("to_port", .ofNat e.inSlot)]

/-- The record of an edge. -/
def layout : Layout :=
  [("from", .required), ("to", .required), ("from_port", .required), ("to_port", .required)]

/-- Reads an edge. -/
def ofJson : Json.Decoder Edge
  | 0, _ => none
  | n + 1, j => do
    let [source, target, outSlot, inSlot] ← j.slots? layout | none
    return ⟨← Json.required OpId.ofJson n source, ← Json.required OpId.ofJson n target,
      (← Json.required Json.word n outSlot).toNat, (← Json.required Json.word n inSlot).toNat⟩

end Edge

namespace IdTable

variable {α : Type}

/-- A table as an object. -/
def toJson (f : α → Json) (t : IdTable α) : Json :=
  .obj (t.entries.map fun (k, a) ↦ (k.toKey, f a))

/-- Reads a table; of two entries with one key the later counts. -/
def ofJson (d : Json.Decoder α) : Json.Decoder (IdTable α)
  | n + 1, .obj members => do
    let entries ← members.mapM fun (k, j) ↦ do return (← OpId.ofKey? k, ← d n j)
    return ofList entries
  | _, _ => none

end IdTable

namespace Plan

variable {α : Type}

/-- A plan as a record, given how operators are written. -/
def toJson (f : α → Json) (p : Plan α) : Json :=
  Json.record [
    ("nodes", p.operators.toJson f),
    ("successors", p.outgoing.toJson (.ofList OpId.toJson)),
    ("predecessors", p.incoming.toJson (.ofList OpId.toJson)),
    ("next_id", p.nextId.toJson)]

/-- The record of a plan. -/
def layout : Layout :=
  [("nodes", .required), ("successors", .required), ("predecessors", .required),
    ("next_id", .required)]

/-- Reads a plan, given how operators are read. -/
def ofJson (d : Json.Decoder α) : Json.Decoder (Plan α)
  | 0, _ => none
  | n + 1, j => do
    let [operators, outgoing, incoming, nextId] ← j.slots? layout | none
    return ⟨← Json.required (IdTable.ofJson d) n operators,
      ← Json.required (IdTable.ofJson (Json.list OpId.ofJson)) n outgoing,
      ← Json.required (IdTable.ofJson (Json.list OpId.ofJson)) n incoming,
      ← Json.required OpId.ofJson n nextId⟩

end Plan

end Dataflow
