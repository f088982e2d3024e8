import Dataflow.Pipeline
import Dataflow.Untyped

/-!
# Steps from untyped values

A step is a map with an entry `op` that says what it is, or a sequence that begins with that word.
-/

namespace Dataflow

namespace FieldDecl

/-- The record of a declared field. -/
def layout : Layout :=
  [("name", .required), ("type", .required), ("fields", .optional)]

/-- Reads a declared field whose members go at most `n` levels down. -/
def ofUntypedWithin : Nat → Untyped → Option FieldDecl
  | 0, _ => none
  | n + 1, v => do
    let [name, type, members] ← v.slots? layout | none
    return ⟨← Untyped.required? Untyped.string? name, ← Untyped.required? Untyped.string? type,
      ← Untyped.nullable? (Untyped.list? (ofUntypedWithin n)) members⟩

/-- Reads a declared field. -/
def ofUntyped (v : Untyped) : Option FieldDecl :=
  ofUntypedWithin v.depth v

end FieldDecl

namespace Step

/-! ## The records of the steps -/

/-- The name of the entry that says what a step is. -/
def tagName : String :=
  "op"

/-- The record of a load. -/
def loadLayout : Layout :=
  [("alias", .optional), ("source", .required), ("loader", .optional), ("schema", .optional),
    ("determined_schema", .optional)]

/-- The record of a stream. -/
def streamLayout : Layout :=
  [("alias", .optional), ("input", .optional), ("command", .required), ("output", .optional),
    ("schema", .optional)]

/-- The record of a filter. -/
def filterLayout : Layout :=
  [("alias", .optional), ("input", .optional), ("expr", .required)]

/-- The record of a join. -/
def joinLayout : Layout :=
  [("alias", .optional), ("inputs", .required), ("on", .required)]

/-- The record of a store. -/
def storeLayout : Layout :=
  [("alias", .optional), ("input", .optional), ("destination", .required), ("storer", .optional)]

/-! ## Reading -/

open Untyped in
/-- Reads the record of a step of a given kind. -/
def ofRecord? (tag : String) (record : Untyped) : Option Step :=
  match tag with
  | "load" => do
    let [name, source, loader, schema, determined] ← record.slots? loadLayout | none
    return load (← nullable? string? name) (← required? string? source)
      (← nullable? string? loader) (← nullable? (list? FieldDecl.ofUntyped) schema)
      (← nullable? (list? FieldDecl.ofUntyped) determined)
  | "stream" => do
    let [name, input, command, output, schema] ← record.slots? streamLayout | none
    return stream (← nullable? string? name) (← nullable? string? input)
      (← required? string? command) (← nullable? string? output)
      (← nullable? (list? FieldDecl.ofUntyped) schema)
  | "filter" => do
    let [name, input, predicate] ← record.slots? filterLayout | none
    return filter (← nullable? string? name) (← nullable? string? input)
      (← required? string? predicate)
  | "join" => do
    let [name, inputs, on] ← record.slots? joinLayout | none
    return join (← nullable? string? name) (← required? (list? string?) inputs)
      (← required? (list? (pair? string?)) on)
  | "store" => do
    let [name, input, destination, storer] ← record.slots? storeLayout | none
    return store (← nullable? string? name) (← nullable? string? input)
      (← required? string? destination) (← nullable? string? storer)
  | _ => none

/-- Whether a key is that of the entry that says what a step is. -/
def isTagKey : Untyped → Bool
  | .text s => s = tagName
  | _ => false

/-- Reads a step. -/
def ofUntyped : Untyped → Option Step
  | .map entries =>
    match entries.partition fun e ↦ isTagKey e.1 with
    | ([(_, .text tag)], rest) => ofRecord? tag (.map rest)
    | _ => none
  | .seq (.text tag :: rest) => ofRecord? tag (.seq rest)
  | _ => none

end Step

end Dataflow
