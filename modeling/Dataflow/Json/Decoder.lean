import Dataflow.Json.Basic
import Dataflow.Json.Literal
import Dataflow.Record
import Dataflow.Text.Decimal

/-!
# Taking values from JSON trees

A decoder is given how many nested arrays and objects it may still enter, so that only the parts of
a document that are taken count towards the limit.
-/

namespace Dataflow.Json

/-- How deeply the arrays and objects that are read may be nested. -/
def depthLimit : Nat :=
  127

/-- Takes a value from a tree of which so many levels may be entered. -/
abbrev Decoder (α : Type) :=
  Nat → Json → Option α

variable {α : Type}

/-! ## Plain values -/

/-- The text of a body. -/
def text? (body : List Char) : Option String :=
  (decode body).map String.ofList

/-- A string. -/
def string : Decoder String
  | _, str b => text? b
  | _, _ => none

/-- A truth value. -/
def truth : Decoder Bool
  | _, bool b => some b
  | _, _ => none

/-- A 64-bit word, written as digits alone. -/
def word : Decoder UInt64
  | _, num n => Text.Decimal.word? n
  | _, _ => none

/-! ## Compound values -/

/-- A value, or null. -/
def option (d : Decoder α) : Decoder (Option α)
  | _, null => some none
  | n, j => (d n j).map some

/-- A list of values. -/
def list (d : Decoder α) : Decoder (List α)
  | n + 1, arr items => items.mapM (d n)
  | _, _ => none

/-- A list of exactly two values. -/
def pair (d : Decoder α) : Decoder (α × α)
  | n + 1, arr [i, j] => do return (← d n i, ← d n j)
  | _, _ => none

/-- The name of an alternative without data: a string, or an object that gives it null. -/
def keyword : Decoder String
  | _, str b => text? b
  | _ + 1, obj [(k, null)] => text? k
  | _, _ => none

/-- The name and the content of an alternative with data: an object with that one member. -/
def variant? : Json → Option (String × Json)
  | obj [(k, j)] => (text? k).map (·, j)
  | _ => none

/-- The slots of a record, by name from an object or by place from an array. -/
def slots? (fields : Layout) : Json → Option (List (Option Json))
  | obj members => do
    let named ← members.mapM fun (k, j) ↦ (text? k).map (·, j)
    fields.byName? named
  | arr items => fields.byPlace? items
  | _ => none

/-! ## Slots -/

/-- The value of a slot that has to be filled. -/
def required (d : Decoder α) (n : Nat) : Option Json → Option α
  | none => none
  | some j => d n j

/-- The value of a slot that may be empty or null. -/
def nullable (d : Decoder α) (n : Nat) : Option Json → Option (Option α)
  | none => some none
  | some j => option d n j

/-- The value of a slot, or a default when it is empty. -/
def withDefault (a : α) (d : Decoder α) (n : Nat) : Option Json → Option α
  | none => some a
  | some j => d n j

end Dataflow.Json
