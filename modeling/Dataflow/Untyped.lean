import Dataflow.Json.Decoder
import Dataflow.Json.Magnitude

/-!
# Untyped values

The steps of a pipeline document are read in two stages, because the member that says what a step is
may stand anywhere in it: first as values that have the type they look like, and then as steps. The
same values come out of JSON and of YAML.
-/

namespace Dataflow

/-- A value with the type it looks like. -/
inductive Untyped where
  | null
  | bool (b : Bool)
  /-- A natural number that fits a 64-bit word. -/
  | word (w : UInt64)
  /-- Any other number. -/
  | number
  | text (s : String)
  | seq (items : List Untyped)
  | map (entries : List (Untyped × Untyped))
deriving Repr, Inhabited

namespace Untyped

mutual

/-- The number of nested sequences and maps among the values; keys do not count. -/
def depth : Untyped → Nat
  | seq items => depthItems items + 1
  | map entries => depthEntries entries + 1
  | _ => 0

/-- The greatest depth of the items. -/
def depthItems : List Untyped → Nat
  | [] => 0
  | v :: vs => max (depth v) (depthItems vs)

/-- The greatest depth of the values. -/
def depthEntries : List (Untyped × Untyped) → Nat
  | [] => 0
  | (_, v) :: es => max (depth v) (depthEntries es)

end

/-! ## From JSON -/

/-- The value of a number. -/
def ofNumeral? (numeral : List Char) : Option Untyped :=
  match Text.Decimal.word? numeral with
  | some w => some (word w)
  | none => if Json.isTooLarge numeral then none else some number

/-- The value of a tree. All of it counts towards the nesting. -/
def ofJson : Json.Decoder Untyped
  | _, .null => some null
  | _, .bool b => some (bool b)
  | _, .num n => ofNumeral? n
  | _, .str b => (Json.text? b).map text
  | n + 1, .arr items => (items.mapM (ofJson n)).map seq
  | n + 1, .obj members =>
    (members.mapM fun (k, j) ↦ do return (text (← Json.text? k), ← ofJson n j)).map map
  | 0, _ => none

/-! ## Taking values -/

variable {α : Type}

/-- A text. -/
def string? : Untyped → Option String
  | text s => some s
  | _ => none

/-- A value, or null. -/
def option? (f : Untyped → Option α) : Untyped → Option (Option α)
  | null => some none
  | v => (f v).map some

/-- A list of values. -/
def list? (f : Untyped → Option α) : Untyped → Option (List α)
  | seq items => items.mapM f
  | _ => none

/-- A list of exactly two values. -/
def pair? (f : Untyped → Option α) : Untyped → Option (α × α)
  | seq [v, w] => do return (← f v, ← f w)
  | _ => none

/-- The field that a key stands for: a text names it, and a word gives its place. A name that no
field has is passed over, and so is a place beyond the last. -/
def fieldName? (fields : Layout) : Untyped → Option String
  | text s => some s
  | word w => some ((fields[w.toNat]?.map (·.1)).getD "")
  | _ => none

/-- The slots of a record among named entries. -/
def slotsByName? (fields : Layout) (entries : List (Untyped × Untyped)) :
    Option (List (Option Untyped)) := do
  let named ← entries.mapM fun (k, v) ↦ (fieldName? fields k).map (·, v)
  fields.byName? named

/-- The slots of a record, by name from a map or by place from a sequence. -/
def slots? (fields : Layout) : Untyped → Option (List (Option Untyped))
  | map entries => slotsByName? fields entries
  | seq items => fields.byPlace? items
  | _ => none

/-- The value of a slot that has to be filled. -/
def required? (f : Untyped → Option α) : Option Untyped → Option α
  | none => none
  | some v => f v

/-- The value of a slot that may be empty or null. -/
def nullable? (f : Untyped → Option α) : Option Untyped → Option (Option α)
  | none => some none
  | some v => option? f v

end Untyped

end Dataflow
