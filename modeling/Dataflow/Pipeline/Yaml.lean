import Dataflow.Pipeline.Build
import Dataflow.Pipeline.Untyped
import Dataflow.Yaml.Node.Anchors
import Dataflow.Yaml.Node.Reader
import Dataflow.Yaml.Scalar
import Dataflow.Yaml.Token.Lexer

/-!
# Pipeline documents in YAML

The document and its settings are read directly: where a text is wanted there, any scalar will do as
it is written. The steps are read as untyped values first. Entries of the document that are not known
are passed over and may hold anything.

To bound the work, collections may be nested 128 deep, and a document may go from aliases to their
nodes a hundred times for each of its parts.
-/

namespace Dataflow

open Yaml

/-- A computation that follows aliases, and has so many steps left for that. -/
abbrev Reading :=
  StateT Nat Option

namespace Yaml.Document

variable (doc : Document)

/-- How deeply collections may be nested. -/
def depthLimit : Nat :=
  128

/-- How often aliases may be followed. -/
def aliasLimit : Nat :=
  100 * doc.root.size

/-- The node that an alias stands for, and any other node itself. -/
def follow (v : Node Nat) : Reading (Node Nat) := do
  match v with
  | .aliasOf target =>
    match ← get with
    | 0 => failure
    | n + 1 =>
      set n
      doc.anchors.lookup target
  | _ => return v

/-! ## Untyped values -/

/-- A tag that a collection may have. -/
def isKnownTag (p : Properties Nat) : Bool :=
  !(p.tag.map Scalar.isLocalTag).getD false

/-- The untyped value of a node, of which `n` levels may be entered. -/
def untyped : Nat → Node Nat → Reading Untyped
  | n, v => do
    match ← doc.follow v, n with
    | .scalar p style text, _ => Scalar.value? p.tag style text
    | .seq p items, n + 1 =>
      guard (isKnownTag p)
      return .seq (← items.mapM (untyped n))
    | .map p entries, n + 1 =>
      guard (isKnownTag p)
      let entries ← entries.mapM fun (k, v) ↦ do
        let k ← untyped n k
        return (k, ← untyped n v)
      return .map entries
    | _, _ => failure

/-! ## Typed values -/

/-- The text of a scalar, as it is written. -/
def text (v : Node Nat) : Reading String := do
  match ← doc.follow v with
  | .scalar _ _ text => return String.ofList text
  | _ => failure

/-- Whether a node is not written at all, or as an empty plain scalar. -/
def isMissing : Node Nat → Bool
  | .scalar _ style text => style = .plain && text.isEmpty
  | _ => false

/-- The entries of a mapping, with the names of their keys. -/
def entries (v : Node Nat) : Reading (List (String × Node Nat)) := do
  match ← doc.follow v with
  | .map _ entries => entries.mapM fun (k, v) ↦ do return (← doc.text k, v)
  | v => if isMissing v then return [] else failure

/-- The items of a sequence. -/
def items (v : Node Nat) : Reading (List (Node Nat)) := do
  match ← doc.follow v with
  | .seq _ items => return items
  | v => if isMissing v then return [] else failure

/-- Whether a node stands for null. The tag of null demands it. -/
def isNull : Node Nat → Option Bool
  | .scalar p style text =>
    if style ≠ .plain then some false
    else match p.tag with
      | none => some (text.isEmpty || Scalar.isNull text)
      | some tag =>
        if tag = Scalar.coreTag "null" then
          if Scalar.isNull text then some true else none
        else some false
  | _ => some false

/-- A value, or null. -/
def option {α : Type} (f : Node Nat → Reading α) (v : Node Nat) : Reading (Option α) := do
  let v ← doc.follow v
  if ← isNull v then return none else return some (← f v)

/-- A 64-bit word, as a plain scalar or as a literal one with the tag of integers. -/
def word (v : Node Nat) : Reading UInt64 := do
  match ← doc.follow v with
  | .scalar p style text =>
    guard (style = .plain || (style = .literal && p.tag = some (Scalar.coreTag "int")))
    Scalar.word? text
  | _ => failure

/-- A value in a slot that may be empty, or null. -/
def nullable {α : Type} (f : Node Nat → Reading α) : Option (Node Nat) → Reading (Option α)
  | none => return none
  | some v => doc.option f v

/-! ## The parts of a pipeline document -/

/-- The settings of a document. -/
def overrides (v : Node Nat) : Reading Overrides := do
  let [maxIterations, disabledRules] ← Settings.layout.byName? (← doc.entries v) | failure
  return ⟨← doc.nullable doc.word maxIterations,
    ← doc.nullable (fun v ↦ do (← doc.items v).mapM doc.text) disabledRules⟩

/-- An entry of a step as untyped values; the word that says what the step is may be any scalar. -/
def stepEntry (n : Nat) (entry : Node Nat × Node Nat) : Reading (Untyped × Untyped) := do
  let k ← doc.untyped n entry.1
  if Step.isTagKey k then return (k, .text (← doc.text entry.2))
  else return (k, ← doc.untyped n entry.2)

/-- A step as an untyped value, of which `n` levels may be entered. -/
def untypedStep (n : Nat) (v : Node Nat) : Reading Untyped := do
  match ← doc.follow v, n with
  | .map p entries, n + 1 =>
    guard (isKnownTag p)
    return .map (← entries.mapM (doc.stepEntry n))
  | .seq p (tag :: items), n + 1 =>
    guard (isKnownTag p)
    let tag ← doc.text tag
    return .seq (.text tag :: (← items.mapM (doc.untyped n)))
  | _, _ => failure

/-- A step of the document, which lies below its mapping and the sequence of steps. -/
def step (v : Node Nat) : Reading Step := do
  Step.ofUntyped (← doc.untypedStep (depthLimit - 2) v)

/-- The pipeline of the document. -/
def pipeline : Reading Pipeline := do
  let [overrides, some steps] ← Pipeline.layout.byName? (← doc.entries doc.root) | failure
  return ⟨← doc.nullable doc.overrides overrides, ← (← doc.items steps).mapM doc.step⟩

end Yaml.Document

namespace Pipeline

/-- Reads a pipeline document. -/
def ofYaml (text : String) : Option Pipeline := do
  let doc ← Document.ofNode (← Node.ofTokens (← tokens text.toList))
  doc.pipeline.run' doc.aliasLimit

/-- Reads a pipeline document and builds its plan. -/
def planOfYaml (text : String) : Except PipelineError (LogicalPlan × Overrides) :=
  match ofYaml text with
  | none => .error .malformed
  | some p => do return (← p.build, p.overrides.getD .none)

end Pipeline

end Dataflow
