import Dataflow.Operator

/-!
# Listings of plans

A plan is listed with one line for every operator, in ascending order. Below the line of an operator
stand the columns that it generates, if it is a for-each, and then the edges that leave it.
-/

namespace Dataflow

/-- A schema after a word, when there is one. -/
def schemaText (word : String) : Option Schema → String
  | none => ""
  | some s => s!" {word} {s}"

/-- The note on operators whose columns have been given their casts. -/
def castNote (castInserted : Bool) : String :=
  if castInserted then " [casts inserted]" else ""

/-- The function that reads a command's output, or the text that should name it. -/
def OutputHandle.describe (h : OutputHandle) : String :=
  match FunctionSpec.parse h.text with
  | .ok f => f.render
  | .error _ => h.text

/-- The details of an operator, as its line gives them. -/
def Operator.describe : Operator → String
  | load op =>
    s!"'{op.file.fileName}' using {op.file.function}" ++ schemaText "as" op.declared ++
      schemaText "determined" op.determined ++ castNote op.castInserted
  | stream op =>
    s!"through `{op.command.executable}` output {op.command.output.describe}" ++
      schemaText "as" op.declared ++ castNote op.castInserted
  | filter op => s!"by {op.predicate}"
  | forEach op => s!"generate {(op.generation?.map (·.outputs.length)).getD 0} column(s)"
  | join op => "on " ++ String.intercalate ", " (op.on.map fun (l, r) ↦ s!"{l} = {r}")
  | store op => s!"into '{op.file.fileName}' using {op.file.function}"

/-- The columns that an operator generates. -/
def Operator.outputs : Operator → List OutputColumn
  | forEach op => (op.generation?.map (·.outputs)).getD []
  | _ => []

namespace Plan

/-- The line of an operator. -/
def operatorLine (id : OpId) (op : Operator) : String :=
  let name := match op.name with
    | none => ""
    | some a => s!" {a}"
  s!"{id} {op.kind}{name}: {op.describe}\n"

/-- The line of a generated column. -/
def columnLine (i : Nat) (c : OutputColumn) : String :=
  s!"    [{i}] {c}\n"

/-- The line of an edge below its source. -/
def edgeLine (e : Edge) : String :=
  s!"  -> {e.target} (out {e.outSlot}, in {e.inSlot})\n"

/-- The edges that leave an operator and are known at both ends. -/
def listedEdges {α : Type} (p : Plan α) (id : OpId) : List Edge :=
  (p.successors id).filterMap (p.edge? id)

/-- The lines of an operator. -/
def explainOperator (p : LogicalPlan) (id : OpId) (op : Operator) : List String :=
  operatorLine id op :: (op.outputs.mapIdx columnLine ++ (p.listedEdges id).map edgeLine)

/-- The lines of a plan. -/
def explainLines (p : LogicalPlan) : List String :=
  p.operators.entries.flatMap fun (id, op) ↦ explainOperator p id op

/-- The listing of a plan. -/
def explain (p : LogicalPlan) : String :=
  String.join p.explainLines

end Plan

end Dataflow
