import Dataflow.Expr
import Dataflow.Plan

/-!
# Operators

Loads and streams bring data into a plan: they may declare a schema, they name the function that
makes their output, and they are marked once their columns have been given casts. Filters, joins and
stores carry what they need as text. A for-each owns a small plan of its own, with one generation
fed by inner loads.
-/

namespace Dataflow

/-! ## Parts of operators -/

/-- The place of a file and the function that reads or writes it. -/
structure FileSpec where
  fileName : String
  function : FunctionSpec
deriving DecidableEq, Repr

/-- The text of the function spec that reads the output of a command. -/
structure OutputHandle where
  text : String
deriving DecidableEq, Repr

/-- The handle of a command that names none. -/
def OutputHandle.default : OutputHandle :=
  ⟨"PigStreaming"⟩

/-- A command that data is streamed through. -/
structure Command where
  executable : String
  output : OutputHandle
deriving DecidableEq, Repr

/-! ## The operators of a dataflow -/

/-- Reads a file. -/
structure Load where
  name : Option String
  file : FileSpec
  /-- The schema that the script declares. -/
  declared : Option Schema
  /-- The schema that the loader itself has found. -/
  determined : Option Schema
  castInserted : Bool
deriving DecidableEq, Repr

/-- Adds the schema that the loader has found. It needs a declared schema of the same size. -/
def Load.withDetermined (l : Load) (s : Schema) : Except Error Load :=
  match l.declared with
  | none => .error .determinedWithoutDeclared
  | some d =>
    if d.size = s.size then .ok { l with determined := some s }
    else .error (.determinedSize s.size d.size)

/-- Sends data through a command. -/
structure Stream where
  name : Option String
  command : Command
  declared : Option Schema
  castInserted : Bool
deriving DecidableEq, Repr

/-- Keeps the rows that satisfy a predicate. -/
structure Filter where
  name : Option String
  predicate : String
deriving DecidableEq, Repr

/-- Joins its inputs where the columns of each pair are equal. -/
structure Join where
  name : Option String
  on : List (String × String)
deriving DecidableEq, Repr

/-- Writes a file. -/
structure Store where
  name : Option String
  file : FileSpec
deriving DecidableEq, Repr

/-- Builds rows, one expression for each column. -/
structure Generate where
  outputs : List OutputColumn
  flatten : List Bool
deriving DecidableEq, Repr

/-- A generation with a flag for every column. -/
def Generate.make (outputs : List OutputColumn) (flatten : List Bool) : Except Error Generate :=
  if outputs.length = flatten.length then .ok ⟨outputs, flatten⟩
  else .error (.flattenCount outputs.length flatten.length)

/-- An operator within a for-each. -/
inductive InnerOperator where
  | generate (g : Generate)
  /-- Hands a column of the for-each's input to the generation. -/
  | innerLoad (column : UInt64)
deriving DecidableEq, Repr

/-- The plan within a for-each. -/
abbrev InnerPlan :=
  Plan InnerOperator

/-- Makes a row out of every row. -/
structure ForEach where
  name : Option String
  inner : InnerPlan
deriving DecidableEq

/-- The generation of an inner operator. -/
def InnerOperator.generation? : InnerOperator → Option Generate
  | generate g => some g
  | innerLoad _ => none

/-- The first generation within a for-each. -/
def ForEach.generation? (f : ForEach) : Option Generate :=
  f.inner.operators.entries.findSome? fun (_, op) ↦ op.generation?

/-- A vertex of a dataflow. -/
inductive Operator where
  | load (op : Load)
  | stream (op : Stream)
  | filter (op : Filter)
  | forEach (op : ForEach)
  | join (op : Join)
  | store (op : Store)
deriving DecidableEq

/-- The plan of a dataflow. -/
abbrev LogicalPlan :=
  Plan Operator

/-! ## What operators have in common -/

namespace Operator

/-- The kind of an operator. -/
def kind : Operator → Kind
  | load _ => .load
  | stream _ => .stream
  | filter _ => .filter
  | forEach _ => .forEach
  | join _ => .join
  | store _ => .store

/-- The name that the script gives to the output of an operator. -/
def name : Operator → Option String
  | load op => op.name
  | stream op => op.name
  | filter op => op.name
  | forEach op => op.name
  | join op => op.name
  | store op => op.name

/-- The declared schema. -/
def declared : Operator → Option Schema
  | load op => op.declared
  | stream op => op.declared
  | _ => none

/-- The schema that a loader has found. -/
def determined : Operator → Option Schema
  | load op => op.determined
  | _ => none

/-- Whether the columns of the operator have been given their casts. -/
def isCastInserted : Operator → Bool
  | load op => op.castInserted
  | stream op => op.castInserted
  | _ => false

/-- Marks that the columns of the operator have been given their casts. -/
def markCastInserted : Operator → Except Error Operator
  | load op => .ok (load { op with castInserted := true })
  | stream op => .ok (stream { op with castInserted := true })
  | op => .error (.noCastMarker op.kind)

/-- The function that makes the output of the operator: the loader, or what reads the output of the
command. -/
def outputFunction : Operator → Except Error FunctionSpec
  | load op => .ok op.file.function
  | stream op => FunctionSpec.parse op.command.output.text
  | op => .error (.noOutputSpec op.kind)

end Operator

end Dataflow
