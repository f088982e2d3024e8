import Dataflow.Operator
import Dataflow.Pipeline

/-!
# The plan of a pipeline

The steps of a document become operators, numbered from 1 in the order of the steps. Each is connected
to the operators that it reads: those named as its inputs, in the order in which they are listed, or
the one before it.
-/

namespace Dataflow

/-- What is wrong with the way in which a document's steps fit together. -/
inductive WiringFault where
  /-- There are no steps. -/
  | empty
  | unknownName (reader name : String)
  /-- The first step reads something. -/
  | noInput (reader : String)
  | tooFewInputs (count : Nat)
  | nameTwice (name : String)
deriving DecidableEq, Repr

/-- The words for a wiring fault. -/
def WiringFault.detail : WiringFault → String
  | empty => "empty pipeline"
  | unknownName reader name => s!"{reader} reads unknown alias '{name}'"
  | noInput reader => s!"{reader} has no input; start the pipeline with 'load'"
  | tooFewInputs count => s!"join needs at least two inputs, got {count}"
  | nameTwice name => s!"alias '{name}' defined twice"

/-- Why a text gives no plan. -/
inductive PipelineError where
  /-- The text is no document. -/
  | malformed
  | wiring (fault : WiringFault)
  | model (error : Error)
deriving DecidableEq, Repr

/-- The message of an error. -/
def PipelineError.message : PipelineError → String
  | malformed => "YAML parse error"
  | wiring fault => s!"invalid pipeline: {fault.detail}"
  | model error => error.message

/-! ## Declared fields -/

namespace FieldDecl

mutual

/-- The field that a declaration declares. A fault of its type comes before faults of its members. -/
def toField : FieldDecl → Except Error Field
  | ⟨name, type, none⟩ => do
    return .named name (← DataType.parse type)
  | ⟨name, type, some members⟩ => do
    let type ← DataType.parse type
    let members ← toFields members
    Field.nested name type members

/-- The fields that declarations declare. -/
def toFields : List FieldDecl → Except Error (List Field)
  | [] => return []
  | d :: ds => do
    let f ← toField d
    let fs ← toFields ds
    return f :: fs

end

/-- The schema of a list of declarations. -/
def toSchema (ds : List FieldDecl) : Except Error Schema :=
  Schema.mk <$> toFields ds

/-- The schema of a list of declarations, if there is one. -/
def toSchema? : Option (List FieldDecl) → Except Error (Option Schema)
  | none => .ok none
  | some ds => some <$> toSchema ds

end FieldDecl

/-! ## Steps as operators -/

/-- The function that reads and writes files unless another is named. -/
def defaultFunction : String :=
  "PigStorage"

/-- The file at a place, with the function that is named or the default one. -/
def FileSpec.parse (fileName : String) (function : Option String) : Except Error FileSpec := do
  return ⟨fileName, ← FunctionSpec.parse (function.getD defaultFunction)⟩

/-- A load. -/
def Load.make (name : Option String) (source : String) (loader : Option String)
    (schema determined : Option (List FieldDecl)) : Except Error Load := do
  let file ← FileSpec.parse source loader
  let declared ← FieldDecl.toSchema? schema
  let load : Load := ⟨name, file, declared, none, false⟩
  match ← FieldDecl.toSchema? determined with
  | none => return load
  | some s => load.withDetermined s

/-- A stream. The function that reads its output is not looked at. -/
def Stream.make (name : Option String) (command : String) (output : Option String)
    (schema : Option (List FieldDecl)) : Except Error Stream := do
  let handle := (output.map OutputHandle.mk).getD .default
  return ⟨name, ⟨command, handle⟩, ← FieldDecl.toSchema? schema, false⟩

/-! ## Wiring -/

/-- What has been built from the steps so far. -/
structure Wiring where
  plan : LogicalPlan
  /-- The names that have been given, with what they stand for. -/
  names : List (String × OpId)
  /-- The operator of the step before. -/
  current : Option OpId

namespace Wiring

/-- Nothing has been built. -/
def empty : Wiring :=
  ⟨.empty, [], none⟩

/-- The operator with a name. -/
def named (w : Wiring) (reader name : String) : Except PipelineError OpId :=
  match w.names.lookup name with
  | some id => .ok id
  | none => .error (.wiring (.unknownName reader name))

/-- The operator that a step reads: the one it names, or else the one before it. -/
def input (w : Wiring) (reader : String) : Option String → Except PipelineError OpId
  | some name => w.named reader name
  | none =>
    match w.current with
    | some id => .ok id
    | none => .error (.wiring (.noInput reader))

/-- Notes the name of an operator, which has to be new. -/
def define (w : Wiring) (id : OpId) : Option String → Except PipelineError Wiring
  | none => .ok w
  | some name =>
    match w.names.lookup name with
    | some _ => .error (.wiring (.nameTwice name))
    | none => .ok { w with names := (name, id) :: w.names }

/-- Connects operators to one that reads them, in the order of its input slots. -/
def connectAll (p : LogicalPlan) (inputs : List OpId) (reader : OpId) : Except Error LogicalPlan :=
  inputs.foldlM (fun p input ↦ p.connect input reader) p

/-- Adds an operator that reads others, in the order of its input slots. -/
def push (w : Wiring) (op : Operator) (inputs : List OpId) : Except PipelineError Wiring := do
  let (id, plan) := w.plan.add op
  let plan ← (connectAll plan inputs id).mapError .model
  let w ← ({ w with plan := plan } : Wiring).define id op.name
  return { w with current := some id }

/-- Adds the operator of a step. -/
def addStep (w : Wiring) : Step → Except PipelineError Wiring
  | .load name source loader schema determined => do
    let op ← (Load.make name source loader schema determined).mapError .model
    w.push (.load op) []
  | .stream name input command output schema => do
    let source ← w.input "stream" input
    let op ← (Stream.make name command output schema).mapError .model
    w.push (.stream op) [source]
  | .filter name input predicate => do
    let source ← w.input "filter" input
    w.push (.filter ⟨name, predicate⟩) [source]
  | .join name inputs on => do
    if inputs.length < 2 then .error (.wiring (.tooFewInputs inputs.length))
    else
      let sources ← inputs.mapM (w.named "join")
      w.push (.join ⟨name, on⟩) sources
  | .store name input destination storer => do
    let source ← w.input "store" input
    let file ← (FileSpec.parse destination storer).mapError .model
    w.push (.store ⟨name, file⟩) [source]

end Wiring

/-- The plan that a document describes. -/
def Pipeline.build (p : Pipeline) : Except PipelineError LogicalPlan :=
  if p.steps.isEmpty then .error (.wiring .empty)
  else Wiring.plan <$> p.steps.foldlM Wiring.addStep .empty

end Dataflow
