import Dataflow.DataType
import Dataflow.Kind
import Dataflow.OpId

/-!
# Errors

Every way in which building, connecting or transforming a plan can fail, as a cause with the data
that its message names. The wording is in `Error.detail` alone.
-/

namespace Dataflow

/-- What is wrong with the text of a function spec. -/
inductive SpecFault where
  | unterminated
  | unquotedArgument
  | unterminatedArgument
  | unexpected (c : Char)
  | invalidName
deriving DecidableEq, Repr

/-- The words for a fault of a function spec, before the spec itself. -/
def SpecFault.words : SpecFault → String
  | unterminated => "unterminated function spec"
  | unquotedArgument => "function spec arguments must be quoted in"
  | unterminatedArgument => "unterminated argument in function spec"
  | unexpected c => s!"unexpected '{c}' between arguments in function spec"
  | invalidName => "invalid function name in"

/-- Why an operation on plans, schemas or function specs failed. -/
inductive Error where
  /-- The text `text` is no function spec. -/
  | functionSpec (fault : SpecFault) (text : String)
  /-- A cast rule was asked for operators that read no data. -/
  | notIngest (rule : String) (kind : Kind)
  /-- A cast rule was applied to an operator that reads no data. -/
  | unsupportedOperator (rule : String) (id : OpId) (kind : Kind)
  /-- Operators of this kind are never marked as having their casts. -/
  | noCastMarker (kind : Kind)
  /-- Operators of this kind have no function spec for their output. -/
  | noOutputSpec (kind : Kind)
  | unknownType (spelling : String)
  /-- Fields of this type have no members. -/
  | notNestable (type : DataType)
  | noSchema (id : OpId)
  | determinedWithoutDeclared
  | determinedSize (determined declared : Nat)
  | unknownOperator (id : OpId)
  | selfLoop (id : OpId)
  | alreadyConnected (source target : OpId)
  | outputOutOfRange (slot : Nat) (id : OpId) (size : Nat)
  | inputOutOfRange (slot : Nat) (id : OpId) (size : Nat)
  | noEdge (source target : OpId)
  /-- A cast rule needs the only successor of an operator that has `count` of them. -/
  | successorCount (rule : String) (id : OpId) (count : Nat)
  | flattenCount (outputs flags : Nat)
deriving DecidableEq, Repr

namespace Error

/-- The broad classes of errors. -/
inductive Category where
  | config | schema | plan | invariant
deriving DecidableEq, Repr

/-- The words that open every message of a category. -/
def Category.heading : Category → String
  | config => "Invalid configuration"
  | schema => "Schema error"
  | plan => "Planning error"
  | invariant => "Internal invariant failed"

/-- The category of an error. -/
def category : Error → Category
  | functionSpec .. | notIngest .. | unsupportedOperator .. | noCastMarker .. | noOutputSpec .. =>
    .config
  | unknownType .. | notNestable .. | noSchema .. | determinedWithoutDeclared
  | determinedSize .. => .schema
  | unknownOperator .. | selfLoop .. | alreadyConnected .. | outputOutOfRange ..
  | inputOutOfRange .. | noEdge .. | successorCount .. => .plan
  | flattenCount .. => .invariant

/-- The part of a message that names the cause. -/
def detail : Error → String
  | functionSpec fault text => s!"{fault.words} '{text}'"
  | notIngest rule kind => s!"{rule} configured for {kind}, which does not ingest data"
  | unsupportedOperator rule id kind => s!"{rule} invoked on {id}, an unsupported {kind} operator"
  | noCastMarker kind => s!"{kind} operator has no cast-inserted marker"
  | noOutputSpec kind =>
    s!"{kind} operator does not ingest data and has no output function spec"
  | unknownType spelling => s!"unknown type '{spelling}'"
  | notNestable type => s!"type {type} cannot carry a nested schema"
  | noSchema id => s!"{id} has no resolved schema"
  | determinedWithoutDeclared =>
    "determined schema given for a load without declared schema"
  | determinedSize determined declared =>
    s!"determined schema has {determined} fields, declared schema has {declared}"
  | unknownOperator id => s!"unknown operator {id}"
  | selfLoop id => s!"self-loop on {id}"
  | alreadyConnected source target => s!"{source} is already connected to {target}"
  | outputOutOfRange slot id size =>
    s!"output port {slot} out of range for {id} ({size} edges)"
  | inputOutOfRange slot id size => s!"input port {slot} out of range for {id} ({size} edges)"
  | noEdge source target => s!"no edge {source} -> {target}"
  | successorCount rule id count =>
    s!"{rule} requires {id} to have exactly one successor, found {count}"
  | flattenCount outputs flags =>
    s!"generate has {outputs} output expressions but {flags} flatten flags"

/-- The full message of an error. -/
def message (e : Error) : String :=
  s!"{e.category.heading}: {e.detail}"

instance : ToString Error :=
  ⟨message⟩

end Error

end Dataflow
