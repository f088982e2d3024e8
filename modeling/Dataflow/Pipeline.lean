import Dataflow.Settings

/-!
# Pipeline documents

A pipeline document is a list of steps with settings of its own. A step reads the step before it
unless it gives the names of its inputs; a load reads nothing.
-/

namespace Dataflow

/-- A field as a document declares it: its type is a text in any spelling. -/
structure FieldDecl where
  name : String
  type : String
  members : Option (List FieldDecl)
deriving Repr

/-- A step of a pipeline. -/
inductive Step where
  | load (name : Option String) (source : String) (loader : Option String)
      (schema determined : Option (List FieldDecl))
  | stream (name input : Option String) (command : String) (output : Option String)
      (schema : Option (List FieldDecl))
  | filter (name input : Option String) (predicate : String)
  | join (name : Option String) (inputs : List String) (on : List (String × String))
  | store (name input : Option String) (destination : String) (storer : Option String)
deriving Repr

/-- A pipeline document. -/
structure Pipeline where
  overrides : Option Overrides
  steps : List Step
deriving Repr

/-- The record of a document. -/
def Pipeline.layout : Layout :=
  [("config", .optional), ("steps", .required)]

end Dataflow
