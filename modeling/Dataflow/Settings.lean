import Dataflow.Record
import Dataflow.Text.Blank
import Dataflow.Text.Decimal

/-!
# Settings

How often the rules are run at most, and which of them are left out. Settings come in layers: the
environment, a pipeline document, a command line. Each layer overrides what it sets.
-/

namespace Dataflow

/-- The settings of an optimizer. -/
structure Settings where
  /-- How many passes over the rules are made at most. -/
  maxIterations : UInt64
  /-- The names of the rules that are left out. -/
  disabledRules : List String
deriving DecidableEq, Repr

/-- A layer of settings: what it does not set it leaves as it is. -/
structure Overrides where
  maxIterations : Option UInt64
  disabledRules : Option (List String)
deriving DecidableEq, Repr

/-- The layer that sets nothing. -/
def Overrides.none : Overrides :=
  ⟨.none, .none⟩

namespace Settings

/-- A hundred passes, and no rule left out. -/
def default : Settings :=
  ⟨100, []⟩

/-- The record of settings, and of a layer of settings. -/
def layout : Layout :=
  [("max_iterations", .optional), ("disabled_rules", .optional)]

/-- Whether a rule is left out. -/
def isDisabled (s : Settings) (rule : String) : Bool :=
  s.disabledRules.contains rule

/-- The settings under a further layer. -/
def override (s : Settings) (o : Overrides) : Settings :=
  ⟨o.maxIterations.getD s.maxIterations, o.disabledRules.getD s.disabledRules⟩

/-! ## The environment -/

/-- The pieces of a text between its commas. -/
def pieces : List Char → List (List Char)
  | [] => [[]]
  | c :: s =>
    if c = ',' then [] :: pieces s
    else match pieces s with
      | [] => [[c]]
      | p :: ps => (c :: p) :: ps

/-- The names in a list with commas, without the blanks around them; empty names do not count. -/
def names (text : String) : List String :=
  (((pieces text.toList).map Text.trim).filter (fun p ↦ !p.isEmpty)).map String.ofList

/-- The variable for the number of passes. -/
def maxIterationsVariable : String :=
  "FLOWPLAN_MAX_ITERATIONS"

/-- The variable for the rules that are left out. -/
def disabledRulesVariable : String :=
  "FLOWPLAN_DISABLED_RULES"

/-- The layer that an environment sets. A text that is no number sets no number of passes. -/
def environmentLayer (lookup : String → Option String) : Overrides where
  maxIterations := (lookup maxIterationsVariable).bind fun text ↦
    Text.Decimal.signedWord? (Text.trim text.toList)
  disabledRules := (lookup disabledRulesVariable).map names

/-- The settings in an environment. -/
def ofEnvironment (lookup : String → Option String) : Settings :=
  default.override (environmentLayer lookup)

end Settings

end Dataflow
