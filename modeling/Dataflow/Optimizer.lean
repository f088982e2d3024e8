import Dataflow.CastRule
import Dataflow.Settings

/-!
# Running rules to a fixed point

A pass tries the enabled rules in order. For each rule it takes the operators that match the rule's
pattern when its turn begins, and applies the rule to those that pass the rule's test at their own
turn. Passes are repeated until one of them applies nothing or the number of passes is used up. The
first error ends the run; what was done before it stays done.
-/

namespace Dataflow

/-- A rule that was applied, to which operator, and the operators that it touched. -/
structure Application where
  rule : String
  node : OpId
  touched : List OpId
deriving DecidableEq, Repr

/-- What a run has done. -/
structure Summary where
  iterations : Nat
  applications : List Application
  /-- Whether the last pass applied nothing. -/
  reachedFixedPoint : Bool
deriving DecidableEq, Repr

namespace Rule

/-- Applies the rule to one operator, if it passes the test. -/
def visit (r : Rule) (id : OpId) : Edit (List Application) := do
  if r.applies (← get) id then
    let touched ← r.apply id
    return [⟨r.name, id, touched⟩]
  else return []

/-- Applies the rule to operators, one after the other. -/
def visitAll (r : Rule) : List OpId → Edit (List Application)
  | [] => return []
  | id :: ids => do
    let done ← r.visit id
    let rest ← r.visitAll ids
    return done ++ rest

/-- Applies the rule to the operators that match its pattern now. -/
def run (r : Rule) : Edit (List Application) := do
  r.visitAll (r.pattern.candidates (← get))

/-- Runs rules, one after the other. -/
def runAll : List Rule → Edit (List Application)
  | [] => return []
  | r :: rs => do
    let done ← r.run
    let rest ← runAll rs
    return done ++ rest

/-- Makes at most so many passes over rules. -/
def iterate (rs : List Rule) : Nat → Edit Summary
  | 0 => return ⟨0, [], false⟩
  | n + 1 => do
    let done ← runAll rs
    if done.isEmpty then return ⟨1, [], true⟩
    else
      let rest ← iterate rs n
      return { rest with
        iterations := rest.iterations + 1
        applications := done ++ rest.applications }

end Rule

/-- Rules and the settings under which they are run. -/
structure Optimizer where
  rules : List Rule
  settings : Settings

namespace Optimizer

/-- The optimizer with the rules that are used unless others are given. -/
def withDefaultRules (s : Settings) : Optimizer :=
  ⟨CastRule.defaults.map CastRule.toRule, s⟩

/-- The optimizer under the default settings. -/
def default : Optimizer :=
  withDefaultRules .default

/-- The names of the rules, whether enabled or not. -/
def ruleNames (o : Optimizer) : List String :=
  o.rules.map Rule.name

/-- The rules that are not left out. -/
def enabled (o : Optimizer) : List Rule :=
  o.rules.filter fun r ↦ !o.settings.isDisabled r.name

/-- Runs the enabled rules to a fixed point, or as often as the settings allow. -/
def run (o : Optimizer) : Edit Summary :=
  Rule.iterate o.enabled o.settings.maxIterations.toNat

/-- Runs the enabled rules on a plan: what was done, and the plan that is left. -/
def optimize (o : Optimizer) (p : LogicalPlan) : Except Error Summary × LogicalPlan :=
  o.run.perform p

end Optimizer

end Dataflow
