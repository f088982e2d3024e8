import Dataflow.Operator

/-!
# Patterns

A pattern describes the operators that a rule may apply to, by their kind alone.
-/

namespace Dataflow

/-- A class of operators. -/
inductive Pattern where
  | kind (k : Kind)
  /-- The operators that read data from outside the plan. -/
  | ingest
  | any
deriving DecidableEq, Repr

namespace Pattern

/-- Whether an operator belongs to the class. -/
def matchesOperator (pat : Pattern) (op : Operator) : Bool :=
  match pat with
  | kind k => op.kind = k
  | ingest => op.kind.isIngest
  | any => true

/-- The operators of a plan that belong to the class, in ascending order. -/
def candidates (pat : Pattern) (p : LogicalPlan) : List OpId :=
  (p.operators.entries.filter fun (_, op) ↦ pat.matchesOperator op).map (·.1)

end Pattern

end Dataflow
