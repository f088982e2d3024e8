import Dataflow.Pattern

/-!
# Rules

A rule changes a plan around one operator. It says by a pattern which operators to look at, by a
test whether it applies to one of them, and by an edit what it then does.
-/

namespace Dataflow

/-- A change of a plan that may fail; what was done before a failure stays done. -/
abbrev Edit :=
  ExceptT Error (StateM LogicalPlan)

namespace Edit

/-- A step that reads the plan and may fail. -/
def query {β : Type} (f : LogicalPlan → Except Error β) : Edit β := do
  match f (← get) with
  | .ok b => return b
  | .error e => throw e

/-- A step that replaces the plan, unless it fails. -/
def update {β : Type} (f : LogicalPlan → Except Error (β × LogicalPlan)) : Edit β := do
  match f (← get) with
  | .ok (b, p) => set p; return b
  | .error e => throw e

/-- Adds an operator. -/
def add (op : Operator) : Edit OpId :=
  update fun p ↦ .ok (p.add op)

/-- Adds an edge after the edges there are. -/
def connect (source target : OpId) : Edit Unit :=
  update fun p ↦ ((), ·) <$> p.connect source target

/-- Inserts an edge at given slots. -/
def connectAt (source : OpId) (outSlot : Nat) (target : OpId) (inSlot : Nat) : Edit Unit :=
  update fun p ↦ ((), ·) <$> p.connectAt source outSlot target inSlot

/-- Removes an edge. -/
def disconnect (source target : OpId) : Edit Edge :=
  update fun p ↦ p.disconnect source target

/-- Marks an operator as having its casts. -/
def markCastInserted (id : OpId) : Edit Unit :=
  update fun p ↦ ((), ·) <$> p.modify id Operator.markCastInserted

/-- Makes an edit of a plan: what it gives, and the plan it leaves. -/
def perform {β : Type} (e : Edit β) (p : LogicalPlan) : Except Error β × LogicalPlan :=
  e.run.run p

end Edit

/-- A way to transform a plan around one operator. -/
structure Rule where
  name : String
  pattern : Pattern
  /-- Whether the rule applies to an operator. -/
  applies : LogicalPlan → OpId → Bool
  /-- Transforms the plan and gives the operators that were touched. -/
  apply : OpId → Edit (List OpId)

end Dataflow
