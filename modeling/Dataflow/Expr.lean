import Dataflow.FunctionSpec
import Dataflow.Schema

/-!
# Column expressions

An expression computes one output column: it projects a column of one of the inputs, or casts the
value of another expression. Every expression has one projection at the bottom.
-/

namespace Dataflow

/-- How an output column is computed. -/
inductive Expr where
  /-- Column `column` of input `input`. -/
  | project (input column : UInt64)
  /-- The value of `arg`, converted to the field `target` by the function `converter`. -/
  | cast (arg : Expr) (target : Field) (converter : Option FunctionSpec)
deriving DecidableEq, Repr, Inhabited

namespace Expr

/-- Whether the outermost step is a cast. -/
def isCast : Expr → Bool
  | project .. => false
  | cast .. => true

/-- The projection at the bottom, as the numbers of the input and the column. -/
def leaf : Expr → UInt64 × UInt64
  | project input column => (input, column)
  | cast arg _ _ => arg.leaf

/-- The converter in brackets, when there is one. -/
def converterText : Option FunctionSpec → String
  | none => ""
  | some f => s!" [{f}]"

/-- The written form. Column 0 of an input is written as the input alone. -/
def render : Expr → String
  | project input column =>
    if column = 0 then s!"project({input.toNat})"
    else s!"project({input.toNat}.{column.toNat})"
  | cast arg target converter =>
    s!"cast({arg.render}) -> {target.type}{converterText converter}"

instance : ToString Expr :=
  ⟨render⟩

end Expr

/-- An output column of a generation, given by its expression. -/
structure OutputColumn where
  root : Expr
deriving DecidableEq, Repr, Inhabited

instance : ToString OutputColumn :=
  ⟨fun c ↦ c.root.render⟩

end Dataflow
