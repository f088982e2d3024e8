import Dataflow.Pipeline.Build
import Dataflow.Proofs.Plan.WellFormed

/-!
# What a document describes

The plan of a document without the way in which it is built. A step stands for an operator, and it
refers to others: to the step before it or, by their names, to any earlier ones. `Pipeline.Described`
puts the two together. Nothing in it mentions the names that have been seen so far or the step that
came last; these are how the plan is built, and here a name is looked up in the whole document.
-/

namespace Dataflow

/-! ## Steps -/

namespace Step

/-- The name that a step gives to its output. -/
def name : Step → Option String
  | load name .. => name
  | stream name .. => name
  | filter name .. => name
  | join name .. => name
  | store name .. => name

/-- What a step reads. -/
inductive Reference where
  /-- The step before it. -/
  | previous
  | named (name : String)
deriving DecidableEq, Repr

/-- The reference of a step that may name its input. -/
def Reference.ofInput : Option String → Reference
  | none => previous
  | some name => named name

/-- Everything a step reads, in the order of its inputs. -/
def references : Step → List Reference
  | load .. => []
  | stream _ input .. => [.ofInput input]
  | filter _ input _ => [.ofInput input]
  | join _ inputs _ => inputs.map .named
  | store _ input .. => [.ofInput input]

/-- The operator that a step stands for. Its casts have not been inserted. -/
inductive Denotes : Step → Operator → Prop
  | load {name loader : Option String} {source : String}
      {schema determined : Option (List FieldDecl)} {f : FunctionSpec} {s d : Option Schema}
      (function : FunctionSpec.parse (loader.getD "PigStorage") = .ok f)
      (declared : FieldDecl.toSchema? schema = .ok s)
      (found : FieldDecl.toSchema? determined = .ok d) :
      Denotes (load name source loader schema determined) (.load ⟨name, ⟨source, f⟩, s, d, false⟩)
  | stream {name input output : Option String} {command : String}
      {schema : Option (List FieldDecl)} {s : Option Schema}
      (declared : FieldDecl.toSchema? schema = .ok s) :
      Denotes (stream name input command output schema)
        (.stream ⟨name, ⟨command, ⟨output.getD "PigStreaming"⟩⟩, s, false⟩)
  | filter {name input : Option String} {predicate : String} :
      Denotes (filter name input predicate) (.filter ⟨name, predicate⟩)
  | join {name : Option String} {inputs : List String} {on : List (String × String)} :
      Denotes (join name inputs on) (.join ⟨name, on⟩)
  | store {name input storer : Option String} {destination : String} {f : FunctionSpec}
      (function : FunctionSpec.parse (storer.getD "PigStorage") = .ok f) :
      Denotes (store name input destination storer) (.store ⟨name, ⟨destination, f⟩⟩)

theorem Denotes.name_eq {s : Step} {op : Operator} (h : s.Denotes op) : op.name = s.name := by
  cases h <;> rfl

theorem Denotes.kind_ne_forEach {s : Step} {op : Operator} (h : s.Denotes op) :
    op.kind ≠ .forEach := by
  cases h <;> exact nofun

theorem Denotes.isCastInserted_eq_false {s : Step} {op : Operator} (h : s.Denotes op) :
    op.isCastInserted = false := by
  cases h <;> rfl

end Step

/-! ## Documents -/

namespace Pipeline

/-- The identifier of the operator of the step at place `k`: places are counted from 0 and operators
from 1. -/
def opId (k : Nat) : OpId :=
  ⟨UInt64.ofNat (k + 1)⟩

theorem toNat_opId {k : Nat} (h : k + 1 < UInt64.size) : (opId k).toNat = k + 1 :=
  UInt64.toNat_ofNat_of_lt' h

theorem opId_inj {j k : Nat} (hj : j + 1 < UInt64.size) (hk : k + 1 < UInt64.size) :
    opId j = opId k ↔ j = k := by
  rw [← OpId.toNat_inj, toNat_opId hj, toNat_opId hk, Nat.add_right_cancel_iff]

theorem next_opId {k : Nat} (h : k + 2 < UInt64.size) : (opId k).next = opId (k + 1) := by
  rw [← OpId.toNat_inj, OpId.toNat_next, toNat_opId (by omega), toNat_opId h]
  rw [toNat_opId (by omega)]
  exact h

/-- The name of the step at a place. -/
def nameAt (steps : List Step) (k : Nat) : Option String :=
  steps[k]?.bind Step.name

/-- The place `j` is what a reference in the step at place `k` means: the one before, or the only one in
the document with the name, and that one comes earlier. -/
def Means (steps : List Step) (k : Nat) : Step.Reference → Nat → Prop
  | .previous, j => j + 1 = k
  | .named name, j => j < k ∧ ∀ i, nameAt steps i = some name ↔ i = j

/-- The plan is the one that the steps describe. -/
structure Described (steps : List Step) (p : LogicalPlan) : Prop where
  ids_eq : p.ids = (List.range steps.length).map opId
  operator : ∀ k s, steps[k]? = some s → ∃ op, p.get? (opId k) = some op ∧ s.Denotes op
  /-- The inputs of an operator are what its step refers to, in this order. -/
  predecessors : ∀ k s, steps[k]? = some s → ∃ js, List.Forall₂ (Means steps k) s.references js ∧
    p.predecessors (opId k) = js.map opId
  /-- The readers of an operator come in the order of their steps. -/
  successors : ∀ j < steps.length, p.successors (opId j)
    = ((List.range steps.length).filter fun k ↦ opId j ∈ p.predecessors (opId k)).map opId
  wellFormed : p.WellFormed
  ascending : ∀ a b, b ∈ p.successors a → a < b

end Pipeline

end Dataflow
