import Dataflow.Rule

/-!
# Inserting casts

Loads and streams hand over raw payloads. Where the script declares a schema for one of them, its
readers expect typed columns, so this rule puts a for-each between the operator and its only
successor. The for-each generates one column for every declared field, and casts the fields that
call for it.

Two tests on a field decide, and they differ where the loader has determined a schema of its own. The
rule *applies* when some field with a meaning is not confirmed by the determined schema
(`needsWork`); it then *casts* the fields that are confirmed (`needsCast`).
-/

namespace Dataflow

/-- Whether the determined schema has, at position `i`, a field of the same shape as the declared
one. -/
def isConfirmed (declared : Field) (determined : Schema) (i : Nat) : Bool :=
  match determined.field? i with
  | some f => declared.sameShape f
  | none => false

/-- Whether the field declared at position `i` is cast: always if no schema was determined, and
otherwise if the determined field has the same shape. Uninterpreted payloads are never cast. -/
def needsCast (declared : Field) (determined : Option Schema) (i : Nat) : Bool :=
  !declared.type.isOpaque &&
    match determined with
    | none => true
    | some s => isConfirmed declared s i

/-- Whether the field declared at position `i` calls for the rule: always if no schema was determined,
and otherwise unless the determined field has the same shape. -/
def needsWork (declared : Field) (determined : Option Schema) (i : Nat) : Bool :=
  !declared.type.isOpaque &&
    match determined with
    | none => true
    | some s => !isConfirmed declared s i

/-- The rule that inserts casts, for every operator that reads data or for one kind of them. -/
structure CastRule where
  name : String
  target : Option Kind
deriving DecidableEq, Repr

namespace CastRule

/-- The rule for every operator that reads data. -/
def all : CastRule :=
  ⟨"TypeCastInserter", none⟩

/-- The rule for loads. -/
def forLoad : CastRule :=
  ⟨"LoadTypeCastInserter", some .load⟩

/-- The rule for streams. -/
def forStream : CastRule :=
  ⟨"StreamTypeCastInserter", some .stream⟩

/-- A rule for one kind of operators that read data. -/
def forKind (name : String) (kind : Kind) : Except Error CastRule :=
  if kind.isIngest then .ok ⟨name, some kind⟩ else .error (.notIngest name kind)

/-- Whether the rule is meant for a kind of operators. -/
def targets (r : CastRule) (kind : Kind) : Bool :=
  match r.target with
  | some k => k = kind
  | none => kind.isIngest

/-- The pattern of the operators that the rule is meant for. -/
def pattern (r : CastRule) : Pattern :=
  match r.target with
  | some k => .kind k
  | none => .ingest

/-! ## When the rule applies -/

/-- Whether an operator has a declared field that calls for the rule, and no casts yet. -/
def wants (op : Operator) : Bool :=
  match op.declared with
  | none => false
  | some s =>
    !op.isCastInserted &&
      (s.fields.mapIdx fun i f ↦ needsWork f op.determined i).any id

/-- Whether the rule applies to an operator of a plan. -/
def applies (r : CastRule) (p : LogicalPlan) (id : OpId) : Bool :=
  match p.get? id with
  | none => false
  | some op => r.targets op.kind && wants op

/-! ## The for-each that is inserted -/

/-- For each declared field, whether it is cast. -/
def casts (s : Schema) (determined : Option Schema) : List Bool :=
  s.fields.mapIdx fun i f ↦ needsCast f determined i

/-- The output column for the field at position `i`: the column of the same number, cast or bare. -/
def column (converter : Option FunctionSpec) (i : Nat) (f : Field) (isCast : Bool) :
    OutputColumn :=
  let project := Expr.project (UInt64.ofNat i) 0
  ⟨if isCast then .cast project f converter else project⟩

/-- The output columns for the fields of a schema. -/
def columns (s : Schema) (determined : Option Schema) (converter : Option FunctionSpec) :
    List OutputColumn :=
  s.fields.mapIdx fun i f ↦ column converter i f (needsCast f determined i)

/-- Adds inner loads of the columns `0, 1, …, width - 1`, each feeding the generation. -/
def addInnerLoads (generation : OpId) (width : Nat) (p : InnerPlan) : Except Error InnerPlan :=
  (List.range width).foldlM (fun p i ↦
    let (load, p) := p.add (.innerLoad (UInt64.ofNat i))
    p.connect load generation) p

/-- The inner plan with a generation of the given columns and an inner load for each. -/
def innerPlan (outputs : List OutputColumn) : Except Error InnerPlan := do
  let g ← Generate.make outputs (List.replicate outputs.length false)
  let (generation, p) := Plan.empty.add (.generate g)
  addInnerLoads generation outputs.length p

/-- The function that casts use: the one that makes the operator's output. It is asked for only if
there is something to cast. -/
def converter (op : Operator) (s : Schema) : Except Error (Option FunctionSpec) :=
  if (casts s op.determined).any id then some <$> op.outputFunction else .ok none

/-- The for-each for an operator. -/
def wrapper (id : OpId) (op : Operator) : Except Error ForEach :=
  match op.declared with
  | none => .error (.noSchema id)
  | some s => do
    let f ← converter op s
    let inner ← innerPlan (columns s op.determined f)
    return ⟨op.name, inner⟩

/-! ## The edit -/

/-- Puts a new operator on the edge between two others, in the slots that the edge held. -/
def splice (source target : OpId) (op : Operator) : Edit OpId := do
  let new ← Edit.add op
  let e ← Edit.disconnect source target
  Edit.connectAt source e.outSlot new 0
  Edit.connectAt new 0 target e.inSlot
  return new

/-- Inserts the for-each below an operator and marks the operator. The operator has to read data and
to have exactly one successor. -/
def apply (r : CastRule) (id : OpId) : Edit (List OpId) := do
  let op ← Edit.query (·.operator id)
  if op.kind.isIngest then
    match (← get).successors id with
    | [next] =>
      let f ← Edit.query fun _ ↦ wrapper id op
      let new ← splice id next (.forEach f)
      Edit.markCastInserted id
      return [id, new, next]
    | others => throw (.successorCount r.name id others.length)
  else throw (.unsupportedOperator r.name id op.kind)

/-- The rule as a rule on plans. -/
def toRule (r : CastRule) : Rule where
  name := r.name
  pattern := r.pattern
  applies := r.applies
  apply := r.apply

/-- The rules that are used unless others are given, in the order in which they are tried. -/
def defaults : List CastRule :=
  [forLoad, forStream]

end CastRule

end Dataflow
