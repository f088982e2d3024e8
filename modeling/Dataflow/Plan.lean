import Dataflow.Error
import Dataflow.IdTable

/-!
# Plans

A plan is a directed graph whose vertices are operators. Every operator knows the operators it feeds
and the operators that feed it, each in an order that matters: the place of a neighbour in its list
is the *slot* of the edge. A join tells its inputs apart by their slots, so an operation that puts a
vertex on an edge has to keep them: `disconnect` says which slots an edge held, and `connectAt` puts
an edge into given slots.

The same graph holds the operators of a dataflow and those within a for-each.
-/

namespace Dataflow

/-- An edge with the slots it holds at either end. -/
structure Edge where
  source : OpId
  target : OpId
  outSlot : Nat
  inSlot : Nat
deriving DecidableEq, Repr

/-- A graph of operators with ordered neighbours. -/
structure Plan (α : Type) where
  operators : IdTable α
  outgoing : IdTable (List OpId)
  incoming : IdTable (List OpId)
  /-- The identifier of the operator that is added next. -/
  nextId : OpId
deriving DecidableEq

namespace Plan

variable {α : Type}

/-- The plan without operators; identifiers start at 1. -/
def empty : Plan α :=
  ⟨.empty, .empty, .empty, ⟨1⟩⟩

instance : Inhabited (Plan α) :=
  ⟨empty⟩

/-! ## Operators -/

/-- The operator with an identifier. -/
def get? (p : Plan α) (id : OpId) : Option α :=
  p.operators.get? id

/-- The operator with an identifier, which has to be known. -/
def operator (p : Plan α) (id : OpId) : Except Error α :=
  match p.get? id with
  | some a => .ok a
  | none => .error (.unknownOperator id)

/-- The identifiers of the operators, in ascending order. -/
def ids (p : Plan α) : List OpId :=
  p.operators.keys

/-- The number of operators. -/
def size (p : Plan α) : Nat :=
  p.operators.size

/-- Adds an operator without edges and gives its identifier. -/
def add (p : Plan α) (a : α) : OpId × Plan α :=
  (p.nextId, { p with operators := p.operators.insert p.nextId a, nextId := p.nextId.next })

/-- Replaces an operator by what `f` makes of it. -/
def modify (p : Plan α) (id : OpId) (f : α → Except Error α) : Except Error (Plan α) := do
  let a ← p.operator id
  let a' ← f a
  return { p with operators := p.operators.insert id a' }

/-! ## Neighbours -/

/-- The operators that an operator feeds, by output slot. -/
def successors (p : Plan α) (id : OpId) : List OpId :=
  (p.outgoing.get? id).getD []

/-- The operators that feed an operator, by input slot. -/
def predecessors (p : Plan α) (id : OpId) : List OpId :=
  (p.incoming.get? id).getD []

/-- The operators that nothing feeds. -/
def sources (p : Plan α) : List OpId :=
  p.ids.filter (fun id ↦ (p.predecessors id).isEmpty)

/-- The operators that feed nothing. -/
def sinks (p : Plan α) : List OpId :=
  p.ids.filter (fun id ↦ (p.successors id).isEmpty)

/-! ## Edges -/

/-- Inserts an edge at given slots. A slot may be at most the number of edges there are on that side;
the edges from that slot on move up by one. -/
def connectAt (p : Plan α) (source : OpId) (outSlot : Nat) (target : OpId) (inSlot : Nat) :
    Except Error (Plan α) := do
  let _ ← p.operator source
  let _ ← p.operator target
  let succs := p.successors source
  let preds := p.predecessors target
  if source = target then .error (.selfLoop source)
  else if succs.contains target then .error (.alreadyConnected source target)
  else if succs.length < outSlot then .error (.outputOutOfRange outSlot source succs.length)
  else if preds.length < inSlot then .error (.inputOutOfRange inSlot target preds.length)
  else return { p with
    outgoing := p.outgoing.insert source (succs.insertIdx outSlot target)
    incoming := p.incoming.insert target (preds.insertIdx inSlot source) }

/-- Adds an edge after the edges there are. -/
def connect (p : Plan α) (source target : OpId) : Except Error (Plan α) :=
  p.connectAt source (p.successors source).length target (p.predecessors target).length

/-- The edge between two operators. -/
def edge? (p : Plan α) (source target : OpId) : Option Edge := do
  let outSlot ← (p.successors source).idxOf? target
  let inSlot ← (p.predecessors target).idxOf? source
  return ⟨source, target, outSlot, inSlot⟩

/-- Removes the edge between two operators and gives the edge with the slots it held. -/
def disconnect (p : Plan α) (source target : OpId) : Except Error (Edge × Plan α) :=
  match p.edge? source target with
  | none => .error (.noEdge source target)
  | some e => .ok (e, { p with
      outgoing := p.outgoing.insert source ((p.successors source).eraseIdx e.outSlot)
      incoming := p.incoming.insert target ((p.predecessors target).eraseIdx e.inSlot) })

/-- The edges that leave an operator, where its list of successors is `succs`. -/
def edgesFrom (p : Plan α) (source : OpId) (succs : List OpId) : List Edge :=
  succs.mapIdx fun outSlot target ↦
    ⟨source, target, outSlot, ((p.predecessors target).idxOf? source).getD 0⟩

/-- Every edge, in the order of its source and then of its output slot. -/
def edges (p : Plan α) : List Edge :=
  p.outgoing.entries.flatMap fun (source, succs) ↦ p.edgesFrom source succs

end Plan

end Dataflow
