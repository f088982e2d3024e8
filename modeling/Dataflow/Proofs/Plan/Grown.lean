import Dataflow.Proofs.Plan.Interpose

/-!
# Grown plans

A plan that was built up from the empty one is not only well formed: no operator is ever removed, so
its identifiers are the numbers `1, …, size` and the counter stands at `size + 1`. That ties the
counter to the number of operators, which is how a bound on the number of additions keeps it from
starting over.
-/

namespace Dataflow

namespace Plan

variable {α : Type} {p : Plan α} {s t : OpId} {op : α}

/-! ## Sizes -/

theorem size_add (hp : p.WellFormed) (op : α) : (p.add op).2.size = p.size + 1 := by
  rw [size, size, add, IdTable.size_insert]
  exact if_neg hp.nextId_notMem_ids

theorem size_setOperator {id : OpId} (h : id ∈ p.ids) : (p.setOperator id op).size = p.size := by
  rw [size, size, setOperator, IdTable.size_insert]
  exact if_pos h

@[simp] theorem size_insertEdge (i j : Nat) : (p.insertEdge s i t j).size = p.size := rfl

@[simp] theorem size_eraseEdge : (p.eraseEdge s t).size = p.size := rfl

@[simp] theorem size_interpose : (p.interpose s t op).size = (p.add op).2.size := rfl

/-! ## The invariant of plans that grow -/

/-- A well-formed plan whose identifiers start at 1 and are counted without gaps. -/
structure Grown (p : Plan α) : Prop extends WellFormed p where
  one_le : ∀ a ∈ p.ids, 1 ≤ a.toNat
  nextId_eq : p.nextId.toNat = p.size + 1

theorem grown_empty : (empty : Plan α).Grown where
  toWellFormed := wellFormed_empty
  one_le := nofun
  nextId_eq := rfl

namespace Grown

variable (hp : p.Grown)
include hp

theorem one_le_nextId : 1 ≤ p.nextId.toNat := by
  rw [hp.nextId_eq]
  exact Nat.le_add_left 1 _

theorem add (hsize : p.size + 2 < UInt64.size) (op : α) : (p.add op).2.Grown := by
  have hroom : p.nextId.toNat + 1 < UInt64.size := by rwa [hp.nextId_eq]
  refine ⟨hp.toWellFormed.add hroom op, fun a ha ↦ ?_, ?_⟩
  · rcases mem_ids_add.mp ha with rfl | ha
    · exact hp.one_le_nextId
    · exact hp.one_le a ha
  · rw [nextId_add, OpId.toNat_next hroom, size_add hp.toWellFormed, hp.nextId_eq]

theorem setOperator {id : OpId} (h : id ∈ p.ids) (op : α) : (p.setOperator id op).Grown := by
  refine ⟨hp.toWellFormed.setOperator h op, fun a ha ↦ ?_, ?_⟩
  · exact hp.one_le a ((mem_ids_setOperator h).mp ha)
  · rw [nextId_setOperator, size_setOperator h, hp.nextId_eq]

theorem insertEdge {i j : Nat} (h : p.Connectable s i t j) : (p.insertEdge s i t j).Grown :=
  ⟨hp.toWellFormed.insertEdge h, hp.one_le, hp.nextId_eq⟩

theorem eraseEdge (h : t ∈ p.successors s) : (p.eraseEdge s t).Grown :=
  ⟨hp.toWellFormed.eraseEdge h, hp.one_le, hp.nextId_eq⟩

theorem interpose (h : t ∈ p.successors s) (hsize : p.size + 2 < UInt64.size) (op : α) :
    (p.interpose s t op).Grown := by
  have ha := hp.toWellFormed.admits h
  exact (((hp.add hsize op).eraseEdge h).insertEdge ha.connectable_erased).insertEdge
    ha.connectable_half

end Grown

end Plan

end Dataflow
