import Dataflow.Proofs.Plan.WellFormed

/-!
# Putting an operator on an edge

`Plan.interpose` is the graph surgery of the library: a new operator takes over an edge, in the slots
that the edge held. It goes through three intermediate plans, in which the edge is missing at one end
or both. `Plan.Admits` is what the steps look up on the way, and if it holds then each of the
intermediate plans admits the next step (`Admits.connectable_erased`, `Admits.connectable_half`). In a
well-formed plan it holds of every edge, so there the surgery cannot stop half way; what it amounts to
is in `successors_interpose` and `predecessors_interpose`, where only one place of either list has
changed.
-/

namespace Dataflow

namespace Plan

variable {α : Type} {p : Plan α} {s t : OpId} {op : α}

/-! ## The steps -/

/-- The new operator is there and the edge is gone. -/
def erased (p : Plan α) (s t : OpId) (op : α) : Plan α :=
  (p.add op).2.eraseEdge s t

/-- The new operator has its input, in the output slot of the former edge. -/
def half (p : Plan α) (s t : OpId) (op : α) : Plan α :=
  (p.erased s t op).insertEdge s (p.edgeOf s t).outSlot p.nextId 0

/-- The plan with a new operator on the edge between two others. -/
def interpose (p : Plan α) (s t : OpId) (op : α) : Plan α :=
  (p.half s t op).insertEdge p.nextId 0 t (p.edgeOf s t).inSlot

theorem insertIdx_erase_self {l : List OpId} {x : OpId} (h : x ∈ l) (y : OpId) :
    (l.erase x).insertIdx (l.idxOf x) y = l.set (l.idxOf x) y := by
  rw [← List.eraseIdx_idxOf_eq_erase]
  exact List.insertIdx_eraseIdx_self (Nat.ne_of_lt (List.idxOf_lt_length_of_mem h)) y

/-! ## Operators -/

theorem get?_interpose (a : OpId) :
    (p.interpose s t op).get? a = if a = p.nextId then some op else p.get? a :=
  get?_add p op a

theorem mem_ids_interpose {a : OpId} :
    a ∈ (p.interpose s t op).ids ↔ a = p.nextId ∨ a ∈ p.ids :=
  mem_ids_add

/-! ## What the steps look up -/

/-- What is looked up when a new operator is put on the edge from `s` to `t`: both ends are known and
list the edge, neither of them bears the identifier of the new operator, and there are no edges between
this identifier and them. -/
structure Admits (p : Plan α) (s t : OpId) : Prop where
  source_mem : s ∈ p.ids
  target_mem : t ∈ p.ids
  mem_successors : t ∈ p.successors s
  mem_predecessors : s ∈ p.predecessors t
  source_ne : s ≠ p.nextId
  target_ne : t ≠ p.nextId
  nextId_notMem : p.nextId ∉ (p.successors s).erase t
  target_notMem : t ∉ p.successors p.nextId

theorem WellFormed.admits (hp : p.WellFormed) (h : t ∈ p.successors s) : p.Admits s t where
  source_mem := hp.mem_ids_of_successor h
  target_mem := hp.mem_ids_of_mem_successors s t h
  mem_successors := h
  mem_predecessors := (hp.mirrored s t).mp h
  source_ne := by
    rintro rfl
    exact hp.nextId_notMem_ids (hp.mem_ids_of_successor h)
  target_ne := by
    rintro rfl
    exact hp.nextId_notMem_successors s h
  nextId_notMem hw := hp.nextId_notMem_successors s (List.mem_of_mem_erase hw)
  target_notMem := hp.successors_nextId ▸ List.not_mem_nil

theorem successors_half (h : t ∈ p.successors s) (a : OpId) :
    (p.half s t op).successors a
      = if a = s then (p.successors s).set ((p.successors s).idxOf t) p.nextId
        else p.successors a := by
  -- The slot was read off the plan before, and the erased entry has left exactly that one free.
  rw [half, successors_insertEdge, erased, successors_eraseEdge, successors_eraseEdge, if_pos rfl,
    successors_add, successors_add, edgeOf, insertIdx_erase_self h]
  by_cases ha : a = s
  · rw [if_pos ha, if_pos ha]
  · rw [if_neg ha, if_neg ha, if_neg ha]

/-- The slot of the edge is free when the edge is gone. Of the target nothing is looked up yet. -/
theorem connectable_erased (op : α) (hmem : s ∈ p.ids) (h : t ∈ p.successors s)
    (hne : s ≠ p.nextId) (hnew : p.nextId ∉ (p.successors s).erase t) :
    (p.erased s t op).Connectable s (p.edgeOf s t).outSlot p.nextId 0 where
  source_mem := mem_ids_add.mpr (.inr hmem)
  target_mem := mem_ids_add.mpr (.inl rfl)
  source_ne_target := hne
  notMem_successors := by
    rwa [erased, successors_eraseEdge, if_pos rfl, successors_add]
  outSlot_le := by
    rw [erased, successors_eraseEdge, if_pos rfl, successors_add, List.length_erase_of_mem h]
    exact Nat.le_sub_one_of_lt (List.idxOf_lt_length_of_mem h)
  inSlot_le := Nat.zero_le _

namespace Admits

variable (h : p.Admits s t)
include h

theorem connectable_erased :
    (p.erased s t op).Connectable s (p.edgeOf s t).outSlot p.nextId 0 :=
  Plan.connectable_erased op h.source_mem h.mem_successors h.source_ne h.nextId_notMem

theorem connectable_half :
    (p.half s t op).Connectable p.nextId 0 t (p.edgeOf s t).inSlot where
  source_mem := mem_ids_add.mpr (.inl rfl)
  target_mem := mem_ids_add.mpr (.inr h.target_mem)
  source_ne_target := h.target_ne.symm
  notMem_successors := by
    rw [successors_half h.mem_successors, if_neg h.source_ne.symm]
    exact h.target_notMem
  outSlot_le := Nat.zero_le _
  inSlot_le := by
    rw [half, predecessors_insertEdge, if_neg h.target_ne, erased, predecessors_eraseEdge,
      if_pos rfl, predecessors_add, List.length_erase_of_mem h.mem_predecessors]
    exact Nat.le_sub_one_of_lt (List.idxOf_lt_length_of_mem h.mem_predecessors)

end Admits

/-! ## Neighbours

The source and the target are operators that were there before, so neither is the new one. -/

section

variable (hp : p.WellFormed) (h : t ∈ p.successors s)
include hp h

theorem source_ne_nextId : s ≠ p.nextId :=
  (hp.admits h).source_ne

theorem target_ne_nextId : t ≠ p.nextId :=
  (hp.admits h).target_ne

theorem predecessors_half (a : OpId) :
    (p.half s t op).predecessors a
      = if a = p.nextId then [s]
        else if a = t then (p.predecessors t).erase s else p.predecessors a := by
  rw [half, predecessors_insertEdge, erased, predecessors_eraseEdge, predecessors_eraseEdge,
    if_neg (target_ne_nextId hp h).symm, predecessors_add, predecessors_add,
    hp.predecessors_nextId]
  rfl

/-- The new operator stands where the target stood. -/
theorem successors_interpose (a : OpId) :
    (p.interpose s t op).successors a
      = if a = p.nextId then [t]
        else if a = s then (p.successors s).set ((p.successors s).idxOf t) p.nextId
        else p.successors a := by
  rw [interpose, successors_insertEdge, successors_half h, successors_half h,
    if_neg (source_ne_nextId hp h).symm, hp.successors_nextId]
  rfl

/-- The new operator stands where the source stood. -/
theorem predecessors_interpose (a : OpId) :
    (p.interpose s t op).predecessors a
      = if a = p.nextId then [s]
        else if a = t then (p.predecessors t).set ((p.predecessors t).idxOf s) p.nextId
        else p.predecessors a := by
  have hs : s ∈ p.predecessors t := (hp.mirrored s t).mp h
  rw [interpose, predecessors_insertEdge, predecessors_half hp h, predecessors_half hp h,
    if_neg (target_ne_nextId hp h), if_pos rfl, edgeOf, insertIdx_erase_self hs]
  by_cases hat : a = t
  · rw [if_pos hat, if_pos hat, hat, if_neg (target_ne_nextId hp h)]
  · rw [if_neg hat, if_neg hat, if_neg hat]

/-! Both ends of the edge have lists already, so only the new operator is given lists. -/

omit hp in
theorem mem_outgoing_keys_interpose {a : OpId} :
    a ∈ (p.interpose s t op).outgoing.keys ↔ a = p.nextId ∨ a ∈ p.outgoing.keys := by
  have hs : s ∈ p.outgoing.keys := List.mem_map_of_mem (mem_entries_of_mem_successors h)
  have heq : a = s → a ∈ p.outgoing.keys := fun he ↦ he ▸ hs
  simp only [interpose, half, erased, insertEdge, eraseEdge, add, IdTable.mem_keys_insert]
  tauto

theorem mem_incoming_keys_interpose {a : OpId} :
    a ∈ (p.interpose s t op).incoming.keys ↔ a = p.nextId ∨ a ∈ p.incoming.keys := by
  have ht : t ∈ p.incoming.keys :=
    List.mem_map_of_mem (mem_entries_of_mem_predecessors ((hp.mirrored s t).mp h))
  have heq : a = t → a ∈ p.incoming.keys := fun he ↦ he ▸ ht
  simp only [interpose, half, erased, insertEdge, eraseEdge, add, IdTable.mem_keys_insert]
  tauto

theorem WellFormed.interpose (hroom : p.nextId.toNat + 1 < UInt64.size) :
    (p.interpose s t op).WellFormed := by
  have ha := hp.admits h
  exact (((hp.add hroom op).eraseEdge h).insertEdge ha.connectable_erased).insertEdge
    ha.connectable_half

end

end Plan

end Dataflow
