import Dataflow.Proofs.Plan.InPlace
import Dataflow.Proofs.Plan.Interpose

/-!
# Taking edges out and putting them back

`disconnect` tells the slots that an edge held, and `connectAt` puts an edge into given slots, so each
should undo the other. Slots are not remembered but looked for, as the first place at which the
neighbour is listed. That this finds the right place takes what `Consistent` says of the two tables:
they list the same edges, and each of them once.

The plan that comes back is the same value after an edge was taken out first. After one was put in
first it is the same graph only, for an operator that had no neighbours on one side may have been given
a list, and keeps it when it is empty again.
-/

namespace Dataflow

namespace Plan

variable {α : Type} {p q : Plan α} {s t : OpId} {i j : Nat} {e : Edge}

/-! ## Consistent tables -/

/-- The two tables of neighbours list the same edges between operators of the plan, and each of them
once. -/
structure Consistent (p : Plan α) : Prop where
  mem_ids_of_mem_outgoing : ∀ a ∈ p.outgoing.keys, a ∈ p.ids
  mem_ids_of_mem_incoming : ∀ a ∈ p.incoming.keys, a ∈ p.ids
  mem_ids_of_mem_successors : ∀ a, ∀ b ∈ p.successors a, b ∈ p.ids
  mem_ids_of_mem_predecessors : ∀ a, ∀ b ∈ p.predecessors a, b ∈ p.ids
  mirrored : ∀ a b, b ∈ p.successors a ↔ a ∈ p.predecessors b
  nodup_successors : ∀ a, (p.successors a).Nodup
  nodup_predecessors : ∀ a, (p.predecessors a).Nodup

/-- Well-formed plans are consistent. Beyond that they have no edge from an operator to itself and a
counter that is ahead. -/
theorem WellFormed.consistent (hp : p.WellFormed) : p.Consistent where
  mem_ids_of_mem_outgoing := hp.mem_ids_of_mem_outgoing
  mem_ids_of_mem_incoming := hp.mem_ids_of_mem_incoming
  mem_ids_of_mem_successors := hp.mem_ids_of_mem_successors
  mem_ids_of_mem_predecessors := hp.mem_ids_of_mem_predecessors
  mirrored := hp.mirrored
  nodup_successors := hp.nodup_successors
  nodup_predecessors := hp.nodup_predecessors

/-! ## Lists -/

theorem insertIdx_erase_idxOf {l : List OpId} {x : OpId} (h : x ∈ l) :
    (l.erase x).insertIdx (l.idxOf x) x = l := by
  have hlt : l.idxOf x < l.length := List.idxOf_lt_length_of_mem h
  have hself : l.set (l.idxOf x) l[l.idxOf x] = l := List.set_getElem_self hlt
  rwa [List.getElem_idxOf, ← insertIdx_erase_self h] at hself

theorem idxOf_insertIdx {l : List OpId} {x : OpId} (hx : x ∉ l) (hi : i ≤ l.length) :
    (l.insertIdx i x).idxOf x = i := by
  induction l generalizing i with
  | nil =>
    obtain rfl : i = 0 := Nat.le_zero.mp hi
    rw [List.insertIdx_zero, List.idxOf_cons_self]
  | cons y l ih =>
    cases i with
    | zero => rw [List.insertIdx_zero, List.idxOf_cons_self]
    | succ i =>
      rw [List.mem_cons, not_or] at hx
      rw [List.insertIdx_succ_cons, List.idxOf_cons_ne _ (Ne.symm hx.1),
        ih hx.2 (Nat.le_of_succ_le_succ hi)]

theorem erase_insertIdx {l : List OpId} {x : OpId} (hx : x ∉ l) (hi : i ≤ l.length) :
    (l.insertIdx i x).erase x = l := by
  rw [← List.eraseIdx_idxOf_eq_erase, idxOf_insertIdx hx hi, List.eraseIdx_insertIdx_self]

/-- Writing back what a table held undoes a write. -/
theorem insert_insert_of_get? {β : Type} {t : IdTable β} {k : OpId} {b : β}
    (h : t.get? k = some b) (a : β) : (t.insert k a).insert k b = t := by
  refine IdTable.ext_get? fun j ↦ ?_
  rw [IdTable.get?_insert, IdTable.get?_insert]
  by_cases hj : j = k
  · rw [if_pos hj, hj, h]
  · rw [if_neg hj, if_neg hj]

/-! ## An edge that is taken out -/

theorem get?_outgoing_of_mem_successors (h : t ∈ p.successors s) :
    p.outgoing.get? s = some (p.successors s) :=
  IdTable.mem_entries_iff.mp (mem_entries_of_mem_successors h)

theorem get?_incoming_of_mem_predecessors (h : s ∈ p.predecessors t) :
    p.incoming.get? t = some (p.predecessors t) :=
  IdTable.mem_entries_iff.mp (mem_entries_of_mem_predecessors h)

/-- The edge goes back to where it was. -/
theorem insertEdge_eraseEdge (ht : t ∈ p.successors s) (hs : s ∈ p.predecessors t) :
    (p.eraseEdge s t).insertEdge s (p.edgeOf s t).outSlot t (p.edgeOf s t).inSlot = p := by
  have hout : (p.eraseEdge s t).successors s = (p.successors s).erase t := by
    rw [successors_eraseEdge, if_pos rfl]
  have hin : (p.eraseEdge s t).predecessors t = (p.predecessors t).erase s := by
    rw [predecessors_eraseEdge, if_pos rfl]
  rw [insertEdge, hout, hin, edgeOf, insertIdx_erase_idxOf ht, insertIdx_erase_idxOf hs]
  have houtgoing := insert_insert_of_get? (get?_outgoing_of_mem_successors ht)
    ((p.successors s).erase t)
  have hincoming := insert_insert_of_get? (get?_incoming_of_mem_predecessors hs)
    ((p.predecessors t).erase s)
  rw [eraseEdge, houtgoing, hincoming]

/-- The slots of an edge that is gone can be filled again. -/
theorem Consistent.connectable_eraseEdge (hp : p.Consistent) (hne : s ≠ t)
    (ht : t ∈ p.successors s) :
    (p.eraseEdge s t).Connectable s (p.edgeOf s t).outSlot t (p.edgeOf s t).inSlot where
  source_mem := hp.mem_ids_of_mem_predecessors t s ((hp.mirrored s t).mp ht)
  target_mem := hp.mem_ids_of_mem_successors s t ht
  source_ne_target := hne
  notMem_successors := by
    rw [successors_eraseEdge, if_pos rfl, (hp.nodup_successors s).mem_erase_iff]
    exact fun h ↦ h.1 rfl
  outSlot_le := by
    rw [successors_eraseEdge, if_pos rfl, List.length_erase_of_mem ht]
    exact Nat.le_sub_one_of_lt (List.idxOf_lt_length_of_mem ht)
  inSlot_le := by
    have hs : s ∈ p.predecessors t := (hp.mirrored s t).mp ht
    rw [predecessors_eraseEdge, if_pos rfl, List.length_erase_of_mem hs]
    exact Nat.le_sub_one_of_lt (List.idxOf_lt_length_of_mem hs)

/-! ## An edge that is put in -/

/-- The edge is found in the slots that it was given. -/
theorem Connectable.edgeOf_insertEdge (h : p.Connectable s i t j) (hs : s ∉ p.predecessors t) :
    (p.insertEdge s i t j).edgeOf s t = ⟨s, t, i, j⟩ := by
  rw [edgeOf, successors_insertEdge, predecessors_insertEdge, if_pos rfl, if_pos rfl,
    idxOf_insertIdx h.notMem_successors h.outSlot_le, idxOf_insertIdx hs h.inSlot_le]

theorem Connectable.successors_eraseEdge_insertEdge (h : p.Connectable s i t j) (v : OpId) :
    ((p.insertEdge s i t j).eraseEdge s t).successors v = p.successors v := by
  rw [successors_eraseEdge, successors_insertEdge, successors_insertEdge, if_pos rfl,
    erase_insertIdx h.notMem_successors h.outSlot_le]
  by_cases hv : v = s
  · rw [if_pos hv, hv]
  · rw [if_neg hv, if_neg hv]

theorem Connectable.predecessors_eraseEdge_insertEdge (h : p.Connectable s i t j)
    (hs : s ∉ p.predecessors t) (v : OpId) :
    ((p.insertEdge s i t j).eraseEdge s t).predecessors v = p.predecessors v := by
  rw [predecessors_eraseEdge, predecessors_insertEdge, predecessors_insertEdge, if_pos rfl,
    erase_insertIdx hs h.inSlot_le]
  by_cases hv : v = t
  · rw [if_pos hv, hv]
  · rw [if_neg hv, if_neg hv]

/-! ## Both ways -/

/-- **Taking an edge out and putting it back.** In a consistent plan without an edge from an operator
to itself, `connectAt` undoes `disconnect` and `disconnect` undoes `connectAt`, with the slots that
`edge?` reports. Whatever the plan, an operation that fails leaves it as it is. -/
theorem disconnect_connectAt_inverse (α : Type) :
    (∀ p : Plan α, p.Consistent → (∀ v, v ∉ p.successors v) → ∀ s t,
      (∀ e q, p.disconnect s t = .ok (e, q) →
        p.edge? s t = some e ∧ q.connectAt s e.outSlot t e.inSlot = .ok p) ∧
      ∀ i j q, p.connectAt s i t j = .ok q →
        q.edge? s t = some ⟨s, t, i, j⟩ ∧
        ∃ r, q.disconnect s t = .ok (⟨s, t, i, j⟩, r) ∧
          r.operators = p.operators ∧ r.nextId = p.nextId ∧
          ∀ v, r.successors v = p.successors v ∧ r.predecessors v = p.predecessors v) ∧
    ∀ (p q : Plan α) (s t : OpId) (i j : Nat) (err : Error),
      ((InPlace.connect s t).perform p = (.error err, q) ↔ p.connect s t = .error err ∧ q = p) ∧
      ((InPlace.connectAt s i t j).perform p = (.error err, q) ↔
        p.connectAt s i t j = .error err ∧ q = p) ∧
      ((InPlace.disconnect s t).perform p = (.error err, q) ↔
        p.disconnect s t = .error err ∧ q = p) := by
  refine ⟨fun p hp hirr s t ↦ ⟨fun e q h ↦ ?_, fun i j q h ↦ ?_⟩, fun p q s t i j err ↦ ?_⟩
  · obtain ⟨ht, hs, rfl, rfl⟩ := disconnect_eq_ok_iff.mp h
    have hne : s ≠ t := fun hst ↦ hirr s (hst ▸ ht)
    exact ⟨edge?_eq_some_iff.mpr ⟨ht, hs, rfl⟩, connectAt_eq_ok_iff.mpr
      ⟨hp.connectable_eraseEdge hne ht, (insertEdge_eraseEdge ht hs).symm⟩⟩
  · obtain ⟨hc, rfl⟩ := connectAt_eq_ok_iff.mp h
    have hs : s ∉ p.predecessors t := mt (hp.mirrored s t).mpr hc.notMem_successors
    have ht' : t ∈ (p.insertEdge s i t j).successors s :=
      hc.mem_successors_insertEdge.mpr (.inr ⟨rfl, rfl⟩)
    have hs' : s ∈ (p.insertEdge s i t j).predecessors t :=
      hc.mem_predecessors_insertEdge.mpr (.inr ⟨rfl, rfl⟩)
    have hedge := (hc.edgeOf_insertEdge hs).symm
    exact ⟨edge?_eq_some_iff.mpr ⟨ht', hs', hedge⟩, _,
      disconnect_eq_ok_iff.mpr ⟨ht', hs', hedge, rfl⟩, rfl, rfl,
      fun v ↦ ⟨hc.successors_eraseEdge_insertEdge v, hc.predecessors_eraseEdge_insertEdge hs v⟩⟩
  · rw [InPlace.perform_connect, InPlace.perform_connectAt, InPlace.perform_disconnect]
    exact ⟨InPlace.outcome_map_eq_error_iff, InPlace.outcome_map_eq_error_iff,
      InPlace.outcome_map_eq_error_iff⟩

/-- Two sources feed a filter and a join, and the filter feeds the join as well, between the two. -/
def interleaved : Plan String where
  operators := .ofList [(⟨1⟩, "left"), (⟨2⟩, "right"), (⟨3⟩, "filter"), (⟨4⟩, "join")]
  outgoing := .ofList [(⟨1⟩, [⟨3⟩, ⟨4⟩]), (⟨2⟩, [⟨4⟩]), (⟨3⟩, [⟨4⟩])]
  incoming := .ofList [(⟨3⟩, [⟨1⟩]), (⟨4⟩, [⟨1⟩, ⟨3⟩, ⟨2⟩])]
  nextId := ⟨5⟩

theorem disconnect_connectAt_inverse_interleaved :
    interleaved.Consistent ∧ (∀ v, v ∉ interleaved.successors v) ∧
    (∃ q, interleaved.disconnect ⟨3⟩ ⟨4⟩ = .ok (⟨⟨3⟩, ⟨4⟩, 0, 1⟩, q) ∧
      q.connectAt ⟨3⟩ 0 ⟨4⟩ 1 = .ok interleaved) ∧
    ∃ q r, interleaved.connectAt ⟨2⟩ 0 ⟨3⟩ 1 = .ok q ∧
      q.disconnect ⟨2⟩ ⟨3⟩ = .ok (⟨⟨2⟩, ⟨3⟩, 0, 1⟩, r) ∧ r.successors ⟨2⟩ = [⟨4⟩] := by
  have hwf : interleaved.WellFormed := by decide +kernel
  have hout : interleaved.edge? ⟨3⟩ ⟨4⟩ = some ⟨⟨3⟩, ⟨4⟩, 0, 1⟩ := by decide +kernel
  have hin : interleaved.Connectable ⟨2⟩ 0 ⟨3⟩ 1 := by
    constructor <;> decide +kernel
  obtain ⟨ht, hs, he⟩ := edge?_eq_some_iff.mp hout
  have hboth := (disconnect_connectAt_inverse String).1 interleaved hwf.consistent hwf.irreflexive
  have hdisconnect := disconnect_eq_ok_iff.mpr ⟨ht, hs, he, rfl⟩
  obtain ⟨-, hback⟩ := (hboth ⟨3⟩ ⟨4⟩).1 _ _ hdisconnect
  have hconnect := connectAt_eq_ok_iff.mpr ⟨hin, rfl⟩
  obtain ⟨-, r, hr, -, -, hlists⟩ := (hboth ⟨2⟩ ⟨3⟩).2 0 1 _ hconnect
  refine ⟨hwf.consistent, hwf.irreflexive, ⟨_, hdisconnect, hback⟩, _, r, hconnect, hr, ?_⟩
  rw [(hlists ⟨2⟩).1]
  decide +kernel

end Plan

end Dataflow
