import Dataflow.Proofs.Optimizer.Outcome

/-!
# Contraction of optimized plans

A run of an optimizer with cast rules puts a for-each on some edges and marks the operators above.
`ContractsTo p q` says that it does no more than that: where the operators that are new in `q` are
taken for edges, `q` is `p`, with every input and every output in its place. Nothing is said about
which edges are chosen, so the statement holds for a run that was stopped by an error or by the
limit on passes as well.

## The argument

In a plan in progress the inputs of an operator are those it had, each with what stands in for it
(`standIn`), and to go from a for-each to its only input is to undo this. The outputs of an operator
are those it had, or the for-each if it has been given one, and this leads to the only reader that
the operator had.
-/

namespace Dataflow

namespace CastRule

variable {p q : LogicalPlan} {done : List OpId}

/-- The operator of `p` that an input comes from, past an operator that is new in `q`. -/
def upstream (p q : LogicalPlan) (w : OpId) : OpId :=
  if w ∈ p.ids then w else (q.predecessors w).headD w

/-- The operator of `p` that an output goes to, past an operator that is new in `q`. -/
def downstream (p q : LogicalPlan) (w : OpId) : OpId :=
  if w ∈ p.ids then w else (q.successors w).headD w

/-- `q` is `p` with a for-each on some of its edges, and some of its operators are marked as having
their casts. -/
structure ContractsTo (p q : LogicalPlan) : Prop where
  get?_old : ∀ v op, p.get? v = some op →
    q.get? v = some op ∨ op.isCastInserted = false ∧ q.get? v = some op.marked
  get?_new : ∀ w op, q.get? w = some op → w ∉ p.ids → ∃ f a b, op = .forEach f ∧
    q.predecessors w = [a] ∧ a ∈ p.ids ∧ q.successors w = [b] ∧ b ∈ p.ids
  predecessors_eq : ∀ v ∈ p.ids, (q.predecessors v).map (upstream p q) = p.predecessors v
  successors_eq : ∀ v ∈ p.ids, (q.successors v).map (downstream p q) = p.successors v

theorem upstream_of_mem {w : OpId} (h : w ∈ p.ids) : upstream p q w = w :=
  if_pos h

theorem downstream_of_mem {w : OpId} (h : w ∈ p.ids) : downstream p q w = w :=
  if_pos h

theorem upstream_of_predecessors_eq {w a : OpId} (h : w ∉ p.ids) (ha : q.predecessors w = [a]) :
    upstream p q w = a := by
  rw [upstream, if_neg h, ha, List.headD_cons]

theorem downstream_of_successors_eq {w b : OpId} (h : w ∉ p.ids) (hb : q.successors w = [b]) :
    downstream p q w = b := by
  rw [downstream, if_neg h, hb, List.headD_cons]

/-! ## Plans in progress -/

namespace Progress

variable (hp : p.WellFormed) (h : Progress p done q)
include hp h

theorem upstream_standIn {u : OpId} (hu : u ∈ p.ids) : upstream p q (standIn p done u) = u := by
  by_cases hud : u ∈ done
  · obtain ⟨-, -, -, -, -, -, -, -, hpred, -⟩ := h.wrapped u hud
    exact upstream_of_predecessors_eq (h.standIn_notMem_ids hp hud) hpred
  · rw [standIn_of_notMem hud, upstream_of_mem hu]

theorem contractsTo : ContractsTo p q where
  get?_old v op hv := by
    have hget := h.get?_old v op hv
    cases hcast : op.isCastInserted with
    | false =>
      split at hget
      · exact .inr ⟨rfl, hget⟩
      · exact .inl hget
    | true =>
      rw [Operator.marked_of_isCastInserted hcast, ite_self] at hget
      exact .inl hget
  get?_new w op hw hnew := by
    obtain ⟨v, hv, rfl⟩ := (h.old_or_wrapper w (Plan.mem_ids_of_get? hw)).resolve_left hnew
    obtain ⟨-, b, f, -, -, hs, -, hget, hpred, hsucc⟩ := h.wrapped v hv
    rw [hget] at hw
    cases hw
    have hb : b ∈ p.ids := hp.mem_ids_of_mem_successors v b (hs ▸ List.mem_singleton_self b)
    exact ⟨f, v, b, rfl, hpred, h.mem_ids_of_mem_done hv, hsucc, hb⟩
  predecessors_eq v hv := by
    rw [h.predecessors_old v hv, List.map_map]
    refine (List.map_congr_left fun u hu ↦ ?_).trans (List.map_id _)
    exact h.upstream_standIn hp (hp.mem_ids_of_mem_predecessors v u hu)
  successors_eq v hv := by
    rw [h.successors_old v hv]
    split
    · rename_i hvd
      obtain ⟨-, b, -, -, -, hs, -, -, -, hsucc⟩ := h.wrapped v hvd
      rw [List.map_singleton,
        downstream_of_successors_eq (h.standIn_notMem_ids hp hvd) hsucc, hs]
    · refine (List.map_congr_left fun b hb ↦ ?_).trans (List.map_id _)
      exact downstream_of_mem (hp.mem_ids_of_mem_successors v b hb)

end Progress

/-! ## Optimized plans -/

/-- **Dataflow is preserved.** Whatever cast rules an optimizer has, whatever its settings are, and
whether the run succeeds or fails, the plan that it leaves contracts to the plan before. -/
theorem contractsTo_optimize (rules : List CastRule) (s : Settings) (hp : p.WellFormed)
    (hroom : p.nextId.toNat + (agenda p (enabled rules s)).length < UInt64.size) :
    ContractsTo p ((optimizer rules s).optimize p).2 := by
  obtain ⟨done, hdone⟩ := exists_progress_optimize hp hroom
  exact hdone.contractsTo hp

theorem contractsTo_optimize_branchedPlan :
    branchedPlan.WellFormed ∧
      branchedPlan.nextId.toNat + (agenda branchedPlan (enabled defaults .default)).length
        < UInt64.size ∧
      ((optimizer defaults .default).optimize branchedPlan).2.predecessors ⟨3⟩ = [⟨7⟩, ⟨6⟩] ∧
      ContractsTo branchedPlan ((optimizer defaults .default).optimize branchedPlan).2 := by
  have hp : branchedPlan.WellFormed := by decide
  have hroom : branchedPlan.nextId.toNat + (agenda branchedPlan (enabled defaults .default)).length
      < UInt64.size := by
    decide +kernel
  exact ⟨hp, hroom, by decide +kernel, contractsTo_optimize defaults .default hp hroom⟩

end CastRule

end Dataflow
