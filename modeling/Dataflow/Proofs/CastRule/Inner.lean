import Dataflow.CastRule
import Dataflow.Proofs.Plan.Grown

/-!
# The plan within an inserted for-each

The generation is added first and the inner loads one after another, each with an edge to the
generation. `IsFed` says what has been built after any number of rounds, by lookups.

## Why no bound on the number of columns is needed

Identifiers are words and come round after the last one. An inner load that was given the identifier
of the generation could not be connected to it, so a loop that has succeeded has given every
identifier once, and the column numbers, which are words too, are the positions of the columns.
-/

namespace Dataflow

namespace CastRule

variable {p q : InnerPlan} {gen : Generate} {width i j : Nat}

/-! ## Identifiers of inner loads -/

/-- The identifier of the inner load that is added for a column. The generation has the one before all
of them. -/
def innerLoadId (i : Nat) : OpId :=
  ⟨UInt64.ofNat (i + 2)⟩

theorem toNat_innerLoadId (i : Nat) : (innerLoadId i).toNat = (i + 2) % UInt64.size :=
  UInt64.toNat_ofNat'

theorem next_innerLoadId (i : Nat) : (innerLoadId i).next = innerLoadId (i + 1) := by
  rw [innerLoadId, innerLoadId, OpId.next]
  congr 1
  exact (UInt64.ofNat_add (i + 2) 1).symm

theorem innerLoadId_inj (hi : i < UInt64.size) (hj : j < UInt64.size) :
    innerLoadId i = innerLoadId j ↔ i = j := by
  refine ⟨fun h ↦ ?_, fun h ↦ h ▸ rfl⟩
  rw [← OpId.toNat_inj, toNat_innerLoadId, toNat_innerLoadId] at h
  rw [UInt64.size] at *
  omega

/-- The identifiers of the loads come round to that of the generation after the last word. -/
theorem innerLoadId_eq_iff (hi : i < UInt64.size) :
    innerLoadId i = ⟨1⟩ ↔ i + 1 = UInt64.size := by
  rw [← OpId.toNat_inj, toNat_innerLoadId]
  change _ = 1 ↔ _
  rw [UInt64.size] at *
  omega

/-! ## Building the inner plan -/

/-- The generation `1` of the plan is fed by inner loads of the columns below `width`, in order, and
there is nothing else. -/
structure IsFed (p : InnerPlan) (gen : Generate) (width : Nat) : Prop where
  width_lt : width < UInt64.size
  nextId_eq : p.nextId = innerLoadId width
  size_eq : p.size = width + 1
  get?_generation : p.get? ⟨1⟩ = some (.generate gen)
  get?_load : ∀ i < width, p.get? (innerLoadId i) = some (.innerLoad (UInt64.ofNat i))
  mem_ids : ∀ v ∈ p.ids, v = ⟨1⟩ ∨ ∃ i < width, v = innerLoadId i
  successors_load : ∀ i < width, p.successors (innerLoadId i) = [⟨1⟩]
  successors_other : ∀ v, (∀ i < width, v ≠ innerLoadId i) → p.successors v = []
  predecessors_generation : p.predecessors ⟨1⟩ = (List.range width).map innerLoadId
  predecessors_other : ∀ v, v ≠ ⟨1⟩ → p.predecessors v = []

theorem isFed_generation (gen : Generate) : IsFed (Plan.empty.add (.generate gen)).2 gen 0 where
  width_lt := by decide
  nextId_eq := rfl
  size_eq := rfl
  get?_generation := rfl
  get?_load := nofun
  mem_ids v hv := .inl ((Plan.mem_ids_add.mp hv).resolve_right nofun)
  successors_load := nofun
  successors_other _ _ := rfl
  predecessors_generation := rfl
  predecessors_other _ _ := rfl

theorem IsFed.succ (hp : IsFed p gen width)
    (h : (p.add (.innerLoad (UInt64.ofNat width))).2.connect p.nextId ⟨1⟩ = .ok q) :
    IsFed q gen (width + 1) := by
  obtain ⟨hc, rfl⟩ := Plan.connectAt_eq_ok_iff.mp h
  have hnext : p.nextId = innerLoadId width := hp.nextId_eq
  have hne : innerLoadId width ≠ ⟨1⟩ := hnext ▸ hc.source_ne_target
  -- No identifier was given twice, since the next one has not come round to the generation.
  have hlt : width + 1 < UInt64.size := by
    have := mt (innerLoadId_eq_iff hp.width_lt).mpr hne
    have := hp.width_lt
    omega
  have hold : ∀ i < width, innerLoadId i ≠ innerLoadId width := fun i hi h ↦ by
    have := (innerLoadId_inj (by omega) hp.width_lt).mp h
    omega
  have hfresh : innerLoadId width ∉ p.ids := by
    intro hmem
    rcases hp.mem_ids _ hmem with h | ⟨i, hi, h⟩
    · exact hne h
    · exact hold i hi h.symm
  have hnil : p.successors (innerLoadId width) = [] :=
    hp.successors_other _ fun i hi ↦ (hold i hi).symm
  rw [hnext]
  refine
    { width_lt := hlt
      nextId_eq := ?_
      size_eq := ?_
      get?_generation := ?_
      get?_load := fun i hi ↦ ?_
      mem_ids := fun v hv ↦ ?_
      successors_load := fun i hi ↦ ?_
      successors_other := fun v hv ↦ ?_
      predecessors_generation := ?_
      predecessors_other := fun v hv ↦ ?_ }
  · rw [Plan.nextId_insertEdge, Plan.nextId_add, hnext, next_innerLoadId]
  · rw [Plan.size_insertEdge, Plan.size, Plan.add, IdTable.size_insert, hnext]
    exact (if_neg hfresh).trans (congrArg (· + 1) hp.size_eq)
  · rw [Plan.get?_insertEdge, Plan.get?_add, hnext, if_neg hne.symm, hp.get?_generation]
  · rw [Plan.get?_insertEdge, Plan.get?_add, hnext]
    rcases Nat.lt_succ_iff_lt_or_eq.mp hi with hi | rfl
    · rw [if_neg (hold i hi), hp.get?_load i hi]
    · rw [if_pos rfl]
  · rw [Plan.ids_insertEdge] at hv
    rcases Plan.mem_ids_add.mp hv with rfl | hv
    · exact .inr ⟨width, Nat.lt_succ_self width, hnext⟩
    · rcases hp.mem_ids v hv with h | ⟨i, hi, h⟩
      · exact .inl h
      · exact .inr ⟨i, Nat.lt_succ_of_lt hi, h⟩
  · rw [Plan.successors_insertEdge]
    rcases Nat.lt_succ_iff_lt_or_eq.mp hi with hi | rfl
    · rw [if_neg (hold i hi), Plan.successors_add, hp.successors_load i hi]
    · rw [if_pos rfl, Plan.successors_add, hnil]
      rfl
  · rw [Plan.successors_insertEdge, if_neg (hv width (Nat.lt_succ_self width)), Plan.successors_add]
    exact hp.successors_other v fun i hi ↦ hv i (Nat.lt_succ_of_lt hi)
  · rw [Plan.predecessors_insertEdge, if_pos rfl, Plan.predecessors_add,
      List.insertIdx_length_self, hp.predecessors_generation, List.range_succ, List.map_append]
    rfl
  · rw [Plan.predecessors_insertEdge, if_neg hv, Plan.predecessors_add, hp.predecessors_other v hv]

theorem isFed_of_addInnerLoads (hp : IsFed p gen 0) (width : Nat) :
    ∀ {q : InnerPlan}, addInnerLoads ⟨1⟩ width p = .ok q → IsFed q gen width := by
  induction width with
  | zero =>
    intro q h
    cases h
    exact hp
  | succ width ih =>
    intro q h
    rw [addInnerLoads, List.range_succ, List.foldlM_append, ← addInnerLoads] at h
    cases hfold : addInnerLoads ⟨1⟩ width p with
    | error e =>
      rw [hfold] at h
      cases h
    | ok q₁ =>
      rw [hfold] at h
      exact (ih hfold).succ ((bind_pure _).symm.trans h)

theorem isFed_of_innerPlan {outputs : List OutputColumn} (h : innerPlan outputs = .ok q) :
    IsFed q ⟨outputs, List.replicate outputs.length false⟩ outputs.length := by
  have hmake : Generate.make outputs (List.replicate outputs.length false)
      = .ok ⟨outputs, List.replicate outputs.length false⟩ :=
    if_pos List.length_replicate.symm
  rw [innerPlan, hmake] at h
  exact isFed_of_addInnerLoads (isFed_generation _) _ h

/-! ## What has been built -/

namespace IsFed

/-- The generation is found, because all other vertices are inner loads. -/
theorem generation?_eq {w : ForEach} (h : IsFed w.inner gen width) : w.generation? = some gen := by
  have hmem : (⟨1⟩, InnerOperator.generate gen) ∈ w.inner.operators.entries :=
    IdTable.mem_entries_iff.mpr h.get?_generation
  cases hfind : w.generation? with
  | none =>
    have hnone := List.findSome?_eq_none_iff.mp hfind _ hmem
    cases hnone
  | some gen' =>
    obtain ⟨⟨v, op⟩, hv, hop⟩ := List.exists_of_findSome?_eq_some hfind
    have hget : w.inner.get? v = some op := IdTable.mem_entries_iff.mp hv
    rcases h.mem_ids v (Plan.mem_ids_iff.mpr ⟨op, hget⟩) with rfl | ⟨i, hi, rfl⟩
    · cases h.get?_generation.symm.trans hget
      exact hop.symm
    · cases (h.get?_load i hi).symm.trans hget
      cases hop

variable (hp : IsFed p gen width)
include hp

theorem innerLoadId_ne (hi : i < width) : innerLoadId i ≠ ⟨1⟩ := by
  have := hp.width_lt
  exact mt (innerLoadId_eq_iff (by omega)).mp (by omega)

/-- The vertices other than the generation are the inner loads. -/
theorem mem_ids_and_ne_iff {v : OpId} :
    v ∈ p.ids ∧ v ≠ ⟨1⟩ ↔ ∃ i < width, v = innerLoadId i := by
  refine ⟨fun h ↦ (hp.mem_ids v h.1).resolve_left h.2, ?_⟩
  rintro ⟨i, hi, rfl⟩
  exact ⟨Plan.mem_ids_iff.mpr ⟨_, hp.get?_load i hi⟩, hp.innerLoadId_ne hi⟩

theorem successors_eq (v : OpId) :
    p.successors v = if v ∈ p.ids ∧ v ≠ ⟨1⟩ then [⟨1⟩] else [] := by
  split
  · rename_i h
    obtain ⟨i, hi, rfl⟩ := hp.mem_ids_and_ne_iff.mp h
    exact hp.successors_load i hi
  · rename_i h
    exact hp.successors_other v fun i hi hv ↦ h (hp.mem_ids_and_ne_iff.mpr ⟨i, hi, hv⟩)

theorem mem_predecessors_iff (v v' : OpId) :
    v ∈ p.predecessors v' ↔ v ∈ p.ids ∧ v ≠ ⟨1⟩ ∧ v' = ⟨1⟩ := by
  rw [← and_assoc, hp.mem_ids_and_ne_iff]
  by_cases hv' : v' = ⟨1⟩
  · subst hv'
    rw [hp.predecessors_generation]
    simp [eq_comm]
  · rw [hp.predecessors_other v' hv']
    simp [hv']

theorem getElem?_predecessors (hi : i < width) :
    (p.predecessors ⟨1⟩)[i]? = some (innerLoadId i) := by
  rw [hp.predecessors_generation, List.getElem?_map, List.getElem?_range hi]
  rfl

theorem toNat_column (hi : i < width) : (UInt64.ofNat i).toNat = i :=
  UInt64.toNat_ofNat_of_lt' (Nat.lt_trans hi hp.width_lt)

end IsFed

end CastRule

end Dataflow
