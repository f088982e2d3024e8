import Dataflow.Proofs.CastRule.Inner
import Mathlib.Algebra.Group.Nat.Defs

/-!
# The for-each below an operator

The for-each that a cast rule inserts owns a plan of its own, built by adding and connecting. None
of these steps fails: the generation is there, and every inner load is new when it is connected. So
`CastRule.wrapper` fails only if the operator declares no schema or if the function for its casts
cannot be read (`exists_wrapper_eq_ok`).
-/

namespace Dataflow

/-- The declared schema has fewer than `2 ^ 63` fields, as every list that is held in memory does.
-/
def Operator.Fits (op : Operator) : Prop :=
  ∀ s, op.declared = some s → s.size < 2 ^ 63

instance (op : Operator) : Decidable op.Fits :=
  inferInstanceAs (Decidable (∀ s ∈ op.declared, s.size < 2 ^ 63))

/-- Every declared schema of a plan fits into memory. -/
def SchemasFit (p : LogicalPlan) : Prop :=
  ∀ v op, p.get? v = some op → op.Fits

theorem schemasFit_iff {p : LogicalPlan} : SchemasFit p ↔ ∀ e ∈ p.operators.entries, e.2.Fits :=
  ⟨fun h e he ↦ h e.1 e.2 (IdTable.mem_entries_iff.mp he),
    fun h v op hv ↦ h (v, op) (IdTable.mem_entries_iff.mpr hv)⟩

instance (p : LogicalPlan) : Decidable (SchemasFit p) :=
  decidable_of_iff' _ schemasFit_iff

namespace CastRule

/-! ## The inner plan -/

/-- Every inner load is new when it is connected, so each round succeeds. -/
theorem exists_addInnerLoads_eq_ok {g : OpId} {p : InnerPlan} (hp : p.Grown) (hg : g ∈ p.ids)
    (width : Nat) (hsize : p.size + width + 1 < UInt64.size) :
    ∃ q, addInnerLoads g width p = .ok q ∧ q.Grown ∧ g ∈ q.ids ∧ q.size = p.size + width := by
  -- The loads are numbered from zero, so the last one is split off and connected last.
  induction width with
  | zero => exact ⟨p, rfl, hp, hg, rfl⟩
  | succ width ih =>
    obtain ⟨q, hq, hgrown, hgq, hqsize⟩ := ih (by omega)
    let load : InnerOperator := .innerLoad (UInt64.ofNat width)
    have hne : q.nextId ≠ g := fun h ↦ hgrown.nextId_notMem_ids (h ▸ hgq)
    have hc : (q.add load).2.Connectable q.nextId ((q.add load).2.successors q.nextId).length g
        ((q.add load).2.predecessors g).length :=
      { source_mem := Plan.mem_ids_add.mpr (.inl rfl)
        target_mem := Plan.mem_ids_add.mpr (.inr hgq)
        source_ne_target := hne
        notMem_successors := by
          rw [Plan.successors_add, hgrown.successors_nextId]
          exact List.not_mem_nil
        outSlot_le := Nat.le_refl _
        inSlot_le := Nat.le_refl _ }
    refine ⟨(q.add load).2.insertEdge q.nextId _ g _, ?_,
      (hgrown.add (by omega) load).insertEdge hc, Plan.mem_ids_add.mpr (.inr hgq), ?_⟩
    · rw [addInnerLoads, List.range_succ, List.foldlM_append, ← addInnerLoads, hq]
      exact (bind_pure _).trans (Plan.connectAt_eq_ok_iff.mpr ⟨hc, rfl⟩)
    · rw [Plan.size_insertEdge, Plan.size_add hgrown.toWellFormed, hqsize]
      omega

theorem exists_innerPlan_eq_ok {outputs : List OutputColumn} (h : outputs.length < 2 ^ 63) :
    ∃ q, innerPlan outputs = .ok q ∧ q.Grown := by
  have hmake : Generate.make outputs (List.replicate outputs.length false)
      = .ok ⟨outputs, List.replicate outputs.length false⟩ :=
    if_pos List.length_replicate.symm
  let g : InnerOperator := .generate ⟨outputs, List.replicate outputs.length false⟩
  have hp : (Plan.empty.add g).2.Grown := Plan.grown_empty.add (by decide) g
  obtain ⟨q, hq, hgrown, -, -⟩ := exists_addInnerLoads_eq_ok hp
    (Plan.mem_ids_add.mpr (.inl rfl)) outputs.length (by
      rw [Plan.size_add Plan.wellFormed_empty]
      change 0 + 1 + outputs.length + 1 < 2 ^ 64
      omega)
  refine ⟨q, ?_, hgrown⟩
  rw [innerPlan, hmake]
  exact hq

/-! ## The wrapper -/

theorem length_columns (s : Schema) (d : Option Schema) (f : Option FunctionSpec) :
    (columns s d f).length = s.size := by
  rw [columns, List.length_mapIdx, Schema.size]

theorem wrapper_of_declared_eq_none {op : Operator} (h : op.declared = none) (id : OpId) :
    wrapper id op = .error (.noSchema id) := by
  rw [wrapper, h]

/-- Only the function for the casts can be missing. -/
theorem wrapper_of_converter_eq_error {op : Operator} {s : Schema} {e : Error}
    (h : op.declared = some s) (he : converter op s = .error e) (id : OpId) :
    wrapper id op = .error e := by
  rw [wrapper, h]
  change (converter op s >>= _) = _
  rw [he]
  rfl

theorem exists_wrapper_eq_ok {op : Operator} (hfit : op.Fits) {s : Schema}
    {f : Option FunctionSpec} (h : op.declared = some s) (hf : converter op s = .ok f) (id : OpId) :
    ∃ w, wrapper id op = .ok w ∧ w.inner.Grown := by
  have hlen : (columns s op.determined f).length < 2 ^ 63 := by
    rw [length_columns]
    exact hfit s h
  obtain ⟨q, hq, hgrown⟩ := exists_innerPlan_eq_ok hlen
  refine ⟨⟨op.name, q⟩, ?_, hgrown⟩
  rw [wrapper, h]
  change (converter op s >>= _) = _
  rw [hf]
  change (innerPlan (columns s op.determined f) >>= _) = _
  rw [hq]
  rfl

/-- The plan within a wrapper is as sound as one built by hand. -/
theorem grown_of_wrapper_eq_ok {op : Operator} (hfit : op.Fits) {id : OpId} {w : ForEach}
    (h : wrapper id op = .ok w) : w.inner.Grown := by
  cases hdecl : op.declared with
  | none =>
    rw [wrapper_of_declared_eq_none hdecl] at h
    cases h
  | some s =>
    cases hconv : converter op s with
    | error e =>
      rw [wrapper_of_converter_eq_error hdecl hconv] at h
      cases h
    | ok f =>
      obtain ⟨w', hw', hgrown⟩ := exists_wrapper_eq_ok hfit hdecl hconv id
      rw [hw'] at h
      cases h
      exact hgrown

/-! ## What a wrapper is made of -/

/-- A wrapper has the name of its operator, and one column for each of the operator's fields. No bound
on the schema is needed for this. -/
theorem isFed_of_wrapper_eq_ok {op : Operator} {id : OpId} {w : ForEach}
    (h : wrapper id op = .ok w) : ∃ s f, op.declared = some s ∧ converter op s = .ok f ∧
      w.name = op.name ∧
      IsFed w.inner ⟨columns s op.determined f, List.replicate s.size false⟩ s.size := by
  rcases hdecl : op.declared with _ | s
  · rw [wrapper_of_declared_eq_none hdecl] at h
    cases h
  · rw [wrapper, hdecl] at h
    change (converter op s >>= _) = _ at h
    rcases hconv : converter op s with e | f
    · rw [hconv] at h
      cases h
    · rw [hconv] at h
      change (innerPlan (columns s op.determined f) >>= _) = _ at h
      rcases hinner : innerPlan (columns s op.determined f) with e | inner
      · rw [hinner] at h
        cases h
      · rw [hinner] at h
        cases h
        have hfed := isFed_of_innerPlan hinner
        rw [length_columns] at hfed
        exact ⟨s, f, rfl, hconv, rfl, hfed⟩

theorem generation?_of_wrapper_eq_ok {op : Operator} {id : OpId} {w : ForEach}
    (h : wrapper id op = .ok w) : ∃ s f, op.declared = some s ∧ converter op s = .ok f ∧
      w.name = op.name ∧
      w.generation? = some ⟨columns s op.determined f, List.replicate s.size false⟩ := by
  obtain ⟨s, f, hdecl, hconv, hname, hfed⟩ := isFed_of_wrapper_eq_ok h
  exact ⟨s, f, hdecl, hconv, hname, hfed.generation?_eq⟩

end CastRule

end Dataflow
