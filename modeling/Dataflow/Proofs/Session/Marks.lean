import Dataflow.Proofs.Optimizer.Chain
import Dataflow.Proofs.Optimizer.Outcome
import Dataflow.Proofs.Session

/-!
# Marks

A mark says that an operator has been given its casts. Cast rules set marks and never take one away,
and they write to nothing else in an operator (`Kept`). No rule passes its test on an operator that
is marked, so the applications in a run are to different operators, none of which was marked before
(`MarksNew`).

Nothing but the number of operators is asked of the plan afterwards. The agenda of the run plays no
part, so there need not be identifiers for all of it: a run that is stopped early is a chain too.
-/

namespace Dataflow

namespace CastRule

variable {p q q' : LogicalPlan} {n s v : OpId} {op op' : Operator} {f : ForEach} {r : CastRule}
  {rules : List CastRule} {touched : List OpId} {l : List Application}

/-! ## Operators that are kept -/

/-- Every operator of `p` is in `q`, where at most it has been marked. -/
def Kept (p q : LogicalPlan) : Prop :=
  ∀ v op, p.get? v = some op → q.get? v = some op ∨ q.get? v = some op.marked

theorem Kept.of_get?_eq (h : ∀ v, q.get? v = p.get? v) : Kept p q :=
  fun v _ hv ↦ .inl ((h v).trans hv)

theorem Kept.refl (p : LogicalPlan) : Kept p p :=
  .of_get?_eq fun _ ↦ rfl

theorem Kept.trans (h : Kept p q) (h' : Kept q q') : Kept p q' := by
  intro v op hv
  rcases h v op hv with hq | hq
  · exact h' v op hq
  · have hq' := h' v op.marked hq
    rw [Operator.marked_marked, or_self] at hq'
    exact .inr hq'

theorem Kept.kind_eq (h : Kept p q) (hp : p.get? v = some op) (hq : q.get? v = some op') :
    op'.kind = op.kind := by
  rcases h v op hp with hv | hv
  · rw [hq] at hv
    cases hv
    rfl
  · rw [hq] at hv
    cases hv
    exact op.kind_marked

/-- A mark that is set stays. -/
theorem Kept.castInserted_subset (h : Kept p q) : castInserted p ⊆ castInserted q := by
  intro v hv
  obtain ⟨op, hget, hcast⟩ := mem_castInserted_iff.mp hv
  have hq := h v op hget
  rw [Operator.marked_of_isCastInserted hcast, or_self] at hq
  exact mem_castInserted_iff.mpr ⟨op, hq, hcast⟩

/-- No rule applies to a marked operator. -/
theorem applies_eq_false_of_mem_castInserted (h : v ∈ castInserted p) (r : CastRule) :
    r.applies p v = false := by
  obtain ⟨op, hget, hcast⟩ := mem_castInserted_iff.mp h
  rw [applies, hget]
  change (r.targets op.kind && wants op) = false
  rw [wants_of_isCastInserted hcast, Bool.and_false]

/-! ## One application -/

theorem WrappedBelow.kept (hp : p.WellFormed) (hget : p.get? n = some op)
    (h : WrappedBelow p n s op f q) : Kept p q := by
  intro v op' hv
  by_cases hvn : v = n
  · subst hvn
    rw [hget] at hv
    cases hv
    exact .inr h.get?_node
  · have hne : v ≠ p.nextId := fun he ↦ hp.nextId_notMem_ids (he ▸ Plan.mem_ids_of_get? hv)
    exact .inl ((h.get?_other v hvn hne).trans hv)

theorem exists_wrappedBelow_of_apply (hp : p.WellFormed)
    (h : (r.apply n).perform p = (.ok touched, q)) :
    ∃ s op f, p.get? n = some op ∧ op.kind.isIngest = true ∧ WrappedBelow p n s op f q := by
  rw [perform_apply hp] at h
  split at h
  · rename_i a hprep
    obtain ⟨op, s, f⟩ := a
    obtain ⟨hget, hop, hs, -⟩ := prepare_eq_ok_iff.mp hprep
    cases h
    exact ⟨s, op, f, hget, hop, wrappedBelow hp hs⟩
  · cases h

theorem eq_of_apply_refused {e : Error} (hp : p.WellFormed)
    (h : (r.apply n).perform p = (.error e, q)) : q = p := by
  rw [perform_apply hp] at h
  split at h
  · cases h
  · cases h
    rfl

theorem kept_apply (hp : p.WellFormed) (r : CastRule) (n : OpId) :
    Kept p ((r.apply n).perform p).2 := by
  rcases hperf : (r.apply n).perform p with ⟨e | touched, q⟩
  · rw [eq_of_apply_refused hp hperf]
    exact .refl p
  · obtain ⟨s, op, f, hget, -, hwb⟩ := exists_wrappedBelow_of_apply hp hperf
    exact hwb.kept hp hget

theorem mem_castInserted_of_apply (hp : p.WellFormed)
    (h : (r.apply n).perform p = (.ok touched, q)) : n ∈ castInserted q := by
  obtain ⟨s, op, f, -, hop, hwb⟩ := exists_wrappedBelow_of_apply hp h
  exact mem_castInserted_iff.mpr ⟨_, hwb.get?_node, Operator.isCastInserted_marked hop⟩

/-! ## Chains of applications -/

theorem ids_subset_of_apply {result : Except Error (List OpId)}
    (h : (r.apply n).perform p = (result, q)) : p.ids ⊆ q.ids := by
  have hsub := r.keeps_ids_apply n p p (List.Subset.refl _)
  rwa [h] at hsub

theorem grown_of_apply {result : Except Error (List OpId)} (hp : p.Grown)
    (h : (r.apply n).perform p = (result, q)) (hsize : q.size + 1 < UInt64.size) : q.Grown := by
  have hgrown := DataflowCall.growing.grown (.apply r n) p hp
  rw [DataflowCall.perform, h] at hgrown
  exact hgrown hsize

theorem ids_subset_of_chain (h : Rule.Chain (rules.map toRule) p l q) : p.ids ⊆ q.ids := by
  induction h with
  | nil => exact List.Subset.refl _
  | cons mem _ edit _ ih =>
    obtain ⟨r, -, rfl⟩ := List.mem_map.mp mem
    exact List.Subset.trans (ids_subset_of_apply edit) ih

/-- A chain of applications that leads from `p` to `q` keeps all operators, and it has marked
different operators, none of which was marked before. -/
structure MarksNew (p : LogicalPlan) (l : List Application) (q : LogicalPlan) : Prop where
  grown : q.Grown
  kept : Kept p q
  nodup : (l.map (·.node)).Nodup
  notMem : ∀ a ∈ l, a.node ∉ castInserted p
  mem : ∀ a ∈ l, a.node ∈ castInserted q

theorem marksNew_of_chain (h : Rule.Chain (rules.map toRule) p l q) :
    p.Grown → q.size + 1 < UInt64.size → MarksNew p l q := by
  induction h with
  | nil =>
    intro hp _
    exact ⟨hp, .refl _, List.nodup_nil, nofun, nofun⟩
  | @cons r n touched l p p' q mem test edit rest ih =>
    intro hp hsize
    obtain ⟨r, -, rfl⟩ := List.mem_map.mp mem
    have hle := Plan.size_le_of_ids_subset (ids_subset_of_chain rest)
    have hrest := ih (grown_of_apply hp edit (by omega)) hsize
    have hkept : Kept p p' := by
      have hkept := kept_apply hp.toWellFormed r n
      rwa [show (r.apply n).perform p = (.ok touched, p') from edit] at hkept
    have hmark : n ∈ castInserted p' := mem_castInserted_of_apply hp.toWellFormed edit
    -- The rest of the chain passes its tests where the operator is marked already.
    have hnew : n ∉ l.map (·.node) := by
      intro hn
      obtain ⟨a, ha, rfl⟩ := List.mem_map.mp hn
      exact hrest.notMem a ha hmark
    have htest : n ∉ castInserted p := by
      intro hn
      have hfalse := applies_eq_false_of_mem_castInserted hn r
      rw [show r.applies p n = true from test] at hfalse
      cases hfalse
    refine ⟨hrest.grown, hkept.trans hrest.kept, List.nodup_cons.mpr ⟨hnew, hrest.nodup⟩, ?_, ?_⟩
    · refine List.forall_mem_cons.mpr ⟨htest, fun a ha hmem ↦ ?_⟩
      exact hrest.notMem a ha (hkept.castInserted_subset hmem)
    · exact List.forall_mem_cons.mpr ⟨hrest.kept.castInserted_subset hmark, hrest.mem⟩

/-- A run of an optimizer is a chain, whether it succeeds or not: the application that stops it
leaves the plan alone. -/
theorem exists_chain_optimize (rules : List CastRule) (s : Settings) (hp : p.Grown)
    (hsize : ((optimizer rules s).optimize p).2.size + 1 < UInt64.size) :
    ∃ l, Rule.Chain ((enabled rules s).map toRule) p l ((optimizer rules s).optimize p).2 ∧
      ∀ done, ((optimizer rules s).optimize p).1 = .ok done → done.applications = l := by
  have hend := Rule.ended_iterate ((enabled rules s).map toRule) s.maxIterations.toNat p
  rw [optimize_eq_perform_iterate] at hsize ⊢
  generalize (Rule.iterate _ _).perform p = res at hend hsize
  induction hend with
  | ok chain => exact ⟨_, chain, fun done h ↦ congrArg Summary.applications (Except.ok.inj h).symm⟩
  | refused chain mem _ edit =>
    obtain ⟨r, -, rfl⟩ := List.mem_map.mp mem
    have hle := Plan.size_le_of_ids_subset (ids_subset_of_apply edit)
    have hgrown := (marksNew_of_chain chain hp (by simp only at hsize; omega)).grown
    rw [eq_of_apply_refused hgrown.toWellFormed edit]
    exact ⟨_, chain, nofun⟩

end CastRule

end Dataflow
