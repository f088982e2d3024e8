import Dataflow.Proofs.Optimizer.Contraction
import Dataflow.Proofs.Pipeline.Build
import Mathlib.Logic.Relation

/-!
# The shape of optimized pipelines

What a document can become by optimization, whether the run succeeds or not: the operators of the
steps with a for-each below each of those that are marked (`Shaped`). In the plan of a document no
operator is marked and none is a for-each, so that every mark and every for-each is the work of the
optimizer, and `Progress` knows them all.

## No cycles

Before the run every edge goes from a smaller to a larger identifier. The for-each operators get the
largest identifiers, but they do not come last, so this is no longer true afterwards. `rank` puts
each of them right after the operator above it, and in this order every edge goes up.
-/

namespace Dataflow

/-! ## Plans without cycles -/

namespace Plan

variable {α : Type} {p : Plan α}

/-- No operator comes after itself. -/
def Acyclic (p : Plan α) : Prop :=
  ∀ v, ¬ Relation.TransGen (fun a b ↦ b ∈ p.successors a) v v

theorem acyclic_of_rank {rank : OpId → Nat} (h : ∀ a, ∀ b ∈ p.successors a, rank a < rank b) :
    p.Acyclic := by
  have hpath : ∀ {a b}, Relation.TransGen (fun a b ↦ b ∈ p.successors a) a b → rank a < rank b := by
    intro a b hab
    induction hab with
    | single hb => exact h _ _ hb
    | tail _ hb ih => exact ih.trans (h _ _ hb)
  exact fun v hv ↦ Nat.lt_irrefl _ (hpath hv)

end Plan

namespace CastRule

variable {p q : LogicalPlan} {done : List OpId} {v w : OpId} {op : Operator}

/-! ## Marks and for-each operators -/

theorem nodup_castInserted (q : LogicalPlan) : (castInserted q).Nodup :=
  (List.pairwise_map.mpr (q.operators.ascending.filter _)).nodup

/-- The for-each `w` holds the casts of `v`: it has the name of `v` and a column for every field
that `v` declares. It is all that `v` feeds, and what it feeds itself is one operator, no for-each.
-/
structure CastBy (q : LogicalPlan) (v w : OpId) : Prop where
  columns : ∃ op s f g, q.get? v = some op ∧ op.kind.isIngest = true ∧ op.isCastInserted = true ∧
    op.declared = some s ∧ q.get? w = some (.forEach f) ∧ f.name = op.name ∧
    f.generation? = some g ∧ g.outputs.length = s.size
  successors_source : q.successors v = [w]
  predecessors_eq : q.predecessors w = [v]
  successors_eq : ∃ b op, q.successors w = [b] ∧ q.get? b = some op ∧ op.kind ≠ .forEach

/-- No operator of the plan is a for-each, and none is marked. -/
def Plain (p : LogicalPlan) : Prop :=
  ∀ v op, p.get? v = some op → op.kind ≠ .forEach ∧ op.isCastInserted = false

namespace Progress

variable (hp : p.WellFormed) (hplain : Plain p) (h : Progress p done q)

include hplain h in
theorem mem_castInserted_iff_mem_done : v ∈ castInserted q ↔ v ∈ done := by
  rw [mem_castInserted_iff]
  constructor
  · rintro ⟨op, hop, hcast⟩
    rcases h.old_or_wrapper v (Plan.mem_ids_of_get? hop) with hv | ⟨u, hu, rfl⟩
    · by_contra hnew
      rw [h.get?_of_notMem_done hv hnew] at hop
      rw [(hplain v op hop).2] at hcast
      cases hcast
    · obtain ⟨-, -, f, -, -, -, -, hget, -⟩ := h.wrapped u hu
      rw [hget] at hop
      cases hop
      cases hcast
  · intro hv
    obtain ⟨op, -, -, hop, hkind, -⟩ := h.wrapped v hv
    have hget := h.get?_old v op hop
    rw [if_pos hv] at hget
    exact ⟨_, hget, Operator.isCastInserted_marked hkind⟩

include hplain h in
theorem length_castInserted : (castInserted q).length = done.length := by
  have hperm : (castInserted q).Perm done :=
    (List.perm_ext_iff_of_nodup (nodup_castInserted q) h.nodup).mpr fun _ ↦
      h.mem_castInserted_iff_mem_done hplain
  exact hperm.length_eq

/-- The operators of the plan before are no for-each operators afterwards either. -/
theorem kind_ne_forEach_of_mem_ids (hplain : Plain p) (h : Progress p done q) (hw : w ∈ p.ids)
    (hop : q.get? w = some op) : op.kind ≠ .forEach := by
  obtain ⟨op', hop'⟩ := Plan.mem_ids_iff.mp hw
  have hold := h.get?_old w op' hop'
  rw [hop] at hold
  cases hold
  split
  · rw [Operator.kind_marked]
    exact (hplain w op' hop').1
  · exact (hplain w op' hop').1

include hplain h in
theorem kind_eq_forEach_iff (hop : q.get? w = some op) :
    op.kind = .forEach ↔ ∃ v ∈ done, standIn p done v = w := by
  constructor
  · intro hkind
    rcases h.old_or_wrapper w (Plan.mem_ids_of_get? hop) with hw | ⟨v, hv, heq⟩
    · exact absurd hkind (kind_ne_forEach_of_mem_ids hplain h hw hop)
    · exact ⟨v, hv, heq.symm⟩
  · rintro ⟨v, hv, rfl⟩
    obtain ⟨-, -, f, -, -, -, -, hget, -⟩ := h.wrapped v hv
    rw [hget] at hop
    cases hop
    rfl

include hp hplain h in
theorem castBy (hv : v ∈ done) : CastBy q v (standIn p done v) := by
  obtain ⟨op, s, f, hop, hkind, hs, hw, hget, hpred, hsucc⟩ := h.wrapped v hv
  obtain ⟨sch, conv, hdecl, -, hname, hgen⟩ := generation?_of_wrapper_eq_ok hw
  have hmarked := h.get?_old v op hop
  rw [if_pos hv] at hmarked
  have hsp : s ∈ p.ids := hp.mem_ids_of_mem_successors v s (hs ▸ List.mem_singleton_self s)
  obtain ⟨b, hb⟩ := Plan.mem_ids_iff.mp (h.mem_ids_of_mem_ids hsp)
  constructor
  case columns =>
    refine ⟨op.marked, sch, f, _, hmarked, ?_, Operator.isCastInserted_marked hkind, ?_, hget, ?_,
      hgen, length_columns ..⟩
    · rwa [Operator.kind_marked]
    · rwa [Operator.declared_marked]
    · rwa [Operator.name_marked]
  case successors_source =>
    rw [h.successors_old v (h.mem_ids_of_mem_done hv), if_pos hv]
  case predecessors_eq => exact hpred
  case successors_eq => exact ⟨s, b, hsucc, hb, kind_ne_forEach_of_mem_ids hplain h hsp hb⟩

end Progress

/-! ## The order of a plan with for-each operators -/

/-- The place of an operator when every for-each comes right after the operator that it is below. -/
def rank (p q : LogicalPlan) (w : OpId) : Nat :=
  if w ∈ p.ids then 2 * w.toNat else 2 * (upstream p q w).toNat + 1

theorem Progress.rank_standIn (hp : p.WellFormed) (h : Progress p done q) (hv : v ∈ done) :
    rank p q (standIn p done v) = 2 * v.toNat + 1 := by
  rw [rank, if_neg (h.standIn_notMem_ids hp hv), h.upstream_standIn hp (h.mem_ids_of_mem_done hv)]

/-- Edges go up in rank if they went up before. -/
theorem Progress.rank_lt (hp : p.WellFormed) (hasc : ∀ a, ∀ b ∈ p.successors a, a < b)
    (h : Progress p done q) {a b : OpId} (hb : b ∈ q.successors a) : rank p q a < rank p q b := by
  rcases h.old_or_wrapper a (h.wellFormed.mem_ids_of_successor hb) with ha | ⟨v, hv, rfl⟩
  · have hrank : rank p q a = 2 * a.toNat := if_pos ha
    rw [h.successors_old a ha] at hb
    split at hb
    · rename_i hdone
      rw [List.mem_singleton] at hb
      rw [hb, hrank, h.rank_standIn hp hdone]
      exact Nat.lt_succ_self _
    · have hlt := OpId.lt_iff.mp (hasc a b hb)
      rw [hrank, rank, if_pos (hp.mem_ids_of_mem_successors a b hb)]
      omega
  · obtain ⟨-, s, -, -, -, hs, -, -, -, hsucc⟩ := h.wrapped v hv
    rw [hsucc, List.mem_singleton] at hb
    have hmem : s ∈ p.successors v := hs ▸ List.mem_singleton_self s
    have hlt := OpId.lt_iff.mp (hasc v s hmem)
    rw [hb, h.rank_standIn hp hv, rank, if_pos (hp.mem_ids_of_mem_successors v s hmem)]
    omega

end CastRule

/-! ## Optimized pipelines -/

namespace Pipeline

variable {steps : List Step} {p q : LogicalPlan} {done : List OpId} {w : OpId} {m : Nat}

open CastRule

theorem mem_map_opId_iff (hm : m < UInt64.size) :
    w ∈ (List.range m).map opId ↔ 1 ≤ w.toNat ∧ w.toNat ≤ m := by
  rw [List.mem_map]
  constructor
  · rintro ⟨k, hk, rfl⟩
    have hlt := List.mem_range.mp hk
    rw [toNat_opId (by omega)]
    omega
  · rintro ⟨hpos, hle⟩
    refine ⟨w.toNat - 1, List.mem_range.mpr (by omega), ?_⟩
    rw [← OpId.toNat_inj, toNat_opId (by omega)]
    omega

/-- A plan that has the identifiers `1, …, m` lists them in this order. -/
theorem ids_eq_map_opId (hm : m < UInt64.size)
    (h : ∀ w, w ∈ p.ids ↔ 1 ≤ w.toNat ∧ w.toNat ≤ m) : p.ids = (List.range m).map opId := by
  have hsorted : ((List.range m).map opId).Pairwise (· < ·) := by
    refine List.pairwise_map.mpr (List.pairwise_lt_range.imp_of_mem fun {j k} hj hk hlt ↦ ?_)
    rw [List.mem_range] at hj hk
    rw [OpId.lt_iff, toNat_opId (by omega), toNat_opId (by omega)]
    omega
  refine p.operators.pairwise_keys.eq_of_mem_iff hsorted fun w ↦ ?_
  exact (h w).trans (mem_map_opId_iff hm).symm

/-- The plan is one that the steps describe, with a for-each below each operator that is marked. -/
structure Shaped (steps : List Step) (q : LogicalPlan) : Prop where
  acyclic : q.Acyclic
  /-- There is one further operator for each that is marked. -/
  ids_eq : q.ids = (List.range (steps.length + (castInserted q).length)).map opId
  operator : ∀ k s, steps[k]? = some s → ∃ op, s.Denotes op ∧
    (q.get? (opId k) = some op ∨ op.kind.isIngest = true ∧ q.get? (opId k) = some op.marked)
  kind_eq_forEach_iff : ∀ w op, q.get? w = some op → (op.kind = .forEach ↔ steps.length < w.toNat)
  existsUnique_source : ∀ w f, q.get? w = some (.forEach f) → ∃! v, CastBy q v w
  existsUnique_wrapper : ∀ v ∈ castInserted q, ∃! w, CastBy q v w

theorem Described.plain (hdoc : Described steps p) : Plain p := by
  intro v op hv
  have hmem := Plan.mem_ids_of_get? hv
  rw [hdoc.ids_eq] at hmem
  obtain ⟨k, hk, rfl⟩ := List.mem_map.mp hmem
  have hlt := List.mem_range.mp hk
  obtain ⟨op', hget, hop'⟩ := hdoc.operator k _ (List.getElem?_eq_getElem hlt)
  rw [hv] at hget
  cases hget
  exact ⟨hop'.kind_ne_forEach, hop'.isCastInserted_eq_false⟩

/-- The identifiers after the run: those of the steps and those that were given out. -/
theorem mem_ids_iff_of_progress (hdoc : Described steps p)
    (hnext : p.nextId.toNat = steps.length + 1) (h : Progress p done q) :
    w ∈ q.ids ↔ 1 ≤ w.toNat ∧ w.toNat ≤ steps.length + done.length := by
  have hsteps : w ∈ p.ids ↔ 1 ≤ w.toNat ∧ w.toNat ≤ steps.length := by
    have hlt := p.nextId.toNat_lt
    rw [hdoc.ids_eq, mem_map_opId_iff (by omega)]
  have hstand := h.exists_standIn_eq_iff (w := w)
  constructor
  · intro hw
    rcases h.old_or_wrapper w hw with hold | ⟨v, hv, heq⟩
    · have hle := hsteps.mp hold
      omega
    · have hle := hstand.mp ⟨v, hv, heq.symm⟩
      omega
  · rintro ⟨hpos, hle⟩
    by_cases hold : w.toNat ≤ steps.length
    · exact h.mem_ids_of_mem_ids (hsteps.mpr ⟨hpos, hold⟩)
    · obtain ⟨v, hv, rfl⟩ := hstand.mpr (by omega)
      exact h.standIn_mem_ids hv

theorem shaped_of_progress (hdoc : Described steps p) (hnext : p.nextId.toNat = steps.length + 1)
    (h : Progress p done q) : Shaped steps q := by
  have hp := hdoc.wellFormed
  have hplain := hdoc.plain
  have hroom := q.nextId.toNat_lt
  rw [h.nextId_eq, hnext] at hroom
  constructor
  case acyclic =>
    exact Plan.acyclic_of_rank fun a b hb ↦ h.rank_lt hp hdoc.ascending hb
  case ids_eq =>
    rw [h.length_castInserted hplain]
    exact ids_eq_map_opId (by omega) fun w ↦ mem_ids_iff_of_progress hdoc hnext h
  case operator =>
    intro k s hs
    obtain ⟨op, hget, hop⟩ := hdoc.operator k s hs
    have hold := h.get?_old _ op hget
    refine ⟨op, hop, ?_⟩
    split at hold
    · rename_i hdone
      obtain ⟨op', -, -, hget', hkind, -⟩ := h.wrapped _ hdone
      rw [hget] at hget'
      cases hget'
      exact .inr ⟨hkind, hold⟩
    · exact .inl hold
  case kind_eq_forEach_iff =>
    intro w op hop
    rw [h.kind_eq_forEach_iff hplain hop, h.exists_standIn_eq_iff]
    have hle := (mem_ids_iff_of_progress hdoc hnext h).mp (Plan.mem_ids_of_get? hop)
    omega
  case existsUnique_source =>
    intro w f hw
    obtain ⟨v, hv, rfl⟩ := (h.kind_eq_forEach_iff hplain hw).mp rfl
    have hcast := h.castBy hp hplain hv
    refine ⟨v, hcast, fun v' hcast' ↦ ?_⟩
    exact List.singleton_inj.mp (hcast'.predecessors_eq.symm.trans hcast.predecessors_eq)
  case existsUnique_wrapper =>
    intro v hv
    have hcast := h.castBy hp hplain ((h.mem_castInserted_iff_mem_done hplain).mp hv)
    refine ⟨_, hcast, fun w' hcast' ↦ ?_⟩
    exact List.singleton_inj.mp (hcast'.successors_source.symm.trans hcast.successors_source)

/-- **The shape of optimized pipelines.** Whatever the settings are and however the run ends, the
plan of a document has no cycles afterwards, its steps are where they were, and its other operators
are the for-each operators of those that are marked, one for each. The bound on the number of steps
is one that every list in memory satisfies. -/
theorem shaped_of_build (doc : Pipeline) (s : Settings) {p : LogicalPlan}
    (hlen : doc.steps.length < 2 ^ 63) (h : doc.build = .ok p) :
    Shaped doc.steps ((Optimizer.withDefaultRules s).optimize p).2 := by
  have hsize : UInt64.size = 2 * 2 ^ 63 := rfl
  obtain ⟨w, hbuilt, rfl⟩ := exists_built_of_build doc (by omega) h
  have hdoc := hbuilt.described
  have hnext : w.plan.nextId.toNat = doc.steps.length + 1 := by
    rw [hbuilt.nextId_eq, toNat_opId (by omega)]
  have hagenda := length_agenda_le w.plan (enabled defaults s)
  rw [hdoc.ids_eq, List.length_map, List.length_range] at hagenda
  have hroom : w.plan.nextId.toNat + (agenda w.plan (enabled defaults s)).length < UInt64.size := by
    omega
  obtain ⟨done, hdone⟩ := exists_progress_optimize hdoc.wellFormed hroom
  exact shaped_of_progress hdoc hnext hdone

/-- A load feeds a stream, which feeds a store, and both declare what they hand over. -/
def chained : Pipeline where
  overrides := none
  steps := [
    .load (some "raw") "in.tsv" none (some [⟨"id", "int", none⟩, ⟨"note", "chararray", none⟩]) none,
    .stream none none "clean" none (some [⟨"id", "long", none⟩]),
    .store none none "out" none]

theorem shaped_of_build_chained :
    chained.steps.length < 2 ^ 63 ∧
    ∃ p, chained.build = .ok p ∧
      Shaped chained.steps ((Optimizer.withDefaultRules .default).optimize p).2 ∧
      castInserted ((Optimizer.withDefaultRules .default).optimize p).2 = [opId 0, opId 1] ∧
      ((Optimizer.withDefaultRules .default).optimize p).2.successors (opId 3) = [opId 1] := by
  have hlen : chained.steps.length < 2 ^ 63 := by decide
  have hcast : chained.build.toOption.map
      (fun p ↦ castInserted ((Optimizer.withDefaultRules .default).optimize p).2)
      = some [opId 0, opId 1] := by decide +kernel
  have hsucc : chained.build.toOption.map
      (fun p ↦ ((Optimizer.withDefaultRules .default).optimize p).2.successors (opId 3))
      = some [opId 1] := by decide +kernel
  cases hbuild : chained.build with
  | error e =>
    rw [hbuild] at hcast
    cases hcast
  | ok p =>
    rw [hbuild] at hcast hsucc
    exact ⟨hlen, p, rfl, shaped_of_build chained .default hlen hbuild, Option.some.inj hcast,
      Option.some.inj hsucc⟩

end Pipeline

end Dataflow
