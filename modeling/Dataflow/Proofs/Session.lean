import Dataflow.Proofs.CastRule.Apply
import Mathlib.Data.List.Induction
import Mathlib.Data.List.Perm.Subperm

/-!
# Sessions

A session starts from the empty plan and makes calls in any order, with any arguments; a call that
fails leaves what it leaves, and the session goes on. Two kinds of sessions are considered: those of
the graph interface alone, over operators of any type, and those on dataflows, which also apply cast
rules and run optimizers.

Both rest on the same two facts about a single call (`Growing`): it removes no operator, and it keeps
a plan grown unless the counter would start over. The first turns the bound on the number of
operators at the end of a session into one on every plan that the session went through; the second
is then an induction over the calls.
-/

namespace Dataflow

namespace Plan

variable {α κ : Type} {step : κ → Plan α → Plan α}

/-! ## Calls and sessions -/

/-- The plan after a session of calls, begun with the empty plan. -/
def replay (step : κ → Plan α → Plan α) (calls : List κ) : Plan α :=
  calls.foldl (fun p c ↦ step c p) .empty

theorem replay_append_singleton (calls : List κ) (c : κ) :
    replay step (calls ++ [c]) = step c (replay step calls) := by
  rw [replay, List.foldl_append, List.foldl_cons, List.foldl_nil, replay]

/-- What the calls of a session give, each in the plan that it finds. -/
def collect {β : Type} (step : κ → Plan α → Plan α) (f : κ → Plan α → List β) :
    List κ → Plan α → List β
  | [], _ => []
  | c :: calls, p => f c p ++ collect step f calls (step c p)

theorem collect_append_singleton {β : Type} {f : κ → Plan α → List β} (calls : List κ) (c : κ) :
    ∀ p : Plan α, collect step f (calls ++ [c]) p
      = collect step f calls p ++ f c (calls.foldl (fun p c ↦ step c p) p) := by
  induction calls with
  | nil => exact fun p ↦ List.append_nil _
  | cons d calls ih =>
    intro p
    rw [List.cons_append, collect, ih, collect, List.append_assoc, List.foldl_cons]

/-- What adding an operator to a plan means for the plans before it: the identifier is new to all of
them, and nothing that was there is changed. -/
structure AddsFresh (earlier : Plan α → Prop) (p : Plan α) (op : α) : Prop where
  get?_earlier : ∀ q, earlier q → q.get? (p.add op).1 = none
  get?_new : (p.add op).2.get? (p.add op).1 = some op
  get?_old : ∀ v ∈ p.ids, (p.add op).2.get? v = p.get? v
  successors_eq : ∀ v, (p.add op).2.successors v = p.successors v
  predecessors_eq : ∀ v, (p.add op).2.predecessors v = p.predecessors v

/-- The session leaves a grown plan, and an operator added to it gets an identifier that no plan of
the session has used. -/
structure Sound (step : κ → Plan α → Plan α) (calls : List κ) : Prop where
  grown : (replay step calls).Grown
  addsFresh : ∀ op, AddsFresh (fun q ↦ ∃ done, done <+: calls ∧ q = replay step done)
    (replay step calls) op

/-- Calls that remove no operator, and that keep plans grown as long as there are fewer than
`2 ^ 64 - 1` operators. -/
structure Growing (step : κ → Plan α → Plan α) : Prop where
  ids_subset : ∀ c p, p.ids ⊆ (step c p).ids
  grown : ∀ c p, p.Grown → (step c p).size + 1 < UInt64.size → (step c p).Grown

/-! ## Runs of growing calls -/

theorem size_le_of_ids_subset {p q : Plan α} (h : p.ids ⊆ q.ids) : p.size ≤ q.size := by
  have hnodup : p.ids.Nodup := p.operators.nodup_keys
  have hle := (hnodup.subperm h).length_le
  rwa [ids, IdTable.keys, List.length_map, ids, IdTable.keys, List.length_map] at hle

namespace Growing

variable (hstep : Growing step)
include hstep

theorem ids_replay_subset {done calls : List κ} (h : done <+: calls) :
    (replay step done).ids ⊆ (replay step calls).ids := by
  obtain ⟨rest, rfl⟩ := h
  induction rest using List.reverseRecOn with
  | nil => simp
  | append_singleton rest c ih =>
    rw [← List.append_assoc, replay_append_singleton]
    exact List.Subset.trans ih (hstep.ids_subset c _)

theorem grown_replay (calls : List κ) (hsize : (replay step calls).size + 1 < UInt64.size) :
    (replay step calls).Grown := by
  induction calls using List.reverseRecOn with
  | nil => exact grown_empty
  | append_singleton calls c ih =>
    rw [replay_append_singleton] at hsize ⊢
    -- The bound is on the plan at the end, and the plans before it are no larger.
    have hle := size_le_of_ids_subset (hstep.ids_subset c (replay step calls))
    exact hstep.grown c _ (ih (by omega)) hsize

theorem sound (calls : List κ) (hsize : (replay step calls).size + 1 < UInt64.size) :
    Sound step calls where
  grown := hstep.grown_replay calls hsize
  addsFresh op := by
    have hnew := (hstep.grown_replay calls hsize).nextId_notMem_ids
    refine ⟨?_, ?_, fun v hv ↦ ?_, fun v ↦ rfl, fun v ↦ rfl⟩
    · rintro _ ⟨done, hdone, rfl⟩
      exact get?_eq_none_iff.mpr fun h ↦ hnew (hstep.ids_replay_subset hdone h)
    · rw [get?_add]
      exact if_pos rfl
    · have hne : v ≠ (replay step calls).nextId := fun h ↦ hnew (h ▸ hv)
      rw [get?_add, if_neg hne]

end Growing

/-! ## The graph interface -/

/-- A call of the graph interface; `modify` writes to the content of an operator. -/
inductive Call (α : Type) where
  | add (op : α)
  | connect (source target : OpId)
  | connectAt (source : OpId) (outSlot : Nat) (target : OpId) (inSlot : Nat)
  | disconnect (source target : OpId)
  | modify (id : OpId) (f : α → Except Error α)

/-- The plan that an operation gives, or the plan before it if it fails. -/
def orElse (p : Plan α) : Except Error (Plan α) → Plan α
  | .ok q => q
  | .error _ => p

/-- The plan after a call. -/
def Call.perform : Call α → Plan α → Plan α
  | add op, p => (p.add op).2
  | connect s t, p => p.orElse (p.connect s t)
  | connectAt s i t j, p => p.orElse (p.connectAt s i t j)
  | disconnect s t, p => p.orElse ((p.disconnect s t).map (·.2))
  | modify id f, p => p.orElse (p.modify id f)

/-- A property of the plan before a call and of every plan that the call can give holds after it. -/
theorem orElse_induction {I : Plan α → Prop} {p : Plan α} {r : Except Error (Plan α)} (hp : I p)
    (h : ∀ q, r = .ok q → I q) : I (p.orElse r) := by
  cases r with
  | ok q => exact h q rfl
  | error e => exact hp

theorem disconnect_map_eq_ok {p q : Plan α} {s t : OpId}
    (h : (p.disconnect s t).map (·.2) = .ok q) : t ∈ p.successors s ∧ q = p.eraseEdge s t := by
  cases hd : p.disconnect s t with
  | error e =>
    rw [hd] at h
    cases h
  | ok eq =>
    obtain ⟨e, q'⟩ := eq
    rw [hd] at h
    cases h
    obtain ⟨ht, -, -, hq⟩ := disconnect_eq_ok_iff.mp hd
    exact ⟨ht, hq⟩

/-- What a call can do to a plan: nothing, or one of four total operations. -/
theorem Call.perform_induction {I : Plan α → Prop} {p : Plan α} (hp : I p)
    (hadd : ∀ op, I (p.add op).2)
    (hinsert : ∀ s i t j, p.Connectable s i t j → I (p.insertEdge s i t j))
    (herase : ∀ s t, t ∈ p.successors s → I (p.eraseEdge s t))
    (hset : ∀ id op op', p.get? id = some op → I (p.setOperator id op')) (c : Call α) :
    I (c.perform p) := by
  have hconnectAt : ∀ s i t j q, p.connectAt s i t j = .ok q → I q := by
    intro s i t j q hq
    obtain ⟨hc, rfl⟩ := connectAt_eq_ok_iff.mp hq
    exact hinsert s i t j hc
  cases c with
  | add op => exact hadd op
  | connect s t => exact orElse_induction hp (hconnectAt s _ t _)
  | connectAt s i t j => exact orElse_induction hp (hconnectAt s i t j)
  | disconnect s t =>
    refine orElse_induction hp fun q hq ↦ ?_
    obtain ⟨ht, rfl⟩ := disconnect_map_eq_ok hq
    exact herase s t ht
  | modify id f =>
    refine orElse_induction hp fun q hq ↦ ?_
    obtain ⟨op, op', hget, -, rfl⟩ := modify_eq_ok_iff.mp hq
    exact hset id op op' hget

theorem Call.ids_subset (c : Call α) (p : Plan α) : p.ids ⊆ (c.perform p).ids := by
  refine c.perform_induction (I := fun q ↦ p.ids ⊆ q.ids) (List.Subset.refl _) ?_ ?_ ?_ ?_
  · exact fun op v hv ↦ mem_ids_add.mpr (.inr hv)
  · exact fun s i t j _ ↦ List.Subset.refl _
  · exact fun s t _ ↦ List.Subset.refl _
  · exact fun id op op' hget v hv ↦ (mem_ids_setOperator (mem_ids_of_get? hget)).mpr hv

theorem Call.grown (c : Call α) {p : Plan α} (hp : p.Grown) :
    (c.perform p).size + 1 < UInt64.size → (c.perform p).Grown := by
  refine c.perform_induction (I := fun q ↦ q.size + 1 < UInt64.size → q.Grown) (fun _ ↦ hp) ?_ ?_
    ?_ ?_
  · intro op hsize
    rw [size_add hp.toWellFormed] at hsize
    exact hp.add hsize op
  · exact fun s i t j hc _ ↦ hp.insertEdge hc
  · exact fun s t ht _ ↦ hp.eraseEdge ht
  · exact fun id op op' hget _ ↦ hp.setOperator (mem_ids_of_get? hget) op'

theorem growing_call : Growing (Call.perform (α := α)) :=
  ⟨Call.ids_subset, fun c _ hp ↦ c.grown hp⟩

end Plan

/-! ## Applications and runs within a session -/

namespace CastRule

theorem keeps_ids_splice (s t : OpId) (op : Operator) (p : LogicalPlan) :
    (splice s t op).Keeps (fun q ↦ p.ids ⊆ q.ids) := by
  have hadd : (Edit.add op).Keeps (fun q ↦ p.ids ⊆ q.ids) :=
    Edit.keeps_add fun q hsub v hv ↦ Plan.mem_ids_add.mpr (.inr (hsub hv))
  have hconnect : ∀ s i t j, (Edit.connectAt s i t j).Keeps (fun q ↦ p.ids ⊆ q.ids) :=
    fun s i t j ↦ Edit.keeps_connectAt fun _ _ hsub ↦ hsub
  exact hadd.bind fun w ↦ (Edit.keeps_disconnect fun _ _ hsub ↦ hsub).bind fun e ↦
    (hconnect _ _ _ _).bind fun _ ↦ (hconnect _ _ _ _).bind fun _ ↦ Edit.keeps_pure w

/-- Whatever plan a cast rule is applied to, and wherever it stops, no operator is lost. -/
theorem keeps_ids_apply (r : CastRule) (n : OpId) (p : LogicalPlan) :
    (r.apply n).Keeps (fun q ↦ p.ids ⊆ q.ids) := by
  have hmark : (Edit.markCastInserted n).Keeps (fun q ↦ p.ids ⊆ q.ids) :=
    Edit.keeps_markCastInserted fun q op op' hget _ hsub v hv ↦
      (Plan.mem_ids_setOperator (Plan.mem_ids_of_get? hget)).mpr (hsub hv)
  refine (Edit.keeps_query _).bind fun op ↦ ?_
  split
  · refine Edit.keeps_get.bind fun q ↦ ?_
    split
    · exact (Edit.keeps_query _).bind fun f ↦ (keeps_ids_splice _ _ _ p).bind fun w ↦
        hmark.bind fun _ ↦ Edit.keeps_pure _
    · exact Edit.keeps_throw _
  · exact Edit.keeps_throw _

/-- `q` is a grown plan that came from `p` by cast rules: its further operators are for-each
operators, each with a grown plan of its own. -/
structure CastsFrom (p q : LogicalPlan) : Prop extends Plan.Grown q where
  schemasFit : SchemasFit p → SchemasFit q
  wrapper : ∀ v op, p.get? v = none → q.get? v = some op →
    ∃ f, op = .forEach f ∧ (SchemasFit p → f.inner.Grown)

theorem CastsFrom.refl {p : LogicalPlan} (hp : p.Grown) : CastsFrom p p where
  toGrown := hp
  schemasFit := id
  wrapper v op hnone hsome := by
    rw [hnone] at hsome
    cases hsome

theorem CastsFrom.wrapBelow {p q : LogicalPlan} (h : CastsFrom p q) {n s : OpId} {op : Operator}
    {f : ForEach} (hsize : q.size + 2 < UInt64.size) (hget : q.get? n = some op)
    (hop : op.kind.isIngest = true) (hs : q.successors n = [s]) (hw : CastRule.wrapper n op = .ok f) :
    CastsFrom p (wrapBelow q n ⟨op, s, f⟩) := by
  have hmem : s ∈ q.successors n := hs ▸ List.mem_singleton_self s
  have hq := h.toGrown.toWellFormed
  have hwb : WrappedBelow q n s op f (CastRule.wrapBelow q n ⟨op, s, f⟩) := wrappedBelow hq hs
  refine ⟨(h.toGrown.interpose hmem hsize _).setOperator
    (Plan.mem_ids_interpose.mpr (.inr (hq.mem_ids_of_successor hmem))) _,
    fun hp v op' hv ↦ ?_, fun v op' hnone hv ↦ ?_⟩
  · by_cases hvn : v = n
    · rw [hvn, hwb.get?_node] at hv
      cases hv
      intro s' hs'
      rw [Operator.declared_marked] at hs'
      exact h.schemasFit hp n op hget s' hs'
    · by_cases hvw : v = q.nextId
      · rw [hvw, hwb.get?_wrapper] at hv
        cases hv
        exact nofun
      · rw [hwb.get?_other v hvn hvw] at hv
        exact h.schemasFit hp v op' hv
  · by_cases hvn : v = n
    · -- The node reads data, so it is not one of the for-each operators that were added.
      subst hvn
      obtain ⟨g, rfl, -⟩ := h.wrapper v op hnone hget
      cases hop
    · by_cases hvw : v = q.nextId
      · rw [hvw, hwb.get?_wrapper] at hv
        cases hv
        exact ⟨f, rfl, fun hp ↦ grown_of_wrapper_eq_ok (h.schemasFit hp n op hget) hw⟩
      · rw [hwb.get?_other v hvn hvw] at hv
        exact h.wrapper v op' hnone hv

/-- The invariant of runs. It speaks only of plans whose counter has not started over, and an
application gives such a plan only from such a plan. -/
theorem keeps_castsFrom_apply (r : CastRule) (n : OpId) (p : LogicalPlan) :
    (r.apply n).Keeps (fun q ↦ q.size + 1 < UInt64.size → CastsFrom p q) := by
  intro q hq hsize
  -- The bound holds before the application too, and so the invariant can be used there.
  have hle := Plan.size_le_of_ids_subset (keeps_ids_apply r n q q (List.Subset.refl _))
  have hq := hq (by omega)
  have hwf := hq.toGrown.toWellFormed
  rw [perform_apply hwf] at hsize ⊢
  cases hprep : r.prepare q n with
  | error e => exact hq
  | ok a =>
    obtain ⟨op, s, f⟩ := a
    obtain ⟨hget, hop, hs, hw⟩ := prepare_eq_ok_iff.mp hprep
    have hmem : s ∈ q.successors n := hs ▸ List.mem_singleton_self s
    rw [hprep] at hsize
    have hgrow : (CastRule.wrapBelow q n ⟨op, s, f⟩).size = q.size + 1 := by
      rw [CastRule.wrapBelow, Plan.size_setOperator
        (Plan.mem_ids_interpose.mpr (.inr (hwf.mem_ids_of_successor hmem))), Plan.size_interpose,
        Plan.size_add hwf]
    rw [hgrow] at hsize
    exact hq.wrapBelow hsize hget hop hs hw

end CastRule

/-- A call of a session on dataflows: one of the graph interface, an application of a cast rule with
or without its test, or a run of an optimizer with cast rules. -/
inductive DataflowCall where
  | graph (c : Plan.Call Operator)
  | apply (r : CastRule) (n : OpId)
  | optimize (rules : List CastRule) (s : Settings)

namespace DataflowCall

/-- The plan after a call. -/
def perform : DataflowCall → LogicalPlan → LogicalPlan
  | graph c, p => c.perform p
  | apply r n, p => ((r.apply n).perform p).2
  | optimize rules s, p => ((Optimizer.mk (rules.map CastRule.toRule) s).optimize p).2

/-- Whether the call runs cast rules. -/
def IsCast : DataflowCall → Prop
  | graph _ => False
  | apply .. | optimize .. => True

/-- What every application of a cast rule keeps, a call that runs cast rules keeps. -/
theorem IsCast.induction {I : LogicalPlan → Prop}
    (h : ∀ (r : CastRule) n, (r.apply n).Keeps I) {c : DataflowCall} (hc : c.IsCast)
    {p : LogicalPlan} (hp : I p) : I (c.perform p) := by
  cases c with
  | graph c => cases hc
  | apply r n => exact h r n p hp
  | optimize rules s =>
    refine Rule.keeps_iterate (fun r hr n ↦ ?_) _ p hp
    obtain ⟨r, -, rfl⟩ := List.mem_map.mp (List.mem_of_mem_filter hr)
    exact h r n

theorem ids_subset (c : DataflowCall) (p : LogicalPlan) : p.ids ⊆ (c.perform p).ids := by
  cases c with
  | graph c => exact c.ids_subset p
  | apply r n => exact r.keeps_ids_apply n p p (List.Subset.refl _)
  | optimize rules s =>
    exact IsCast.induction (I := fun q ↦ p.ids ⊆ q.ids) (fun r n ↦ r.keeps_ids_apply n p)
      (c := .optimize rules s) trivial (List.Subset.refl _)

theorem castsFrom {c : DataflowCall} (hc : c.IsCast) {p : LogicalPlan} (hp : p.Grown)
    (hsize : (c.perform p).size + 1 < UInt64.size) : CastRule.CastsFrom p (c.perform p) :=
  hc.induction (I := fun q ↦ q.size + 1 < UInt64.size → CastRule.CastsFrom p q)
    (fun r n ↦ r.keeps_castsFrom_apply n p) (fun _ ↦ .refl hp) hsize

theorem growing : Plan.Growing perform where
  ids_subset := ids_subset
  grown c p hp hsize := by
    cases c with
    | graph c => exact c.grown hp hsize
    | apply r n => exact (castsFrom (c := .apply r n) trivial hp hsize).toGrown
    | optimize rules s => exact (castsFrom (c := .optimize rules s) trivial hp hsize).toGrown

end DataflowCall

/-! ## Soundness of sessions -/

/-- **Sessions are sound.** As no operator is ever removed, the size of the plan at the end is the
number of operators that were added. If these are fewer than `2 ^ 64 - 1`, the plan is well formed,
its identifiers lie between 1 and the next one, and the next one is new to the whole session. In a
session on dataflows, whatever a call of cast rules adds is a for-each with a sound plan within. -/
theorem sound_sessions :
    (∀ (α : Type) (calls : List (Plan.Call α)),
      (Plan.replay Plan.Call.perform calls).size + 1 < UInt64.size →
        Plan.Sound Plan.Call.perform calls) ∧
    ∀ calls : List DataflowCall,
      (Plan.replay DataflowCall.perform calls).size + 1 < UInt64.size →
        Plan.Sound DataflowCall.perform calls ∧
        ∀ done c, done ++ [c] <+: calls → c.IsCast → ∀ v op,
          (Plan.replay DataflowCall.perform done).get? v = none →
          (Plan.replay DataflowCall.perform (done ++ [c])).get? v = some op →
          ∃ f, op = .forEach f ∧
            (SchemasFit (Plan.replay DataflowCall.perform done) → f.inner.Grown) := by
  refine ⟨fun α calls hsize ↦ Plan.growing_call.sound calls hsize, fun calls hsize ↦
    ⟨DataflowCall.growing.sound calls hsize, fun done c hpre hc v op hnone hsome ↦ ?_⟩⟩
  have hlater := Plan.size_le_of_ids_subset (DataflowCall.growing.ids_replay_subset hpre)
  have hearlier := Plan.size_le_of_ids_subset
    (DataflowCall.growing.ids_replay_subset (List.prefix_append done [c]))
  have hdone := DataflowCall.growing.grown_replay done (by omega)
  rw [Plan.replay_append_singleton] at hlater hsome
  exact (DataflowCall.castsFrom hc hdone (by omega)).wrapper v op hnone hsome

/-- A load with a schema feeds a filter; the edge is taken out and put back, a vertex that does not
exist is asked for, and then the default rules run. -/
def shortSession : List DataflowCall :=
  [.graph (.add (.load ⟨none, ⟨"in", ⟨"PigStorage", []⟩⟩, some ⟨[.named "a" .int]⟩, none, false⟩)),
    .graph (.add (.filter ⟨none, "a > 0"⟩)), .graph (.connect ⟨1⟩ ⟨2⟩),
    .graph (.disconnect ⟨1⟩ ⟨2⟩), .graph (.connectAt ⟨1⟩ 0 ⟨2⟩ 0), .apply .all ⟨9⟩]

theorem sound_shortSession :
    (Plan.replay DataflowCall.perform (shortSession ++ [.optimize CastRule.defaults .default])).size
        + 1 < UInt64.size ∧
      SchemasFit (Plan.replay DataflowCall.perform shortSession) ∧
      ∃ f, (Plan.replay DataflowCall.perform
          (shortSession ++ [.optimize CastRule.defaults .default])).get? ⟨3⟩ = some (.forEach f) ∧
        f.inner.Grown := by
  have hsize : (Plan.replay DataflowCall.perform
      (shortSession ++ [.optimize CastRule.defaults .default])).size + 1 < UInt64.size := by
    decide +kernel
  have hfit : SchemasFit (Plan.replay DataflowCall.perform shortSession) := by decide +kernel
  have hnone : (Plan.replay DataflowCall.perform shortSession).get? ⟨3⟩ = none := by
    decide +kernel
  have hsome : ((Plan.replay DataflowCall.perform
      (shortSession ++ [.optimize CastRule.defaults .default])).get? ⟨3⟩).isSome = true := by
    decide +kernel
  obtain ⟨op, hop⟩ := Option.isSome_iff_exists.mp hsome
  obtain ⟨f, rfl, hf⟩ := (sound_sessions.2 _ hsize).2 shortSession _ (List.prefix_refl _) trivial
    ⟨3⟩ op hnone hop
  exact ⟨hsize, hfit, f, hop, hf hfit⟩

end Dataflow
