import Dataflow.Proofs.Session.Marks

/-!
# Sessions that cast once

In the sessions considered here marks can be set, by hand or by cast rules, and nothing takes them
away. However they are mixed with edits of the graph, no operator is changed but by its mark, no
cast rule passes its test on an operator from its first mark on, and the applications that
optimizers report over the whole session are to different operators (`castsOnce_sessions`).

Only reported applications are counted, since an application that is asked for by itself makes no
test. It can be made to one operator again and again, and inserts one more for-each each time.
-/

namespace Dataflow

/-! ## Calls -/

/-- A call of a session in which marks are only set. With `applyIf` a rule is applied only if it
passes its test. -/
inductive MarkingCall where
  | add (op : Operator)
  | connect (source target : OpId)
  | connectAt (source : OpId) (outSlot : Nat) (target : OpId) (inSlot : Nat)
  | disconnect (source target : OpId)
  | mark (n : OpId)
  | apply (r : CastRule) (n : OpId)
  | applyIf (r : CastRule) (n : OpId)
  | optimize (rules : List CastRule) (s : Settings)

namespace MarkingCall

open CastRule

variable {p q : LogicalPlan} {v : OpId} {op : Operator} {calls done later : List MarkingCall}

/-- What is asked of a plan by the call, if anything is. -/
def request (p : LogicalPlan) : MarkingCall → Option DataflowCall
  | add op => some (.graph (.add op))
  | connect s t => some (.graph (.connect s t))
  | connectAt s i t j => some (.graph (.connectAt s i t j))
  | disconnect s t => some (.graph (.disconnect s t))
  | mark n => some (.graph (.modify n Operator.markCastInserted))
  | apply r n => some (.apply r n)
  | applyIf r n => if r.applies p n then some (.apply r n) else none
  | optimize rules s => some (.optimize rules s)

/-- The plan after a call. -/
def perform (c : MarkingCall) (p : LogicalPlan) : LogicalPlan :=
  match c.request p with
  | some d => d.perform p
  | none => p

/-- The applications that a call reports: those of a run that succeeds. -/
def report : MarkingCall → LogicalPlan → List Application
  | optimize rules s, p =>
    match ((optimizer rules s).optimize p).1 with
    | .ok done => done.applications
    | .error _ => []
  | _, _ => []

/-- The load or stream that a call adds. -/
def adds : MarkingCall → LogicalPlan → List OpId
  | add op, p => if op.kind.isIngest then [p.nextId] else []
  | _, _ => []

theorem perform_of_request_eq_some {c : MarkingCall} {d : DataflowCall}
    (h : c.request p = some d) : c.perform p = d.perform p := by
  rw [perform, h]

theorem growing : Plan.Growing perform where
  ids_subset c p := by
    rw [perform]
    split
    · exact DataflowCall.growing.ids_subset _ p
    · exact List.Subset.refl _
  grown c p hp := by
    rw [perform]
    split
    · exact DataflowCall.growing.grown _ p hp
    · exact fun _ ↦ hp

/-! ## What a call does to operators -/

/-- What a call does to the operators of a plan: nothing, or one of three things. -/
inductive Effect (p : LogicalPlan) : MarkingCall → LogicalPlan → Prop
  | same {c : MarkingCall} {q : LogicalPlan} (h : ∀ v, q.get? v = p.get? v) : Effect p c q
  | add (op : Operator) : Effect p (add op) (p.add op).2
  | mark {n : OpId} {op : Operator} (h : p.get? n = some op) :
      Effect p (mark n) (p.setOperator n op.marked)
  | cast {c : MarkingCall} {d : DataflowCall} (h : d.IsCast) : Effect p c (d.perform p)

theorem get?_orElse {p : LogicalPlan} {result : Except Error LogicalPlan}
    (h : ∀ q, result = .ok q → ∀ v, q.get? v = p.get? v) (v : OpId) :
    (p.orElse result).get? v = p.get? v :=
  Plan.orElse_induction (I := fun q ↦ q.get? v = p.get? v) rfl fun q hq ↦ h q hq v

theorem get?_orElse_connectAt (p : LogicalPlan) (s t : OpId) (i j : Nat) (v : OpId) :
    (p.orElse (p.connectAt s i t j)).get? v = p.get? v := by
  refine get?_orElse (fun q hq v ↦ ?_) v
  obtain ⟨-, rfl⟩ := Plan.connectAt_eq_ok_iff.mp hq
  exact Plan.get?_insertEdge ..

theorem effect (c : MarkingCall) (p : LogicalPlan) : Effect p c (c.perform p) := by
  cases c with
  | add op => exact .add op
  | connect s t => exact .same (get?_orElse_connectAt p s t _ _)
  | connectAt s i t j => exact .same (get?_orElse_connectAt p s t i j)
  | disconnect s t =>
    refine .same (get?_orElse fun q hq v ↦ ?_)
    obtain ⟨-, rfl⟩ := Plan.disconnect_map_eq_ok hq
    exact Plan.get?_eraseEdge ..
  | mark n =>
    change Effect p _ (p.orElse (p.modify n Operator.markCastInserted))
    cases hmark : p.modify n Operator.markCastInserted with
    | error e => exact .same fun _ ↦ rfl
    | ok q =>
      obtain ⟨op, op', hget, hop, rfl⟩ := Plan.modify_eq_ok_iff.mp hmark
      rw [Operator.eq_marked_of_markCastInserted hop]
      exact .mark hget
  | apply r n => exact .cast (d := .apply r n) trivial
  | applyIf r n =>
    by_cases h : r.applies p n = true
    · have hsome : (applyIf r n).request p = some (.apply r n) := if_pos h
      rw [perform_of_request_eq_some hsome]
      exact .cast trivial
    · have hnone : (applyIf r n).request p = none := if_neg h
      rw [perform, hnone]
      exact .same fun _ ↦ rfl
  | optimize rules s => exact .cast (d := .optimize rules s) trivial

/-- A call that runs cast rules keeps all operators. -/
theorem kept_of_isCast {d : DataflowCall} (hd : d.IsCast) (hp : p.Grown)
    (hsize : (d.perform p).size + 1 < UInt64.size) : Kept p (d.perform p) := by
  cases d with
  | graph c => cases hd
  | apply r n => exact kept_apply hp.toWellFormed r n
  | optimize rules s =>
    obtain ⟨l, hchain, -⟩ := exists_chain_optimize rules s hp hsize
    exact (marksNew_of_chain hchain hp hsize).kept

theorem kept_perform (c : MarkingCall) (hp : p.Grown)
    (hsize : (c.perform p).size + 1 < UInt64.size) : Kept p (c.perform p) := by
  have heffect := c.effect p
  generalize c.perform p = q at heffect hsize
  induction heffect with
  | same h => exact .of_get?_eq h
  | add op =>
    intro v op' hv
    have hne : v ≠ p.nextId := fun he ↦ hp.nextId_notMem_ids (he ▸ Plan.mem_ids_of_get? hv)
    rw [Plan.get?_add, if_neg hne]
    exact .inl hv
  | @mark n op h =>
    intro v op' hv
    rw [Plan.get?_setOperator]
    split
    · rename_i hvn
      rw [hvn, h] at hv
      cases hv
      exact .inr rfl
    · exact .inl hv
  | cast h => exact kept_of_isCast h hp hsize

/-- The only load or stream that is new after a call is the one that it adds. -/
theorem mem_adds_of_isIngest (c : MarkingCall) (hp : p.Grown)
    (hsize : (c.perform p).size + 1 < UInt64.size) (hnone : p.get? v = none)
    (hv : (c.perform p).get? v = some op) (hop : op.kind.isIngest = true) : v ∈ c.adds p := by
  have heffect := c.effect p
  generalize c.perform p = q at heffect hsize hv
  induction heffect with
  | same h =>
    rw [h, hnone] at hv
    cases hv
  | add op' =>
    rw [Plan.get?_add] at hv
    split at hv
    · rename_i hvn
      cases hv
      rw [adds, if_pos hop, hvn]
      exact List.mem_singleton_self _
    · rw [hnone] at hv
      cases hv
  | @mark n op' h =>
    rw [Plan.get?_setOperator] at hv
    split at hv
    · rename_i hvn
      rw [hvn, h] at hnone
      cases hnone
    · rw [hnone] at hv
      cases hv
  | cast h =>
    obtain ⟨f, rfl, -⟩ := (DataflowCall.castsFrom h hp hsize).wrapper v op hnone hv
    cases hop

/-- What a call reports marks operators that were not marked. -/
theorem marksNew_report (c : MarkingCall) (hp : p.Grown)
    (hsize : (c.perform p).size + 1 < UInt64.size) : MarksNew p (c.report p) (c.perform p) := by
  have hgrown := growing.grown c p hp hsize
  have hkept := c.kept_perform hp hsize
  have hsilent (h : c.report p = []) : MarksNew p (c.report p) (c.perform p) := by
    rw [h]
    exact ⟨hgrown, hkept, List.nodup_nil, nofun, nofun⟩
  cases c with
  | optimize rules s =>
    obtain ⟨l, hchain, hok⟩ := exists_chain_optimize rules s hp hsize
    cases hres : ((optimizer rules s).optimize p).1 with
    | error e => exact hsilent (by rw [report, hres])
    | ok done =>
      have hreport : (optimize rules s).report p = l := by
        rw [report, hres]
        exact hok done hres
      rw [hreport]
      exact marksNew_of_chain hchain hp hsize
  | _ => exact hsilent rfl

/-! ## Sessions -/

/-- What holds at the end of a session for the number of operators held throughout. -/
theorem size_replay_lt (hsize : (Plan.replay perform calls).size + 1 < UInt64.size)
    (h : done <+: calls) : (Plan.replay perform done).size + 1 < UInt64.size := by
  have hle := Plan.size_le_of_ids_subset (growing.ids_replay_subset h)
  omega

theorem kept_replay (h : done <+: later)
    (hsize : (Plan.replay perform later).size + 1 < UInt64.size) :
    Kept (Plan.replay perform done) (Plan.replay perform later) := by
  obtain ⟨rest, rfl⟩ := h
  induction rest using List.reverseRecOn with
  | nil =>
    rw [List.append_nil]
    exact .refl _
  | append_singleton rest c ih =>
    rw [← List.append_assoc] at hsize ⊢
    have hroom := size_replay_lt hsize (List.prefix_append _ [c])
    rw [Plan.replay_append_singleton] at hsize ⊢
    exact (ih hroom).trans (c.kept_perform (growing.grown_replay _ hroom) hsize)

/-- No rule applies to an operator from its first mark on. -/
theorem applies_replay_eq_false (h : done <+: later)
    (hsize : (Plan.replay perform later).size + 1 < UInt64.size)
    (hv : v ∈ castInserted (Plan.replay perform done)) (r : CastRule) :
    r.applies (Plan.replay perform later) v = false :=
  applies_eq_false_of_mem_castInserted ((kept_replay h hsize).castInserted_subset hv) r

/-! ## What is reported -/

/-- The applications that the runs of a session report. -/
def reported (calls : List MarkingCall) : List Application :=
  Plan.collect perform report calls .empty

/-- The loads and streams that are added in a session. -/
def added (calls : List MarkingCall) : List OpId :=
  Plan.collect perform adds calls .empty

theorem reported_append_singleton (calls : List MarkingCall) (c : MarkingCall) :
    reported (calls ++ [c]) = reported calls ++ c.report (Plan.replay perform calls) :=
  Plan.collect_append_singleton calls c .empty

theorem added_append_singleton (calls : List MarkingCall) (c : MarkingCall) :
    added (calls ++ [c]) = added calls ++ c.adds (Plan.replay perform calls) :=
  Plan.collect_append_singleton calls c .empty

/-- What is known of the applications that a session has reported. They are to different operators,
which are marked by now, and every load and stream there is was added by one of the calls. -/
structure Account (calls : List MarkingCall) : Prop where
  nodup : ((reported calls).map (·.node)).Nodup
  mem_castInserted : ∀ a ∈ reported calls, a.node ∈ castInserted (Plan.replay perform calls)
  mem_added : ∀ v op, (Plan.replay perform calls).get? v = some op → op.kind.isIngest = true →
    v ∈ added calls

theorem Account.append_singleton (h : Account calls) (c : MarkingCall)
    (hsize : (Plan.replay perform (calls ++ [c])).size + 1 < UInt64.size) :
    Account (calls ++ [c]) := by
  have hgrown := growing.grown_replay calls (size_replay_lt hsize (List.prefix_append calls [c]))
  rw [Plan.replay_append_singleton] at hsize
  have hmarks := c.marksNew_report hgrown hsize
  constructor
  case nodup =>
    rw [reported_append_singleton, List.map_append]
    refine List.nodup_append.mpr ⟨h.nodup, hmarks.nodup, ?_⟩
    -- What was reported before is marked by now, and what the call reports was not.
    rintro v hv _ hv' rfl
    obtain ⟨a, ha, rfl⟩ := List.mem_map.mp hv
    obtain ⟨b, hb, heq⟩ := List.mem_map.mp hv'
    exact hmarks.notMem b hb (heq ▸ h.mem_castInserted a ha)
  case mem_castInserted =>
    intro a ha
    rw [reported_append_singleton, List.mem_append] at ha
    rw [Plan.replay_append_singleton]
    rcases ha with ha | ha
    · exact hmarks.kept.castInserted_subset (h.mem_castInserted a ha)
    · exact hmarks.mem a ha
  case mem_added =>
    intro v op hv hop
    rw [Plan.replay_append_singleton] at hv
    rw [added_append_singleton, List.mem_append]
    rcases hget : (Plan.replay perform calls).get? v with _ | op'
    · exact .inr (c.mem_adds_of_isIngest hgrown hsize hget hv hop)
    · rw [hmarks.kept.kind_eq hget hv] at hop
      exact .inl (h.mem_added v op' hget hop)

theorem account (calls : List MarkingCall)
    (hsize : (Plan.replay perform calls).size + 1 < UInt64.size) : Account calls := by
  induction calls using List.reverseRecOn with
  | nil => exact ⟨List.nodup_nil, nofun, nofun⟩
  | append_singleton calls c ih =>
    exact (ih (size_replay_lt hsize (List.prefix_append calls [c]))).append_singleton c hsize

theorem Account.length_le (h : Account calls) : (reported calls).length ≤ (added calls).length := by
  have hsub : (reported calls).map (·.node) ⊆ added calls := by
    intro v hv
    obtain ⟨a, ha, rfl⟩ := List.mem_map.mp hv
    obtain ⟨op, hget, hcast⟩ := mem_castInserted_iff.mp (h.mem_castInserted a ha)
    exact h.mem_added _ op hget (Operator.isIngest_of_isCastInserted hcast)
  have hle := (h.nodup.subperm hsub).length_le
  rwa [List.length_map] at hle

/-! ## At most once -/

/-- No operator of a session is changed but by its mark, no rule applies from the first mark on, and
no two applications that are reported are to the same operator. -/
structure CastsOnce (calls : List MarkingCall) : Prop where
  kept : ∀ done later, done <+: later → later <+: calls → ∀ v op,
    (Plan.replay perform done).get? v = some op → ∃ op',
      (Plan.replay perform later).get? v = some op' ∧ (op' = op ∨ op' = op.marked) ∧
      op'.kind = op.kind ∧ op'.name = op.name ∧ op'.declared = op.declared ∧
      op'.determined = op.determined ∧ op'.outputFunction = op.outputFunction
  marked : ∀ done later, done <+: later → later <+: calls →
    ∀ v ∈ castInserted (Plan.replay perform done), v ∈ castInserted (Plan.replay perform later) ∧
      ∀ r : CastRule, r.applies (Plan.replay perform later) v = false
  /-- After an application that is asked for by itself. -/
  applied : ∀ done c later, done ++ [c] <+: later → later <+: calls → ∀ r n touched,
    c.request (Plan.replay perform done) = some (.apply r n) →
    ((r.apply n).perform (Plan.replay perform done)).1 = .ok touched →
      ∀ r' : CastRule, r'.applies (Plan.replay perform later) n = false
  /-- After a run, which may have been stopped: `l` is what it did, and all of it is reported if the
  run succeeds. -/
  optimized : ∀ done rules s later, done ++ [optimize rules s] <+: later → later <+: calls →
    ∃ l, Rule.Chain ((enabled rules s).map toRule) (Plan.replay perform done) l
        (Plan.replay perform (done ++ [optimize rules s])) ∧
      (∀ summary, ((optimizer rules s).optimize (Plan.replay perform done)).1 = .ok summary →
        summary.applications = l) ∧
      ∀ a ∈ l, ∀ r : CastRule, r.applies (Plan.replay perform later) a.node = false
  nodup_reported : ((reported calls).map (·.node)).Nodup
  length_reported_le : (reported calls).length ≤ (added calls).length

/-- **Sessions cast at most once.** No operator is ever removed, so the bound is one on the number
of operators that were added. -/
theorem castsOnce_sessions (calls : List MarkingCall)
    (hsize : (Plan.replay perform calls).size + 1 < UInt64.size) : CastsOnce calls := by
  have haccount := account calls hsize
  have hgrown : ∀ {done c later}, done ++ [c] <+: later → later <+: calls →
      (Plan.replay perform done).Grown := fun hdone hlater ↦ growing.grown_replay _
    (size_replay_lt hsize ((List.prefix_append _ _).trans (hdone.trans hlater)))
  constructor
  case kept =>
    intro done later hdone hlater v op hv
    rcases kept_replay hdone (size_replay_lt hsize hlater) v op hv with hv' | hv'
    · exact ⟨op, hv', .inl rfl, rfl, rfl, rfl, rfl, rfl⟩
    · exact ⟨op.marked, hv', .inr rfl, by simp⟩
  case marked =>
    intro done later hdone hlater v hv
    have hroom := size_replay_lt hsize hlater
    exact ⟨(kept_replay hdone hroom).castInserted_subset hv,
      applies_replay_eq_false hdone hroom hv⟩
  case applied =>
    intro done c later hdone hlater r n touched hrequest happly
    refine applies_replay_eq_false hdone (size_replay_lt hsize hlater) ?_
    rw [Plan.replay_append_singleton, perform_of_request_eq_some hrequest]
    exact mem_castInserted_of_apply (hgrown hdone hlater).toWellFormed (Prod.fst_eq_iff.mp happly)
  case optimized =>
    intro done rules s later hdone hlater
    have hafter : Plan.replay perform (done ++ [optimize rules s])
        = ((optimizer rules s).optimize (Plan.replay perform done)).2 :=
      Plan.replay_append_singleton ..
    have hroom := size_replay_lt hsize (hdone.trans hlater)
    rw [hafter] at hroom
    obtain ⟨l, hchain, hok⟩ := exists_chain_optimize rules s (hgrown hdone hlater) hroom
    have hmarks := marksNew_of_chain hchain (hgrown hdone hlater) hroom
    rw [← hafter] at hchain hmarks
    exact ⟨l, hchain, hok, fun a ha ↦
      applies_replay_eq_false hdone (size_replay_lt hsize hlater) (hmarks.mem a ha)⟩
  case nodup_reported => exact haccount.nodup
  case length_reported_le => exact haccount.length_le

/-- A load feeds a stream, which feeds a filter. The stream is given its casts by itself and the
load by a run; then the load is connected to the stream once more, and a second run finds nothing to
do. -/
def rewired : List MarkingCall :=
  [.add (.load ⟨none, ⟨"in", ⟨"PigStorage", []⟩⟩, some ⟨[.named "a" .int]⟩, none, false⟩),
    .add (.stream ⟨none, ⟨"cat", .default⟩, some ⟨[.named "b" .chararray]⟩, false⟩),
    .add (.filter ⟨none, "b is not null"⟩), .connect ⟨1⟩ ⟨2⟩, .connect ⟨2⟩ ⟨3⟩, .applyIf .all ⟨2⟩,
    .optimize defaults .default, .disconnect ⟨1⟩ ⟨5⟩, .connect ⟨1⟩ ⟨2⟩, .mark ⟨3⟩,
    .optimize [.all] .default]

theorem castsOnce_sessions_rewired :
    (Plan.replay perform rewired).size + 1 < UInt64.size ∧ CastsOnce rewired ∧
      reported rewired = [⟨"LoadTypeCastInserter", ⟨1⟩, [⟨1⟩, ⟨5⟩, ⟨2⟩]⟩] ∧
      added rewired = [⟨1⟩, ⟨2⟩] ∧
      ∀ r : CastRule, r.applies (Plan.replay perform rewired) ⟨2⟩ = false := by
  have hsize : (Plan.replay perform rewired).size + 1 < UInt64.size := by decide +kernel
  have hmem : (⟨2⟩ : OpId) ∈ castInserted (Plan.replay perform rewired) := by decide +kernel
  have honce := castsOnce_sessions rewired hsize
  exact ⟨hsize, honce, by decide +kernel, by decide +kernel,
    (honce.marked rewired rewired (List.prefix_refl _) (List.prefix_refl _) ⟨2⟩ hmem).2⟩

end MarkingCall

end Dataflow
