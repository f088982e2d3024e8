import Dataflow.Proofs.Optimizer.Outcome
import Mathlib.Data.Prod.Basic

/-!
# Runs that fail

A run of an optimizer with cast rules fails at the first entry of its agenda that is not castable.
The entries before it are applied and nothing else is, so the plan that is left is the one that they
give, and the reason for the failure can be read off the plan before the run.

## Running again

In the plan that is left the operators before the failing one are marked, and the others are as they
were. What is left of an agenda after some operators were done is the agenda without them
(`agendaAfter_append`), so the agenda of the second run begins with the entry at which the first run
stopped. That entry is refused for the same reason, before anything is changed.
-/

namespace Dataflow

namespace CastRule

variable {p q : LogicalPlan} {done : List OpId} {n : OpId} {r : CastRule} {rs : List CastRule}
  {pre post : List (CastRule × OpId)} {y : CastRule × OpId} {e : Error}

/-! ## What is left of an agenda -/

/-- It does not matter in which order operators were taken. -/
theorem agendaAfter_congr (rs : List CastRule) : ∀ {taken taken' : List OpId},
    (∀ v, v ∈ taken ↔ v ∈ taken') → agendaAfter p rs taken = agendaAfter p rs taken' := by
  induction rs with
  | nil => intro taken taken' _; rfl
  | cons r rs ih =>
    intro taken taken' h
    have hmine : (r.due p).filter (· ∉ taken) = (r.due p).filter (· ∉ taken') :=
      List.filter_congr fun v _ ↦ decide_eq_decide.mpr (not_congr (h v))
    rw [agendaAfter_cons, agendaAfter_cons, hmine]
    refine congrArg (_ ++ ·) (ih fun v ↦ ?_)
    rw [List.mem_append, List.mem_append, h v]

theorem agendaAfter_append (rs : List CastRule) (extra : List OpId) : ∀ taken : List OpId,
    agendaAfter p rs (taken ++ extra)
      = (agendaAfter p rs taken).filter (fun y ↦ y.2 ∉ extra) := by
  induction rs with
  | nil => intro taken; rfl
  | cons r rs ih =>
    intro taken
    have hmine : (r.due p).filter (· ∉ taken ++ extra)
        = ((r.due p).filter (· ∉ taken)).filter (· ∉ extra) := by
      rw [List.filter_filter]
      refine List.filter_congr fun v _ ↦ ?_
      simp [and_comm]
    rw [agendaAfter_cons, agendaAfter_cons, List.filter_append, List.filter_map, ← ih, hmine]
    -- The first rule takes the same operators in the end, apart from those that were taken before.
    refine congrArg (_ ++ ·) (agendaAfter_congr rs fun v ↦ ?_)
    simp only [List.mem_append, List.mem_filter, decide_eq_true_eq]
    tauto

/-- Once the first entries of an agenda are done, the others are left. -/
theorem agendaAfter_of_agenda_eq (hx : agenda p rs = pre ++ post) :
    agendaAfter p rs (pre.map (·.2)) = post := by
  have hnodup := nodup_agendaAfter (p := p) rs (List.nodup_nil (α := OpId))
  rw [List.nil_append, ← agenda, hx, List.map_append, List.nodup_append] at hnodup
  have hpre : pre.filter (fun y ↦ y.2 ∉ pre.map (·.2)) = [] := by
    refine List.filter_eq_nil_iff.mpr fun y hy ↦ ?_
    simpa using ⟨y.1, hy⟩
  have hpost : post.filter (fun y ↦ y.2 ∉ pre.map (·.2)) = post := by
    refine List.filter_eq_self.mpr fun y hy ↦ decide_eq_true fun hmem ↦ ?_
    exact hnodup.2.2 y.2 hmem y.2 (List.mem_map_of_mem hy) rfl
  rw [← List.nil_append (pre.map _), agendaAfter_append, ← agenda, hx, List.filter_append, hpre,
    hpost, List.nil_append]

/-! ## Refusals on the agenda -/

/-- What is refused at the start is refused in a plan in progress, for the same reason. -/
theorem perform_apply_of_refused (h : Progress p done q) (hn : n ∈ p.ids) (hnew : n ∉ done)
    (he : r.prepare p n = .error e) : (r.apply n).perform q = (.error e, q) := by
  rw [perform_apply h.wellFormed, prepare_of_progress h hn hnew, he]

/-- Working through an agenda stops at the first entry that is refused, with the plan that the
entries before it give. -/
theorem perform_castAll_of_refused (hp : p.WellFormed) (hpend : Pending p [] (pre ++ y :: post))
    (hall : ∀ z ∈ pre, ∃ a, z.1.prepare p z.2 = .ok a) (hy : y.1.prepare p y.2 = .error e) :
    ∃ q, (castAll pre).perform p = (.ok (record p 0 pre), q) ∧ Progress p (pre.map (·.2)) q ∧
      (castAll (pre ++ y :: post)).perform p = (.error e, q) := by
  obtain ⟨hpre, hrest⟩ := hpend.append
  rw [List.nil_append] at hrest
  have hnew : y.2 ∉ pre.map (·.2) := hrest.notMem_done
  have hend := ending_castAll hp pre (.refl hp) hpre
  generalize hres : (castAll pre).perform p = res at hend
  cases hend with
  | @refused _ _ z _ _ hx _ hz _ =>
    obtain ⟨a, ha⟩ := hall z (hx ▸ by simp)
    rw [hz] at ha
    cases ha
  | @finished q _ hq =>
    rw [List.nil_append] at hq
    refine ⟨q, rfl, hq, ?_⟩
    have hstop := perform_apply_of_refused hq (hrest.mem_ids y List.mem_cons_self) hnew hy
    have hrefused : (castAll (y :: post)).perform q = (.error e, q) :=
      Edit.perform_bind_of_error hstop _
    rw [castAll_append, Edit.perform_bind_of_ok hres, Edit.perform_bind_of_error hrefused]

/-- A pass over the plan that a failed run has left fails at the same entry and changes nothing. -/
theorem perform_iterate_of_refused (hp : p.WellFormed)
    (hroom : p.nextId.toNat + (agenda p rs).length < UInt64.size)
    (hx : agenda p rs = pre ++ y :: post) (h : Progress p (pre.map (·.2)) q)
    (hy : y.1.prepare p y.2 = .error e) (m : Nat) :
    (Rule.iterate (rs.map toRule) (m + 1)).perform q = (.error e, q) := by
  have hpend := pending_agenda hroom
  rw [hx] at hpend
  have hrest := hpend.append.2
  have hleft := agendaAfter_of_agenda_eq hx
  have hnew : y.2 ∉ pre.map (·.2) := hrest.notMem_done
  have hpass := perform_runAll hp rs h (by rwa [hleft])
  have hstop := perform_apply_of_refused h (hrest.mem_ids y List.mem_cons_self) hnew hy
  have hrefused : (castAll (y :: post)).perform q = (.error e, q) :=
    Edit.perform_bind_of_error hstop _
  rw [hleft, hrefused] at hpass
  rw [Rule.iterate, Edit.perform_bind_of_error hpass]

/-! ## The failure of a run -/

/-- **How a run fails.** The agenda has a first entry that is not castable. Its error is the one
that applying the rule to the plan before the run gives: the operator does not have exactly one
reader, or it has one and the function that reads the output of its command cannot be read. The plan
that is left is the one that the entries before it give, and to run the optimizer again on it gives
the same error and changes nothing. -/
theorem failure_optimize (rules : List CastRule) (s : Settings) (hp : p.WellFormed)
    (hfit : SchemasFit p) (hm : 1 ≤ s.maxIterations.toNat)
    (hroom : p.nextId.toNat + (agenda p (enabled rules s)).length < UInt64.size)
    (h : (optimizer rules s).optimize p = (.error e, q)) :
    ∃ pre r n post, agenda p (enabled rules s) = pre ++ (r, n) :: post ∧
      (∀ y ∈ pre, Castable p y.2) ∧ r.applies p n = true ∧
      ((r.apply n).perform p).1 = .error e ∧
      (((p.successors n).length ≠ 1 ∧
          e = .successorCount r.name n (p.successors n).length ∧ e.category = .plan) ∨
        ((p.successors n).length = 1 ∧ ∃ st, p.get? n = some (.stream st) ∧
          FunctionSpec.parse st.command.output.text = .error e ∧ e.category = .config)) ∧
      (castAll pre).perform p = (.ok (record p 0 pre), q) ∧
      (optimizer rules s).optimize q = (.error e, q) := by
  have hpend := pending_agenda hroom
  have hend := ending_castAll hp _ (.refl hp) hpend
  rw [optimize_eq hp hroom hm] at h
  generalize hres : (castAll (agenda p (enabled rules s))).perform p = res at hend h
  cases hend with
  | finished => cases h
  | @refused pre post y e' q' hx hall hy _ =>
    cases h
    rw [hx] at hpend hres
    obtain ⟨q'', hdone, hq, hstop⟩ := perform_castAll_of_refused hp hpend hall hy
    obtain rfl : q'' = q := congrArg Prod.snd (hstop.symm.trans hres)
    have hmem : ∀ z ∈ pre ++ y :: post, z.2 ∈ z.1.due p := fun z hz ↦
      (mem_agendaAfter (hx ▸ hz)).2.1
    have hdue : y.2 ∈ y.1.due p := hmem y (by simp)
    refine ⟨pre, y.1, y.2, post, hx, fun z hz ↦ ?_, ?_, ?_, reason_of_due hfit hdue hy, hdone, ?_⟩
    · exact (exists_prepare_eq_ok_iff hfit (hmem z (List.mem_append_left _ hz))).mp (hall z hz)
    · exact (applies_iff (.refl hp)).mpr ⟨hdue, List.not_mem_nil⟩
    · rw [perform_apply_of_refused (.refl hp) (mem_ids_of_mem_due hdue) List.not_mem_nil hy]
    · obtain ⟨m, hm⟩ := Nat.exists_eq_succ_of_ne_zero (Nat.ne_of_gt hm)
      rw [optimize_eq_perform_iterate, hm]
      exact perform_iterate_of_refused hp hroom hx hq hy m

/-- A load feeds a stream whose output cannot be read, and the stream feeds a store. -/
def unreadablePlan : LogicalPlan where
  operators := .ofList
    [(⟨1⟩, .load ⟨none, ⟨"in", ⟨"PigStorage", []⟩⟩, some ⟨[.named "a" .int]⟩, none, false⟩),
      (⟨2⟩, .stream ⟨none, ⟨"cat", ⟨"PigStreaming("⟩⟩, some ⟨[.named "b" .chararray]⟩, false⟩),
      (⟨3⟩, .store ⟨none, ⟨"out", ⟨"PigStorage", []⟩⟩⟩)]
  outgoing := .ofList [(⟨1⟩, [⟨2⟩]), (⟨2⟩, [⟨3⟩])]
  incoming := .ofList [(⟨2⟩, [⟨1⟩]), (⟨3⟩, [⟨2⟩])]
  nextId := ⟨4⟩

theorem failure_optimize_unreadablePlan :
    unreadablePlan.WellFormed ∧ SchemasFit unreadablePlan ∧
      1 ≤ Settings.default.maxIterations.toNat ∧
      unreadablePlan.nextId.toNat + (agenda unreadablePlan (enabled defaults .default)).length
        < UInt64.size ∧
      ∃ e q, (optimizer defaults .default).optimize unreadablePlan = (.error e, q) ∧
        e.message = "Invalid configuration: unterminated function spec 'PigStreaming('" ∧
        q.ids = [⟨1⟩, ⟨2⟩, ⟨3⟩, ⟨4⟩] ∧
        (optimizer defaults .default).optimize q = (.error e, q) := by
  have hp : unreadablePlan.WellFormed := by decide
  have hfit : SchemasFit unreadablePlan := by decide
  have hm : 1 ≤ Settings.default.maxIterations.toNat := by decide
  have hroom : unreadablePlan.nextId.toNat
      + (agenda unreadablePlan (enabled defaults .default)).length < UInt64.size := by
    decide +kernel
  let e : Error := .functionSpec .unterminated "PigStreaming("
  have herror : ((optimizer defaults .default).optimize unreadablePlan).1 = .error e := by
    decide +kernel
  have hids : ((optimizer defaults .default).optimize unreadablePlan).2.ids
      = [⟨1⟩, ⟨2⟩, ⟨3⟩, ⟨4⟩] := by
    decide +kernel
  have hmessage : e.message
      = "Invalid configuration: unterminated function spec 'PigStreaming('" := by
    decide +kernel
  have hrun := Prod.fst_eq_iff.mp herror
  obtain ⟨_, _, _, _, -, -, -, -, -, -, hagain⟩ :=
    failure_optimize defaults .default hp hfit hm hroom hrun
  exact ⟨hp, hfit, hm, hroom, _, _, hrun, hmessage, hids, hagain⟩

end CastRule

end Dataflow
