import Dataflow.Proofs.Optimizer.Progress
import Mathlib.Data.List.Perm.Subperm
import Mathlib.Data.List.Sort

/-!
# The agenda of a pass

A pass over cast rules takes the operators it looks at from the plan of the moment, and tests each of
them on the plan of its own turn. Neither matters in the end: `agenda` is read off the plan before
the pass, and `perform_runAll` says that the pass makes exactly the applications on it, one after the
other, until one is refused.

Three facts are behind this, all of them about a plan in `Progress`. The pattern of a rule covers
what its test accepts, so looking only at candidates hides nothing (`filter_candidates`). The test
accepts an operator in such a plan if and only if it did so before and the operator is not done
(`applies_iff`); in particular it never accepts a for-each. And what an application to an operator
reads has not changed either, so it is refused now if and only if it would have been at the start.
-/

namespace Dataflow

namespace CastRule

variable {p q : LogicalPlan} {done : List OpId} {n v : OpId} {r : CastRule}

/-! ## What a rule is due for -/

/-- The operators that a rule is due for, in ascending order: those of a kind that it targets with a
declared field that calls for the rule and without casts. -/
def due (r : CastRule) (p : LogicalPlan) : List OpId :=
  (p.operators.entries.filter fun (_, op) ↦ r.targets op.kind && wants op).map (·.1)

/-- The rules with what they are due for, where an operator is left to the first rule that is due
for it and those in `taken` to none. -/
def agendaAfter (p : LogicalPlan) : List CastRule → List OpId → List (CastRule × OpId)
  | [], _ => []
  | r :: rs, taken =>
    let mine := (r.due p).filter (· ∉ taken)
    mine.map (r, ·) ++ agendaAfter p rs (taken ++ mine)

/-- Which rule is to be applied to which operator, rule by rule and then in ascending order. -/
def agenda (p : LogicalPlan) (rs : List CastRule) : List (CastRule × OpId) :=
  agendaAfter p rs []

theorem wants_iff {op : Operator} : wants op = true ↔
    ∃ s, op.declared = some s ∧ op.isCastInserted = false ∧
      ∃ i g, s.fields[i]? = some g ∧ needsWork g op.determined i = true := by
  rw [wants]
  cases op.declared with
  | none => simp
  | some s =>
    rw [Bool.and_eq_true, Bool.not_eq_true', List.any_eq_true]
    constructor
    · rintro ⟨hcast, c, hc, hid⟩
      obtain ⟨i, hi, rfl⟩ := List.mem_mapIdx.mp hc
      exact ⟨s, rfl, hcast, i, _, List.getElem?_eq_getElem hi, hid⟩
    · rintro ⟨s', hs', hcast, i, g, hg, hwork⟩
      cases hs'
      obtain ⟨hi, rfl⟩ := List.getElem?_eq_some_iff.mp hg
      exact ⟨hcast, _, List.mem_mapIdx.mpr ⟨i, hi, rfl⟩, hwork⟩

theorem mem_due_iff : n ∈ r.due p ↔
    ∃ op, p.get? n = some op ∧ r.targets op.kind = true ∧ wants op = true := by
  rw [due, IdTable.mem_map_fst_filter_iff]
  simp only [Bool.and_eq_true, Plan.get?]

theorem mem_ids_of_mem_due (h : n ∈ r.due p) : n ∈ p.ids := by
  obtain ⟨op, hget, -⟩ := mem_due_iff.mp h
  exact Plan.mem_ids_of_get? hget

theorem pairwise_due (r : CastRule) (p : LogicalPlan) : (r.due p).Pairwise (· < ·) :=
  List.pairwise_map.mpr (p.operators.ascending.filter _)

/-! ## What the rules find in a plan in progress -/

theorem matchesOperator_pattern (r : CastRule) (op : Operator) :
    r.pattern.matchesOperator op = r.targets op.kind := by
  rw [pattern, targets]
  cases r.target with
  | none => rfl
  | some k => exact decide_eq_decide.mpr eq_comm

theorem wants_of_isCastInserted {op : Operator} (h : op.isCastInserted = true) :
    wants op = false := by
  rw [Bool.eq_false_iff, ne_eq, wants_iff]
  rintro ⟨s, -, hcast, -⟩
  rw [h] at hcast
  cases hcast

/-- A rule accepts what it was due for at the start and what is not done. -/
theorem applies_iff (h : Progress p done q) :
    r.applies q v = true ↔ v ∈ r.due p ∧ v ∉ done := by
  by_cases hv : v ∈ p.ids
  · obtain ⟨op, hop⟩ := Plan.mem_ids_iff.mp hv
    rw [applies, h.get?_old v op hop]
    by_cases hvd : v ∈ done
    · obtain ⟨op', -, -, hop', hkind, -⟩ := h.wrapped v hvd
      rw [hop] at hop'
      cases hop'
      simp [hvd, wants_of_isCastInserted (Operator.isCastInserted_marked hkind)]
    · simp [hvd, mem_due_iff, hop]
  · have hnotdue : v ∉ r.due p := mt mem_ids_of_mem_due hv
    rw [applies]
    cases hq : q.get? v with
    | none => simp [hnotdue]
    | some op =>
      rcases h.old_or_wrapper v (Plan.mem_ids_of_get? hq) with hold | ⟨u, hu, rfl⟩
      · exact absurd hold hv
      · obtain ⟨-, -, f, -, -, -, -, hgetw, -⟩ := h.wrapped u hu
        rw [hgetw] at hq
        cases hq
        simp [hnotdue, wants, Operator.declared]

/-- The candidates of a rule hide nothing that it is still due for. -/
theorem filter_candidates (h : Progress p done q) :
    (r.pattern.candidates q).filter (fun v ↦ v ∈ r.due p ∧ v ∉ done)
      = (r.due p).filter (· ∉ done) := by
  have hcand : (r.pattern.candidates q).Pairwise (· < ·) :=
    List.pairwise_map.mpr (q.operators.ascending.filter _)
  refine List.Pairwise.eq_of_mem_iff (hcand.filter _) ((pairwise_due r p).filter _) fun v ↦ ?_
  rw [List.mem_filter, List.mem_filter]
  simp only [decide_eq_true_eq]
  refine ⟨fun hv ↦ hv.2, fun hv ↦ ⟨?_, hv⟩⟩
  obtain ⟨op, hop, htarget, -⟩ := mem_due_iff.mp hv.1
  have hget := h.get?_old v op hop
  rw [if_neg hv.2] at hget
  exact IdTable.mem_map_fst_filter_iff.mpr
    ⟨op, hget, (matchesOperator_pattern r op).trans htarget⟩

/-! ## Working through an agenda -/

/-- Applies rules to operators, one after the other. -/
def castAll : List (CastRule × OpId) → Edit (List Application)
  | [] => return []
  | (r, n) :: rest => do
    let touched ← r.apply n
    let done ← castAll rest
    return ⟨r.name, n, touched⟩ :: done

/-- The record of applications to operators of `p`, the first of which makes the for-each that comes
`k` places after the next identifier of `p`. -/
def record (p : LogicalPlan) (k : Nat) (x : List (CastRule × OpId)) : List Application :=
  x.mapIdx fun i (r, n) ↦ ⟨r.name, n, n :: p.nextId.plus (k + i) :: p.successors n⟩

theorem record_cons (k : Nat) (x : List (CastRule × OpId)) :
    record p k ((r, n) :: x)
      = ⟨r.name, n, n :: p.nextId.plus k :: p.successors n⟩ :: record p (k + 1) x := by
  rw [record, List.mapIdx_cons, record]
  simp only [Nat.add_zero, Nat.add_right_comm, Nat.add_assoc]

/-- An agenda that can be worked through after `done`: operators of the plan, each of them once and
not done, and an identifier for the for-each below each of them. -/
structure Pending (p : LogicalPlan) (done : List OpId) (x : List (CastRule × OpId)) : Prop where
  mem_ids : ∀ y ∈ x, y.2 ∈ p.ids
  nodup : (done ++ x.map (·.2)).Nodup
  room : p.nextId.toNat + (done.length + x.length) < UInt64.size

theorem Pending.append {x y : List (CastRule × OpId)} (h : Pending p done (x ++ y)) :
    Pending p done x ∧ Pending p (done ++ x.map (·.2)) y := by
  have hnodup := h.nodup
  have hroom := h.room
  rw [List.map_append, ← List.append_assoc] at hnodup
  rw [List.length_append] at hroom
  refine ⟨⟨fun z hz ↦ h.mem_ids z (List.mem_append_left _ hz), hnodup.of_append_left, by omega⟩,
    ⟨fun z hz ↦ h.mem_ids z (List.mem_append_right _ hz), hnodup, ?_⟩⟩
  rw [List.length_append, List.length_map]
  omega

/-- The operator that comes next is not done. -/
theorem Pending.notMem_done {x : List (CastRule × OpId)} {y : CastRule × OpId}
    (h : Pending p done (y :: x)) : y.2 ∉ done := by
  intro hmem
  exact (List.nodup_append.mp h.nodup).2.2 y.2 hmem y.2 (by simp) rfl

/-- How an agenda ends: with the record of all of it, or at the first application that is refused,
and either way with the plan in which what came before is done. -/
inductive Ending (p : LogicalPlan) (done : List OpId) (x : List (CastRule × OpId)) :
    Except Error (List Application) × LogicalPlan → Prop
  | finished {q : LogicalPlan} (hall : ∀ y ∈ x, ∃ a, y.1.prepare p y.2 = .ok a)
      (hq : Progress p (done ++ x.map (·.2)) q) : Ending p done x (.ok (record p done.length x), q)
  | refused {pre post : List (CastRule × OpId)} {y : CastRule × OpId} {e : Error}
      {q : LogicalPlan} (hx : x = pre ++ y :: post)
      (hall : ∀ z ∈ pre, ∃ a, z.1.prepare p z.2 = .ok a) (hy : y.1.prepare p y.2 = .error e)
      (hq : Progress p (done ++ pre.map (·.2)) q) : Ending p done x (.error e, q)

theorem prepare_of_progress (h : Progress p done q) (hn : n ∈ p.ids) (hnew : n ∉ done) :
    r.prepare q n = r.prepare p n :=
  prepare_congr (h.get?_of_notMem_done hn hnew) (h.successors_of_notMem_done hn hnew)

/-- One application in a plan in progress: refused with the plan as it was, or made as it would have
been at the start. -/
theorem perform_apply_of_progress (hp : p.WellFormed) (h : Progress p done q) (hn : n ∈ p.ids)
    (hnew : n ∉ done) (hroom : q.nextId.toNat + 1 < UInt64.size) :
    (∃ e, r.prepare p n = .error e ∧ (r.apply n).perform q = (.error e, q)) ∨
    ∃ a q', r.prepare p n = .ok a ∧
      (r.apply n).perform q = (.ok (n :: p.nextId.plus done.length :: p.successors n), q') ∧
      Progress p (done ++ [n]) q' := by
  rw [perform_apply h.wellFormed, prepare_of_progress h hn hnew]
  cases hok : r.prepare p n with
  | error e => exact .inl ⟨e, rfl, rfl⟩
  | ok a =>
    obtain ⟨op, s, f⟩ := a
    obtain ⟨hget, hop, hs, hw⟩ := prepare_eq_ok_iff.mp hok
    have hsq : q.successors n = [s] := by rw [h.successors_of_notMem_done hn hnew, hs]
    refine .inr ⟨_, _, rfl, ?_, h.step hp hget hop hs hw hnew (wrappedBelow h.wellFormed hsq)
      (wellFormed_wrapBelow h.wellFormed hroom hsq) hroom⟩
    rw [h.nextId_eq_plus, hs]

theorem ending_castAll (hp : p.WellFormed) (x : List (CastRule × OpId)) :
    ∀ {done : List OpId} {q : LogicalPlan}, Progress p done q → Pending p done x →
      Ending p done x ((castAll x).perform q) := by
  -- The plan and what is done change with every application, so both stay general.
  induction x with
  | nil =>
    intro done q h _
    exact .finished nofun (by simpa using h)
  | cons y x ih =>
    obtain ⟨r, n⟩ := y
    intro done q h hpend
    have hroom := hpend.room
    have hnew : n ∉ done := hpend.notMem_done
    have hpend' : Pending p (done ++ [n]) x := (Pending.append (x := [(r, n)]) hpend).2
    rw [List.length_cons] at hroom
    rcases perform_apply_of_progress (r := r) hp h (hpend.mem_ids _ List.mem_cons_self) hnew
      (by rw [h.nextId_eq]; omega) with ⟨e, he, hperf⟩ | ⟨a, q', ha, hperf, hq'⟩
    · rw [castAll, Edit.perform_bind_of_error hperf]
      have hx : (r, n) :: x = [] ++ (r, n) :: x := rfl
      exact .refused hx nofun he (by simpa using h)
    · have hend := ih hq' hpend'
      rw [castAll, Edit.perform_bind_of_ok hperf]
      generalize hres : (castAll x).perform q' = res at hend
      cases hend with
      | finished hall hq =>
        rw [Edit.perform_bind_of_ok hres, Edit.perform_pure]
        rw [List.length_append, List.length_singleton, ← record_cons]
        refine .finished (fun z hz ↦ ?_) (by simpa using hq)
        rcases List.mem_cons.mp hz with rfl | hz
        · exact ⟨a, ha⟩
        · exact hall z hz
      | @refused pre post y e q'' hx hall hy hq =>
        rw [Edit.perform_bind_of_error hres]
        have hx' : (r, n) :: x = ((r, n) :: pre) ++ y :: post := by rw [hx, List.cons_append]
        refine .refused hx' (fun z hz ↦ ?_) hy (by simpa using hq)
        rcases List.mem_cons.mp hz with rfl | hz
        · exact ⟨a, ha⟩
        · exact hall z hz

/-- Agendas are worked through one after the other. -/
theorem castAll_append (x y : List (CastRule × OpId)) :
    castAll (x ++ y) = do
      let done ← castAll x
      let rest ← castAll y
      return done ++ rest := by
  induction x with
  | nil => simp [castAll]
  | cons z x ih => simp [castAll, ih]

/-! ## Passes -/

theorem agendaAfter_cons (rs : List CastRule) :
    agendaAfter p (r :: rs) done
      = ((r.due p).filter (· ∉ done)).map (r, ·)
        ++ agendaAfter p rs (done ++ (r.due p).filter (· ∉ done)) := rfl

theorem map_snd_pairs (l : List OpId) : (l.map (r, ·)).map (·.2) = l := by
  rw [List.map_map]
  exact List.map_id l

/-- The turn of one operator. -/
theorem perform_visit (r : CastRule) (n : OpId) (q : LogicalPlan) :
    (r.toRule.visit n).perform q
      = if r.applies q n = true then
          (do
            let touched ← r.apply n
            return [Application.mk r.name n touched]).perform q
        else (.ok [], q) := by
  rw [Rule.visit, Edit.perform_bind_of_ok (Edit.perform_get q)]
  change (if r.applies q n = true then _ else _ : Edit (List Application)).perform q = _
  split <;> rfl

theorem perform_visitAll_cons_of_skip {ns : List OpId} (h : r.applies q n = false) :
    (r.toRule.visitAll (n :: ns)).perform q = (r.toRule.visitAll ns).perform q := by
  have hvisit : (r.toRule.visit n).perform q = (.ok [], q) := by
    rw [perform_visit, h]
    rfl
  rw [Rule.visitAll, Edit.perform_bind_of_ok hvisit]
  simp

theorem perform_visitAll_cons_of_error {ns : List OpId} {e : Error} {q' : LogicalPlan}
    (h : r.applies q n = true) (happly : (r.apply n).perform q = (.error e, q')) :
    (r.toRule.visitAll (n :: ns)).perform q = (.error e, q') := by
  have hvisit : (r.toRule.visit n).perform q = (.error e, q') := by
    rw [perform_visit, if_pos h, Edit.perform_bind_of_error happly]
  rw [Rule.visitAll, Edit.perform_bind_of_error hvisit]

theorem perform_visitAll_cons_of_ok {ns touched : List OpId} {q' : LogicalPlan}
    (h : r.applies q n = true) (happly : (r.apply n).perform q = (.ok touched, q')) :
    (r.toRule.visitAll (n :: ns)).perform q
      = (do
          let rest ← r.toRule.visitAll ns
          return Application.mk r.name n touched :: rest).perform q' := by
  have hvisit : (r.toRule.visit n).perform q = (.ok [⟨r.name, n, touched⟩], q') := by
    rw [perform_visit, if_pos h, Edit.perform_bind_of_ok happly, Edit.perform_pure]
  rw [Rule.visitAll, Edit.perform_bind_of_ok hvisit]
  rfl

/-- What a rule passes over in its list of candidates it leaves alone. -/
theorem perform_visitAll (hp : p.WellFormed) (ns : List OpId) :
    ∀ {done : List OpId} {q : LogicalPlan}, Progress p done q → ns.Nodup →
      Pending p done ((ns.filter fun v ↦ v ∈ r.due p ∧ v ∉ done).map (r, ·)) →
      (r.toRule.visitAll ns).perform q
        = (castAll ((ns.filter fun v ↦ v ∈ r.due p ∧ v ∉ done).map (r, ·))).perform q := by
  induction ns with
  | nil => intro done q _ _ _; rfl
  | cons n ns ih =>
    intro done q h hnodup hpend
    rw [List.nodup_cons] at hnodup
    -- The test is made on the plan of the moment, and `applies_iff` brings it back to the start.
    by_cases hn : n ∈ r.due p ∧ n ∉ done
    · have happ : r.applies q n = true := (applies_iff h).mpr hn
      -- The operator does not occur again, so nothing else is left out once it is done.
      have hrest : ns.filter (fun v ↦ v ∈ r.due p ∧ v ∉ done ++ [n])
          = ns.filter (fun v ↦ v ∈ r.due p ∧ v ∉ done) := by
        refine List.filter_congr fun v hv ↦ ?_
        have hvn : v ≠ n := fun he ↦ hnodup.1 (he ▸ hv)
        simp [hvn]
      rw [List.filter_cons_of_pos (by simpa using hn), List.map_cons] at hpend ⊢
      have hroom := hpend.room
      rw [List.length_cons] at hroom
      rcases perform_apply_of_progress (r := r) hp h (mem_ids_of_mem_due hn.1) hn.2
        (by rw [h.nextId_eq]; omega) with ⟨e, -, hperf⟩ | ⟨a, q', -, hperf, hq'⟩
      · rw [perform_visitAll_cons_of_error happ hperf, castAll, Edit.perform_bind_of_error hperf]
      · have hpend' := (Pending.append (x := [(r, n)]) hpend).2
        rw [perform_visitAll_cons_of_ok happ hperf, castAll, Edit.perform_bind_of_ok hperf,
          Edit.perform_bind, Edit.perform_bind, ← hrest,
          ih hq' hnodup.2 (by rw [hrest]; exact hpend')]
    · have happ : r.applies q n = false := Bool.eq_false_iff.mpr (mt (applies_iff h).mp hn)
      rw [List.filter_cons_of_neg (by simpa using hn)] at hpend ⊢
      rw [perform_visitAll_cons_of_skip happ]
      exact ih h hnodup.2 hpend

/-- The turn of one rule. -/
theorem perform_run (hp : p.WellFormed) (h : Progress p done q)
    (hpend : Pending p done (((r.due p).filter (· ∉ done)).map (r, ·))) :
    r.toRule.run.perform q = (castAll (((r.due p).filter (· ∉ done)).map (r, ·))).perform q := by
  have hnodup : (r.pattern.candidates q).Nodup :=
    (List.pairwise_map.mpr (q.operators.ascending.filter _)).nodup
  rw [← filter_candidates h] at hpend ⊢
  rw [Rule.run, Edit.perform_bind_of_ok (Edit.perform_get q)]
  exact perform_visitAll hp _ h hnodup hpend

/-- **A pass makes the applications on its agenda.** -/
theorem perform_runAll (hp : p.WellFormed) (rs : List CastRule) :
    ∀ {done : List OpId} {q : LogicalPlan}, Progress p done q →
      Pending p done (agendaAfter p rs done) →
      (Rule.runAll (rs.map toRule)).perform q = (castAll (agendaAfter p rs done)).perform q := by
  induction rs with
  | nil => intro done q _ _; rfl
  | cons r rs ih =>
    intro done q h hpend
    rw [agendaAfter_cons] at hpend ⊢
    obtain ⟨hmine, hrest⟩ := hpend.append
    rw [map_snd_pairs] at hrest
    have hend := ending_castAll hp _ h hmine
    rw [List.map_cons, Rule.runAll, castAll_append]
    -- The first rule ends as its part of the agenda does; only if that is finished, the others follow.
    have hrun := perform_run hp h hmine
    generalize hres : (castAll (((r.due p).filter (· ∉ done)).map (r, ·))).perform q = res
      at hend hrun
    cases hend with
    | refused hx hall hy hq =>
      rw [Edit.perform_bind_of_error hrun, Edit.perform_bind_of_error hres]
    | finished hall hq =>
      rw [map_snd_pairs] at hq
      rw [Edit.perform_bind_of_ok hrun, Edit.perform_bind_of_ok hres, Edit.perform_bind,
        Edit.perform_bind, ih hq hrest]

/-! ## The agenda -/

theorem mem_agendaAfter {rs : List CastRule} {y : CastRule × OpId} :
    ∀ {done : List OpId}, y ∈ agendaAfter p rs done → y.1 ∈ rs ∧ y.2 ∈ y.1.due p ∧ y.2 ∉ done := by
  induction rs with
  | nil => exact fun h ↦ absurd h List.not_mem_nil
  | cons r rs ih =>
    intro done h
    rw [agendaAfter_cons, List.mem_append] at h
    rcases h with h | h
    · obtain ⟨n, hn, rfl⟩ := List.mem_map.mp h
      obtain ⟨hdue, hnew⟩ := List.mem_filter.mp hn
      exact ⟨List.mem_cons_self, hdue, by simpa using hnew⟩
    · obtain ⟨hr, hdue, hnew⟩ := ih h
      exact ⟨List.mem_cons_of_mem r hr, hdue, fun hd ↦ hnew (List.mem_append_left _ hd)⟩

theorem nodup_agendaAfter (rs : List CastRule) :
    ∀ {done : List OpId}, done.Nodup → (done ++ (agendaAfter p rs done).map (·.2)).Nodup := by
  induction rs with
  | nil => intro done h; simpa [agendaAfter] using h
  | cons r rs ih =>
    intro done h
    rw [agendaAfter_cons, List.map_append, map_snd_pairs, ← List.append_assoc]
    refine ih (List.nodup_append.mpr ⟨h, (pairwise_due r p).nodup.filter _, ?_⟩)
    rintro v hv w hw rfl
    exact absurd hv (by simpa using (List.mem_filter.mp hw).2)

/-- Nothing is left to do once everything that a rule is due for is done. -/
theorem agendaAfter_eq_nil {rs : List CastRule} (h : ∀ r ∈ rs, ∀ v ∈ r.due p, v ∈ done) :
    agendaAfter p rs done = [] := by
  rw [List.eq_nil_iff_forall_not_mem]
  intro y hy
  obtain ⟨hr, hdue, hnew⟩ := mem_agendaAfter hy
  exact hnew (h y.1 hr y.2 hdue)

/-- Whatever one of the rules is due for is on the agenda, unless it was taken before. -/
theorem mem_map_agendaAfter {rs : List CastRule} (hr : r ∈ rs) (hv : v ∈ r.due p) :
    ∀ done : List OpId, v ∈ done ∨ v ∈ (agendaAfter p rs done).map (·.2) := by
  induction rs with
  | nil => exact absurd hr List.not_mem_nil
  | cons r' rs ih =>
    intro done
    rw [agendaAfter_cons, List.map_append, map_snd_pairs, List.mem_append]
    by_cases hd : v ∈ done
    · exact .inl hd
    · rcases List.mem_cons.mp hr with rfl | hr
      · exact .inr (.inl (List.mem_filter.mpr ⟨hv, by simpa using hd⟩))
      · rcases ih hr (done ++ (r'.due p).filter (· ∉ done)) with hmine | hrest
        · exact (List.mem_append.mp hmine).imp_right .inl
        · exact .inr (.inr hrest)

/-- An agenda has every operator at most once. -/
theorem length_agenda_le (p : LogicalPlan) (rs : List CastRule) :
    (agenda p rs).length ≤ p.ids.length := by
  have hsub : (agenda p rs).map (·.2) ⊆ p.ids := by
    intro v hv
    obtain ⟨y, hy, rfl⟩ := List.mem_map.mp hv
    exact mem_ids_of_mem_due (mem_agendaAfter hy).2.1
  have hnodup : ((agenda p rs).map (·.2)).Nodup := nodup_agendaAfter rs List.nodup_nil
  have hle := (hnodup.subperm hsub).length_le
  rwa [List.length_map] at hle

/-- The agenda of the whole plan can be worked through if there are identifiers for it. -/
theorem pending_agenda {rs : List CastRule}
    (hroom : p.nextId.toNat + (agenda p rs).length < UInt64.size) :
    Pending p [] (agenda p rs) where
  mem_ids _ hy := mem_ids_of_mem_due (mem_agendaAfter hy).2.1
  nodup := nodup_agendaAfter rs List.nodup_nil
  room := by rwa [List.length_nil, Nat.zero_add]

end CastRule

end Dataflow
