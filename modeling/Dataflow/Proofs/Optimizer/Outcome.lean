import Dataflow.Proofs.Optimizer.Agenda

/-!
# The outcome of an optimizer with cast rules

The first pass works through the agenda, and a plan in which all of it is done has an empty agenda, so
a second pass applies nothing. With `optimize_eq` a run is therefore no more than its agenda, and
what there is to know about it is known from the plan before the run: whether it succeeds, what it
reports (`outcome_optimize`) and how the plan it leaves, in success and in failure, contracts to the
plan before (`contractsTo_optimize`).
-/

namespace Dataflow

namespace CastRule

variable {p q : LogicalPlan} {done : List OpId} {rules : List CastRule} {s : Settings}

/-! ## Passes over an agenda -/

/-- The optimizer with the given cast rules. -/
def optimizer (rules : List CastRule) (s : Settings) : Optimizer :=
  ⟨rules.map toRule, s⟩

/-- The cast rules that the settings do not leave out. -/
def enabled (rules : List CastRule) (s : Settings) : List CastRule :=
  rules.filter fun r ↦ !s.isDisabled r.name

theorem enabled_optimizer (rules : List CastRule) (s : Settings) :
    (optimizer rules s).enabled = (enabled rules s).map toRule := by
  rw [Optimizer.enabled, optimizer, List.filter_map]
  rfl

/-- What a run reports that made these applications and had so many passes. -/
def summaryOf (applications : List Application) (passes : Nat) : Summary where
  iterations := if applications = [] then 1 else min 2 passes
  applications := applications
  reachedFixedPoint := applications = [] ∨ 2 ≤ passes

/-- Once the agenda is done, a pass applies nothing and is the last one. -/
theorem perform_iterate_of_done (hp : p.WellFormed) {rs : List CastRule}
    (hroom : p.nextId.toNat + (agenda p rs).length < UInt64.size)
    (h : Progress p ((agenda p rs).map (·.2)) q) (m : Nat) :
    (Rule.iterate (rs.map toRule) (m + 1)).perform q = (.ok ⟨1, [], true⟩, q) := by
  have hnil : agendaAfter p rs ((agenda p rs).map (·.2)) = [] :=
    agendaAfter_eq_nil fun r hr v hv ↦
      (mem_map_agendaAfter hr hv []).resolve_left List.not_mem_nil
  have hpend : Pending p ([] ++ (agenda p rs).map (·.2)) [] := by
    refine (Pending.append ?_).2
    rw [List.append_nil]
    exact pending_agenda hroom
  have hpass := perform_runAll hp rs h (by rwa [hnil])
  rw [hnil] at hpass
  rw [Rule.iterate, Edit.perform_bind_of_ok (hpass.trans (Edit.perform_pure [] q))]
  rfl

theorem perform_iterate (hp : p.WellFormed) {rs : List CastRule}
    (hroom : p.nextId.toNat + (agenda p rs).length < UInt64.size) (m : Nat) :
    (Rule.iterate (rs.map toRule) (m + 1)).perform p
      = match (castAll (agenda p rs)).perform p with
        | (.ok applications, q) => (.ok (summaryOf applications (m + 1)), q)
        | (.error e, q) => (.error e, q) := by
  have hend := ending_castAll hp _ (.refl hp) (pending_agenda hroom)
  have hpass : (Rule.runAll (rs.map toRule)).perform p = (castAll (agenda p rs)).perform p :=
    perform_runAll hp rs (.refl hp) (pending_agenda hroom)
  generalize hres : (castAll (agenda p rs)).perform p = res at hend hpass
  cases hend with
  | refused hx hall hy hq =>
    rw [Rule.iterate, Edit.perform_bind_of_error hpass]
  | @finished q hall hq =>
    rw [List.nil_append] at hq
    -- A pass that has done something is followed by another one, if there is one left.
    rw [Rule.iterate, Edit.perform_bind_of_ok hpass]
    cases hx : record p 0 (agenda p rs) with
    | nil => rfl
    | cons a as =>
      cases m with
      | zero =>
        have hlast : (Rule.iterate (rs.map toRule) 0).perform q = (.ok ⟨0, [], false⟩, q) := rfl
        exact (Edit.perform_bind_of_ok hlast _).trans (by simp [summaryOf])
      | succ m =>
        have hlast := perform_iterate_of_done hp hroom hq m
        exact (Edit.perform_bind_of_ok hlast _).trans (by simp [summaryOf])

/-- A run makes its passes with the rules that are enabled. -/
theorem optimize_eq_perform_iterate (rules : List CastRule) (s : Settings) (p : LogicalPlan) :
    (optimizer rules s).optimize p
      = (Rule.iterate ((enabled rules s).map toRule) s.maxIterations.toNat).perform p := by
  rw [← enabled_optimizer]
  rfl

/-- **A run is its agenda.** -/
theorem optimize_eq (hp : p.WellFormed)
    (hroom : p.nextId.toNat + (agenda p (enabled rules s)).length < UInt64.size)
    (hm : 1 ≤ s.maxIterations.toNat) :
    (optimizer rules s).optimize p
      = match (castAll (agenda p (enabled rules s))).perform p with
        | (.ok applications, q) => (.ok (summaryOf applications s.maxIterations.toNat), q)
        | (.error e, q) => (.error e, q) := by
  rw [optimize_eq_perform_iterate]
  generalize s.maxIterations.toNat = m at hm
  obtain ⟨m, rfl⟩ := Nat.exists_eq_succ_of_ne_zero (Nat.ne_of_gt hm)
  exact perform_iterate hp hroom m

/-- However a run ends, it has made progress. -/
theorem exists_progress_optimize (hp : p.WellFormed)
    (hroom : p.nextId.toNat + (agenda p (enabled rules s)).length < UInt64.size) :
    ∃ done, Progress p done ((optimizer rules s).optimize p).2 := by
  rcases Nat.eq_zero_or_pos s.maxIterations.toNat with hm | hm
  · rw [optimize_eq_perform_iterate, hm]
    exact ⟨[], .refl hp⟩
  · have hend := ending_castAll hp _ (.refl hp) (pending_agenda hroom)
    rw [optimize_eq hp hroom hm]
    generalize (castAll (agenda p (enabled rules s))).perform p = res at hend
    cases hend with
    | finished hall hq => exact ⟨_, hq⟩
    | refused hx hall hy hq => exact ⟨_, hq⟩

/-! ## When a run succeeds -/

/-- The operator has exactly one reader, and if it reads the output of a command, then the function
for that can be read. -/
def Castable (p : LogicalPlan) (n : OpId) : Prop :=
  (p.successors n).length = 1 ∧
    ∀ st, p.get? n = some (.stream st) → ∃ g, FunctionSpec.parse st.command.output.text = .ok g

theorem isIngest_of_declared {op : Operator} {sch : Schema} (h : op.declared = some sch) :
    op.kind.isIngest = true := by
  cases op <;> first | rfl | cases h

/-- No schema is determined for a stream, so a field that calls for the rule is also cast. -/
theorem exists_needsCast_of_wants {st : Stream} (h : wants (.stream st) = true) :
    ∃ sch, st.declared = some sch ∧ ∃ i g, sch.fields[i]? = some g ∧
      needsCast g (Operator.stream st).determined i = true := by
  obtain ⟨sch, hdecl, -, i, g, hg, hwork⟩ := wants_iff.mp h
  exact ⟨sch, hdecl, i, g, hg, hwork⟩

/-- Why an operator on the agenda is refused. The number of its readers is looked at first, so the
function that reads the output of its command only counts if there is exactly one. -/
theorem reason_of_due {r : CastRule} {n : OpId} {e : Error} (hfit : SchemasFit p)
    (hdue : n ∈ r.due p) (he : r.prepare p n = .error e) :
    ((p.successors n).length ≠ 1 ∧
        e = .successorCount r.name n (p.successors n).length ∧ e.category = .plan) ∨
      ((p.successors n).length = 1 ∧ ∃ st, p.get? n = some (.stream st) ∧
        FunctionSpec.parse st.command.output.text = .error e ∧ e.category = .config) := by
  obtain ⟨op, hget, -, hwants⟩ := mem_due_iff.mp hdue
  obtain ⟨sch, hdecl, -⟩ := wants_iff.mp hwants
  obtain ⟨c, hc⟩ := (prepare_eq_error_iff (hfit n)).mp he
  have hcategory := hc.category_eq.1
  cases hc with
  | unknown hnone => simp [hget] at hnone
  | @unsupported op' hget' hload hstream =>
    obtain rfl : op = op' := Option.some.inj (hget.symm.trans hget')
    exact ((isIngest_iff.mp (isIngest_of_declared hdecl)).elim hload hstream).elim
  | successors _ _ hlen => exact .inl ⟨hlen, rfl, hcategory⟩
  | @noSchema op' hget' _ _ hnone =>
    obtain rfl : op = op' := Option.some.inj (hget.symm.trans hget')
    simp [hdecl] at hnone
  | @outputSpec st _ _ hget' hlen _ _ hparse =>
    exact .inr ⟨hlen, st, hget', hparse, hcategory⟩

theorem exists_prepare_eq_ok_iff {r : CastRule} {n : OpId} (hfit : SchemasFit p)
    (hdue : n ∈ r.due p) : (∃ a, r.prepare p n = .ok a) ↔ Castable p n := by
  obtain ⟨op, hget, -, hwants⟩ := mem_due_iff.mp hdue
  constructor
  · rintro ⟨⟨op', t, f⟩, hok⟩
    obtain ⟨-, -, hs, -⟩ := prepare_eq_ok_iff.mp hok
    have hlen : (p.successors n).length = 1 := by rw [hs, List.length_singleton]
    refine ⟨hlen, fun st hst ↦ ?_⟩
    cases hparse : FunctionSpec.parse st.command.output.text with
    | ok g => exact ⟨g, rfl⟩
    | error e =>
      obtain rfl : op = .stream st := Option.some.inj (hget.symm.trans hst)
      obtain ⟨sch, hdecl, hcast⟩ := exists_needsCast_of_wants hwants
      have herr := (prepare_eq_error_iff (r := r) (hfit n)).mpr
        ⟨_, .outputSpec hget hlen hdecl hcast hparse⟩
      rw [hok] at herr
      cases herr
  · rintro ⟨hlen, hspec⟩
    cases hprep : r.prepare p n with
    | ok a => exact ⟨a, rfl⟩
    | error e =>
      rcases reason_of_due hfit hdue hprep with ⟨hlen', -⟩ | ⟨-, st, hst, hparse, -⟩
      · exact absurd hlen hlen'
      · obtain ⟨g, hg⟩ := hspec st hst
        rw [hparse] at hg
        cases hg

/-! ## The outcome of a run -/

theorem record_eq_nil_iff {k : Nat} {x : List (CastRule × OpId)} : record p k x = [] ↔ x = [] :=
  List.mapIdx_eq_nil_iff

theorem getElem?_record {r : CastRule} {n t : OpId} {k : Nat} {x : List (CastRule × OpId)}
    (hx : x[k]? = some (r, n)) (ht : p.successors n = [t]) :
    (record p 0 x)[k]? = some ⟨r.name, n, [n, p.nextId.plus k, t]⟩ := by
  rw [record, List.getElem?_mapIdx, hx, Option.map_some, Nat.zero_add, ← ht]

/-- **The outcome of a run**, read off the plan before it. A run succeeds if and only if every
operator on the agenda is castable. Then it has made the applications on the agenda, in this order
and with identifiers in sequence, it has needed a second pass exactly if there were any, and to run
the optimizer again does nothing. -/
theorem outcome_optimize (rules : List CastRule) (s : Settings) (hp : p.WellFormed)
    (hfit : SchemasFit p) (hm : 1 ≤ s.maxIterations.toNat)
    (hroom : p.nextId.toNat + (agenda p (enabled rules s)).length < UInt64.size) :
    ((∃ done, ((optimizer rules s).optimize p).1 = .ok done) ↔
      ∀ y ∈ agenda p (enabled rules s), Castable p y.2) ∧
    ∀ done, ((optimizer rules s).optimize p).1 = .ok done →
      done.applications.length = (agenda p (enabled rules s)).length ∧
      (∀ (k : Nat) (r : CastRule) (n : OpId), (agenda p (enabled rules s))[k]? = some (r, n) →
        ∃ t, p.successors n = [t] ∧ (p.nextId.plus k).toNat = p.nextId.toNat + k ∧
          done.applications[k]? = some ⟨r.name, n, [n, p.nextId.plus k, t]⟩) ∧
      done.iterations
        = (if agenda p (enabled rules s) = [] then 1 else min 2 s.maxIterations.toNat) ∧
      (done.reachedFixedPoint = true ↔
        agenda p (enabled rules s) = [] ∨ 2 ≤ s.maxIterations.toNat) ∧
      (optimizer rules s).optimize ((optimizer rules s).optimize p).2
        = (.ok ⟨1, [], true⟩, ((optimizer rules s).optimize p).2) := by
  have hcastable : ∀ y ∈ agenda p (enabled rules s),
      ((∃ a, y.1.prepare p y.2 = .ok a) ↔ Castable p y.2) := fun y hy ↦
    exists_prepare_eq_ok_iff hfit (mem_agendaAfter hy).2.1
  have hend := ending_castAll hp _ (.refl hp) (pending_agenda hroom)
  rw [optimize_eq hp hroom hm]
  generalize (castAll (agenda p (enabled rules s))).perform p = res at hend
  cases hend with
  | @refused pre post y e q hx hall hy hq =>
    have hmem : y ∈ agenda p (enabled rules s) := hx ▸ by simp
    refine ⟨⟨nofun, fun h ↦ ?_⟩, nofun⟩
    obtain ⟨a, ha⟩ := (hcastable y hmem).mpr (h y hmem)
    rw [hy] at ha
    cases ha
  | @finished q hall hq =>
    refine ⟨⟨fun _ y hy ↦ (hcastable y hy).mp (hall y hy), fun _ ↦ ⟨_, rfl⟩⟩, ?_⟩
    rintro _ ⟨⟩
    refine ⟨List.length_mapIdx, fun k r n hk ↦ ?_, ?_, ?_, ?_⟩
    · have hmem := List.mem_of_getElem? hk
      obtain ⟨t, ht⟩ := List.length_eq_one_iff.mp ((hcastable _ hmem).mp (hall _ hmem)).1
      have hlt := (List.getElem?_eq_some_iff.mp hk).1
      exact ⟨t, ht, OpId.toNat_plus (by omega), getElem?_record hk ht⟩
    · simp only [summaryOf, List.length_nil, record_eq_nil_iff]
    · simp only [summaryOf, List.length_nil, record_eq_nil_iff, decide_eq_true_eq]
    · obtain ⟨m, hm⟩ := Nat.exists_eq_succ_of_ne_zero (Nat.ne_of_gt hm)
      rw [optimize_eq_perform_iterate, hm]
      exact perform_iterate_of_done hp hroom hq m

theorem outcome_optimize_branchedPlan :
    branchedPlan.WellFormed ∧ SchemasFit branchedPlan ∧
      1 ≤ Settings.default.maxIterations.toNat ∧
      branchedPlan.nextId.toNat + (agenda branchedPlan (enabled defaults .default)).length
        < UInt64.size ∧
      ∃ done, ((optimizer defaults .default).optimize branchedPlan).1 = .ok done ∧
        done.applications.length = 3 ∧ done.iterations = 2 ∧
        done.applications[1]? = some ⟨"LoadTypeCastInserter", ⟨4⟩, [⟨4⟩, ⟨6⟩, ⟨3⟩]⟩ := by
  have hp : branchedPlan.WellFormed := by decide
  have hfit : SchemasFit branchedPlan := by decide
  have hm : 1 ≤ Settings.default.maxIterations.toNat := by decide
  have hagenda : agenda branchedPlan (enabled defaults .default)
      = [(forLoad, ⟨1⟩), (forLoad, ⟨4⟩), (forStream, ⟨2⟩)] := by decide +kernel
  have hroom : branchedPlan.nextId.toNat + (agenda branchedPlan (enabled defaults .default)).length
      < UInt64.size := by
    rw [hagenda]
    decide
  obtain ⟨hok, hdone⟩ := outcome_optimize defaults .default hp hfit hm hroom
  have hcastable : ∀ y ∈ agenda branchedPlan (enabled defaults .default),
      Castable branchedPlan y.2 := by
    rw [hagenda]
    simp only [List.mem_cons, List.not_mem_nil, or_false]
    rintro y (rfl | rfl | rfl)
    · exact ⟨by decide, nofun⟩
    · exact ⟨by decide, nofun⟩
    · refine ⟨by decide, fun st hst ↦ ?_⟩
      cases hst
      exact ⟨⟨"PigStreaming", []⟩, by decide +kernel⟩
  obtain ⟨done, hres⟩ := hok.mpr hcastable
  obtain ⟨hlen, hentry, hiter, -⟩ := hdone done hres
  obtain ⟨t, ht, -, hsecond⟩ := hentry 1 forLoad ⟨4⟩ (by rw [hagenda]; rfl)
  cases ht
  rw [hagenda] at hlen hiter
  exact ⟨hp, hfit, hm, hroom, done, hres, hlen, hiter, hsecond⟩

end CastRule

end Dataflow
