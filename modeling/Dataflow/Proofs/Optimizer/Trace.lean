import Dataflow.Proofs.Edit

/-!
# Traces of optimizer runs

What a run reports is not a summary of it but all of it: the list of applications, cut into passes and
the passes into turns, leads from the plan before the run to the plan after it. `Rule.Passes` says so
for any rules whatever, also for rules that add operators, undo what others did or never come to rest.

A turn walks through the candidates of the plan in which it began, while the tests and the edits are
made on the plan of the moment; that is why `Rule.Turn` has the list of candidates as an index of its
own. A turn that applied nothing has tested every candidate on one and the same plan, and so has a
pass. The pass that ends a run without the cap is of this kind, and its plan is the one returned.
-/

namespace Dataflow

theorem Pattern.mem_candidates_iff {pat : Pattern} {p : LogicalPlan} {n : OpId} :
    n ∈ pat.candidates p ↔ ∃ op, p.get? n = some op ∧ pat.matchesOperator op = true :=
  IdTable.mem_map_fst_filter_iff

namespace Rule

variable {r : Rule} {rs : List Rule} {p q : LogicalPlan} {n : OpId} {ns : List OpId}
  {done : List Application}

/-! ## Traces -/

/-- The turn of a rule, in which the operators `ns` are still to be looked at: each of them is passed
over if the test fails at that moment, and otherwise the rule is applied to it. -/
inductive Turn (r : Rule) : List OpId → LogicalPlan → List Application → LogicalPlan → Prop
  | finished {p : LogicalPlan} : Turn r [] p [] p
  | skipped {p q : LogicalPlan} {n : OpId} {ns : List OpId} {done : List Application}
      (test : r.applies p n = false) (rest : Turn r ns p done q) : Turn r (n :: ns) p done q
  | applied {p p' q : LogicalPlan} {n : OpId} {ns touched : List OpId} {done : List Application}
      (test : r.applies p n = true) (edit : (r.apply n).perform p = (.ok touched, p'))
      (rest : Turn r ns p' done q) : Turn r (n :: ns) p (⟨r.name, n, touched⟩ :: done) q

/-- A pass: every rule has one turn, with the candidates of the plan that it finds. -/
inductive Pass : List Rule → LogicalPlan → List Application → LogicalPlan → Prop
  | finished {p : LogicalPlan} : Pass [] p [] p
  | turn {r : Rule} {rs : List Rule} {p p' q : LogicalPlan} {done more : List Application}
      (first : Turn r (r.pattern.candidates p) p done p') (rest : Pass rs p' more q) :
      Pass (r :: rs) p (done ++ more) q

/-- Passes, one after the other, with what each of them applied. -/
inductive Passes (rs : List Rule) : LogicalPlan → List (List Application) → LogicalPlan → Prop
  | finished {p : LogicalPlan} : Passes rs p [] p
  | pass {p p' q : LogicalPlan} {done : List Application} {more : List (List Application)}
      (first : Pass rs p done p') (rest : Passes rs p' more q) : Passes rs p (done :: more) q

theorem Passes.append_singleton {passes : List (List Application)} {p' : LogicalPlan}
    (h : Passes rs p passes p') (hlast : Pass rs p' done q) : Passes rs p (passes ++ [done]) q := by
  induction h with
  | finished => exact .pass hlast .finished
  | pass first _ ih => exact .pass first (ih hlast)

/-! ## Runs leave traces -/

theorem visit_eq_ok (h : (r.visit n).perform p = (.ok done, q)) :
    (r.applies p n = false ∧ done = [] ∧ q = p) ∨
      ∃ touched, r.applies p n = true ∧ (r.apply n).perform p = (.ok touched, q) ∧
        done = [⟨r.name, n, touched⟩] := by
  rw [visit, Edit.perform_bind_of_ok (Edit.perform_get p)] at h
  split at h
  · rename_i htest
    obtain ⟨touched, p', happly, hpure⟩ := Edit.perform_bind_eq_ok_iff.mp h
    cases hpure
    exact .inr ⟨touched, htest, happly, rfl⟩
  · rename_i htest
    cases h
    exact .inl ⟨Bool.not_eq_true _ ▸ htest, rfl, rfl⟩

theorem turn_of_visitAll (ns : List OpId) : ∀ {p done}, (r.visitAll ns).perform p = (.ok done, q) →
    Turn r ns p done q := by
  induction ns with
  | nil =>
    intro p done h
    cases h
    exact .finished
  | cons n ns ih =>
    intro p done h
    obtain ⟨first, p', hvisit, h⟩ := Edit.perform_bind_eq_ok_iff.mp h
    obtain ⟨rest, q', hrest, hpure⟩ := Edit.perform_bind_eq_ok_iff.mp h
    cases hpure
    rcases visit_eq_ok hvisit with ⟨htest, rfl, rfl⟩ | ⟨touched, htest, happly, rfl⟩
    · exact .skipped htest (ih hrest)
    · exact .applied htest happly (ih hrest)

theorem pass_of_runAll (rs : List Rule) : ∀ {p done}, (runAll rs).perform p = (.ok done, q) →
    Pass rs p done q := by
  induction rs with
  | nil =>
    intro p done h
    cases h
    exact .finished
  | cons r rs ih =>
    intro p done h
    obtain ⟨first, p', hrun, h⟩ := Edit.perform_bind_eq_ok_iff.mp h
    obtain ⟨rest, q', hrest, hpure⟩ := Edit.perform_bind_eq_ok_iff.mp h
    cases hpure
    rw [run, Edit.perform_bind_of_ok (Edit.perform_get p)] at hrun
    exact .turn (turn_of_visitAll _ hrun) (ih hrest)

/-! ## Coming to rest -/

theorem Turn.eq_of_nil (h : Turn r ns p [] q) : q = p ∧ ∀ n ∈ ns, r.applies p n = false := by
  generalize hdone : ([] : List Application) = done at h
  induction h with
  | finished => exact ⟨rfl, nofun⟩
  | skipped test _ ih =>
    obtain ⟨rfl, hall⟩ := ih hdone
    exact ⟨rfl, List.forall_mem_cons.mpr ⟨test, hall⟩⟩
  | applied => cases hdone

/-- A pass that applied nothing has left the plan alone, and no rule applies in it. -/
theorem Pass.eq_of_nil (h : Pass rs p [] q) :
    q = p ∧ ∀ r ∈ rs, ∀ n ∈ r.pattern.candidates p, r.applies p n = false := by
  generalize hdone : ([] : List Application) = done at h
  induction h with
  | finished => exact ⟨rfl, nofun⟩
  | turn first _ ih =>
    obtain ⟨rfl, rfl⟩ := List.append_eq_nil_iff.mp hdone.symm
    obtain ⟨rfl, hfirst⟩ := first.eq_of_nil
    obtain ⟨rfl, hrest⟩ := ih rfl
    exact ⟨rfl, List.forall_mem_cons.mpr ⟨hfirst, hrest⟩⟩

/-- How a run of at most `m` passes ends. The passes here are those that applied something; at rest,
one more has applied nothing. -/
inductive Ending (rs : List Rule) (m : Nat) (p : LogicalPlan) : Summary → LogicalPlan → Prop
  | settled {q : LogicalPlan} {passes : List (List Application)} (trace : Passes rs p passes q)
      (fired : ∀ x ∈ passes, x ≠ []) (last : Pass rs q [] q) (room : passes.length < m) :
      Ending rs m p ⟨passes.length + 1, passes.flatten, true⟩ q
  | capped {q : LogicalPlan} {passes : List (List Application)} (trace : Passes rs p passes q)
      (fired : ∀ x ∈ passes, x ≠ []) (full : passes.length = m) :
      Ending rs m p ⟨passes.length, passes.flatten, false⟩ q

theorem ending_of_iterate (m : Nat) : ∀ {p : LogicalPlan} {s : Summary},
    (iterate rs m).perform p = (.ok s, q) → Ending rs m p s q := by
  induction m with
  | zero =>
    intro p s h
    cases h
    exact .capped .finished nofun rfl
  | succ m ih =>
    intro p s h
    obtain ⟨done, p', hpass, h⟩ := Edit.perform_bind_eq_ok_iff.mp h
    have hpass := pass_of_runAll rs hpass
    cases done with
    | nil =>
      cases h
      obtain ⟨rfl, -⟩ := hpass.eq_of_nil
      exact .settled .finished nofun hpass (Nat.succ_pos m)
    | cons a as =>
      obtain ⟨s', q', hrest, hpure⟩ := Edit.perform_bind_eq_ok_iff.mp h
      cases hpure
      -- This pass has applied something, so it goes in front of the passes of the rest of the run.
      have hcons (passes : List (List Application)) (fired : ∀ x ∈ passes, x ≠ []) :
          ∀ x ∈ (a :: as) :: passes, x ≠ [] :=
        List.forall_mem_cons.mpr ⟨List.cons_ne_nil a as, fired⟩
      cases ih hrest with
      | settled trace fired last room =>
        exact Ending.settled (.pass hpass trace) (hcons _ fired) last (Nat.succ_lt_succ room)
      | capped trace fired full =>
        exact Ending.capped (.pass hpass trace) (hcons _ fired) (congrArg (· + 1) full)

theorem length_le_length_flatten {passes : List (List Application)} (h : ∀ x ∈ passes, x ≠ []) :
    passes.length ≤ passes.flatten.length := by
  induction passes with
  | nil => exact Nat.le_refl 0
  | cons x passes ih =>
    rw [List.forall_mem_cons] at h
    have hx := List.length_pos_iff.mpr h.1
    have hrest := ih h.2
    rw [List.length_cons, List.flatten_cons, List.length_append]
    omega

end Rule

/-! ## The contract of the optimizer -/

namespace Optimizer

/-- **The contract of a run**, for any rules. A run that succeeds reports a trace from the plan before
it to the plan it leaves. If it came to rest, no enabled rule applies in that plan to any operator of
the rule's pattern; otherwise the passes are used up, and each of them has applied something. Leaving
rules out by name is the same as not having them. -/
theorem contract_optimize (o : Optimizer) (p : LogicalPlan) :
    (∀ (done : Summary) (q : LogicalPlan), o.optimize p = (.ok done, q) →
      done.iterations ≤ o.settings.maxIterations.toNat ∧
      (∃ passes, Rule.Passes o.enabled p passes q ∧ passes.flatten = done.applications ∧
        passes.length = done.iterations ∧
        (done.reachedFixedPoint = false → ∀ x ∈ passes, x ≠ [])) ∧
      (done.reachedFixedPoint = true →
        (∀ r ∈ o.rules, o.settings.isDisabled r.name = false → ∀ n op, q.get? n = some op →
          r.pattern.matchesOperator op = true → r.applies q n = false) ∧
        done.iterations - 1 ≤ done.applications.length) ∧
      (done.reachedFixedPoint = false →
        done.iterations = o.settings.maxIterations.toNat ∧
        o.settings.maxIterations.toNat ≤ done.applications.length)) ∧
    o.optimize p
      = (Optimizer.mk (o.rules.filter fun r ↦ !o.settings.isDisabled r.name)
          ⟨o.settings.maxIterations, []⟩).optimize p := by
  refine ⟨fun done q h ↦ ?_, ?_⟩
  · cases Rule.ending_of_iterate o.settings.maxIterations.toNat h with
    | @settled _ passes trace fired last room =>
      -- The pass that applied nothing shows that the plan is at rest, and it ends the trace.
      obtain ⟨-, hrest⟩ := last.eq_of_nil
      have hlen := Rule.length_le_length_flatten fired
      refine ⟨room, ⟨passes ++ [[]], trace.append_singleton last, by simp, by simp, nofun⟩,
        fun _ ↦ ⟨fun r hr hon n op hget hop ↦ ?_, hlen⟩, nofun⟩
      have henabled : r ∈ o.enabled := List.mem_filter.mpr ⟨hr, by simp [hon]⟩
      exact hrest r henabled n (Pattern.mem_candidates_iff.mpr ⟨op, hget, hop⟩)
    | @capped _ passes trace fired full =>
      have hlen := Rule.length_le_length_flatten fired
      refine ⟨Nat.le_of_eq full, ⟨passes, trace, rfl, rfl, fun _ ↦ fired⟩, nofun, fun _ ↦ ⟨full, ?_⟩⟩
      rwa [← full]
  · have henabled : (Optimizer.mk (o.rules.filter fun r ↦ !o.settings.isDisabled r.name)
        ⟨o.settings.maxIterations, []⟩).enabled = o.enabled :=
      List.filter_eq_self.mpr fun r _ ↦ rfl
    rw [optimize, optimize, run, run, henabled]

/-- A rule that feeds another filter from every load and never comes to rest. -/
def fanOut : Rule where
  name := "FanOut"
  pattern := .kind .load
  applies _ _ := true
  apply n := do
    let w ← Edit.add (.filter ⟨none, "true"⟩)
    Edit.connect n w
    return [n, w]

theorem contract_optimize_fanOut :
    let load : Operator := .load ⟨none, ⟨"in", ⟨"PigStorage", []⟩⟩, none, none, false⟩
    let p : LogicalPlan := (Plan.empty.add load).2
    let o : Optimizer := ⟨[{ fanOut with name := "Idle" }, fanOut], ⟨2, ["Idle"]⟩⟩
    ∃ done, (o.optimize p).1 = .ok done ∧ done.reachedFixedPoint = false ∧ done.iterations = 2 ∧
      ∃ passes, Rule.Passes o.enabled p passes (o.optimize p).2 ∧ passes.length = 2 ∧
        passes.flatten = [⟨"FanOut", ⟨1⟩, [⟨1⟩, ⟨2⟩]⟩, ⟨"FanOut", ⟨1⟩, [⟨1⟩, ⟨3⟩]⟩] := by
  intro load p o
  have hok : (o.optimize p).1 = .ok ⟨2, [⟨"FanOut", ⟨1⟩, [⟨1⟩, ⟨2⟩]⟩,
      ⟨"FanOut", ⟨1⟩, [⟨1⟩, ⟨3⟩]⟩], false⟩ := by decide +kernel
  obtain ⟨-, ⟨passes, htrace, hflat, hlen, -⟩, -, -⟩ :=
    (contract_optimize o p).1 _ _ (Prod.ext hok rfl)
  exact ⟨_, hok, rfl, rfl, passes, htrace, hlen, hflat⟩

end Optimizer

end Dataflow
