import Dataflow.Proofs.Edit

/-!
# Chains of applications

Whether a run succeeds or is stopped, the plan that it leaves is the result of a chain of
applications, in each of which a rule passed its test and was not refused. A run that succeeds
reports its chain, and a run that is stopped has tried one more application after it. The turns and
passes into which the applications fall play no part here.

`Chains` is a triple: it says what an edit makes of the chain that led to it. The parts of a run are
then put together as the run itself is.
-/

namespace Dataflow

namespace Rule

variable {β γ : Type} {r : Rule} {rs : List Rule} {p p' q : LogicalPlan} {l l' : List Application}

/-! ## Chains -/

/-- Applications of rules, one after the other: at its turn each rule passes its test and is not
refused. -/
inductive Chain (rs : List Rule) : LogicalPlan → List Application → LogicalPlan → Prop
  | nil {p : LogicalPlan} : Chain rs p [] p
  | cons {r : Rule} {n : OpId} {touched : List OpId} {l : List Application} {p p' q : LogicalPlan}
      (mem : r ∈ rs) (test : r.applies p n = true)
      (edit : (r.apply n).perform p = (.ok touched, p')) (rest : Chain rs p' l q) :
      Chain rs p (⟨r.name, n, touched⟩ :: l) q

theorem Chain.append (h : Chain rs p l p') (h' : Chain rs p' l' q) : Chain rs p (l ++ l') q := by
  induction h with
  | nil => exact h'
  | cons mem test edit _ ih => exact .cons mem test edit (ih h')

/-- How an edit of a run ends, seen from the plan in which the run began: in success, where `log`
reads the chain up to then off its result, or at an application that is refused. -/
inductive Ended (rs : List Rule) (p : LogicalPlan) (log : β → List Application) :
    Except Error β × LogicalPlan → Prop
  | ok {b : β} {q : LogicalPlan} (chain : Chain rs p (log b) q) : Ended rs p log (.ok b, q)
  | refused {r : Rule} {n : OpId} {e : Error} {l : List Application} {p' q : LogicalPlan}
      (chain : Chain rs p l p') (mem : r ∈ rs) (test : r.applies p' n = true)
      (edit : (r.apply n).perform p' = (.error e, q)) : Ended rs p log (.error e, q)

/-- The edit extends the chain `before` to the one that `log` reads off its result. -/
def Chains (rs : List Rule) (before : List Application) (e : Edit β) (log : β → List Application) :
    Prop :=
  ∀ p q, Chain rs p before q → Ended rs p log (e.perform q)

variable {before : List Application} {e : Edit β} {f : β → Edit γ} {log : β → List Application}
  {log' : γ → List Application}

theorem chains_pure {b : β} (h : log b = before) : Chains rs before (pure b) log := by
  intro p q hbefore
  rw [← h] at hbefore
  exact .ok hbefore

theorem Chains.bind (he : Chains rs before e log) (hf : ∀ b, Chains rs (log b) (f b) log') :
    Chains rs before (e >>= f) log' := by
  intro p q hbefore
  have hend := he p q hbefore
  generalize hres : e.perform q = res at hend
  induction hend with
  | ok chain =>
    rw [Edit.perform_bind_of_ok hres]
    exact hf _ p _ chain
  | refused chain mem test edit =>
    rw [Edit.perform_bind_of_error hres]
    exact .refused chain mem test edit

/-! ## Runs -/

theorem chains_visit (hr : r ∈ rs) (n : OpId) (before : List Application) :
    Chains rs before (r.visit n) (before ++ ·) := by
  intro p q hbefore
  rw [visit, Edit.perform_bind_of_ok (Edit.perform_get q)]
  split
  · rename_i htest
    rcases hperf : (r.apply n).perform q with ⟨e | touched, q'⟩
    · rw [Edit.perform_bind_of_error hperf]
      exact .refused hbefore hr htest hperf
    · rw [Edit.perform_bind_of_ok hperf]
      exact .ok (hbefore.append (.cons hr htest hperf .nil))
  · refine .ok ?_
    rwa [List.append_nil]

theorem chains_visitAll (hr : r ∈ rs) (ns : List OpId) : ∀ before : List Application,
    Chains rs before (r.visitAll ns) (before ++ ·) := by
  induction ns with
  | nil => exact fun before ↦ chains_pure (List.append_nil before)
  | cons n ns ih =>
    intro before
    refine (chains_visit hr n before).bind fun done ↦ (ih (before ++ done)).bind fun rest ↦ ?_
    exact chains_pure (List.append_assoc before done rest).symm

theorem chains_run (hr : r ∈ rs) (before : List Application) :
    Chains rs before r.run (before ++ ·) := by
  intro p q hbefore
  rw [run, Edit.perform_bind_of_ok (Edit.perform_get q)]
  exact chains_visitAll hr _ before p q hbefore

theorem chains_runAll (todo : List Rule) (hsub : todo ⊆ rs) : ∀ before : List Application,
    Chains rs before (runAll todo) (before ++ ·) := by
  induction todo with
  | nil => exact fun before ↦ chains_pure (List.append_nil before)
  | cons r todo ih =>
    intro before
    obtain ⟨hr, hsub⟩ := List.cons_subset.mp hsub
    refine (chains_run hr before).bind fun done ↦ (ih hsub (before ++ done)).bind fun rest ↦ ?_
    exact chains_pure (List.append_assoc before done rest).symm

theorem chains_iterate (rs : List Rule) (m : Nat) : ∀ before : List Application,
    Chains rs before (iterate rs m) (before ++ ·.applications) := by
  induction m with
  | zero => exact fun before ↦ chains_pure (List.append_nil before)
  | succ m ih =>
    intro before
    refine (chains_runAll rs (List.Subset.refl rs) before).bind fun done ↦ ?_
    split
    · rename_i hdone
      exact chains_pure (by rw [List.isEmpty_iff.mp hdone])
    · refine (ih (before ++ done)).bind fun rest ↦ ?_
      exact chains_pure (List.append_assoc before done rest.applications).symm

/-- **A run is a chain of applications.** If it succeeds, it reports the chain. -/
theorem ended_iterate (rs : List Rule) (m : Nat) (p : LogicalPlan) :
    Ended rs p Summary.applications ((iterate rs m).perform p) :=
  chains_iterate rs m [] p p .nil

end Rule

end Dataflow
