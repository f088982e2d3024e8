import Dataflow.Proofs.Pipeline.Declared
import Mathlib.Data.List.Induction

/-!
# Valid documents

Which documents have a plan, and what is wrong with another one, said of the document alone. A step is
put to a list of checks, and `Step.Fails` says for each of them when it fails and what is then reported.
It sees the steps before, but only in their names: neither the plan so far nor the names given so far
have a part in it, and a step that comes later is not looked at.
-/

namespace Dataflow

/-- The families of errors. -/
inductive PipelineError.Family where
  | malformed
  | invalid
  | model (category : Error.Category)
deriving DecidableEq, Repr

/-- The family of an error. -/
def PipelineError.family : PipelineError → Family
  | malformed => .malformed
  | wiring _ => .invalid
  | model e => .model e.category

/-! ## Checks -/

/-- A check of a step. -/
inductive Check where
  /-- There are two inputs or more. -/
  | count
  /-- Everything that the step reads is there. -/
  | inputs
  /-- The function for reading or writing is a function spec. -/
  | function
  | declared
  | determined
  /-- The determined schema goes with the declared one. -/
  | pairing
  /-- No input is given twice. -/
  | repetition
  /-- The name is new. -/
  | name
deriving DecidableEq, Repr

/-- The family of the errors of a check. -/
def Check.family : Check → PipelineError.Family
  | count | inputs | name => .invalid
  | function => .model .config
  | declared | determined | pairing => .model .schema
  | repetition => .model .plan

namespace Step

/-- The checks of a step, one after the other. -/
def checks : Step → List Check
  | load .. => [.function, .declared, .determined, .pairing, .name]
  | stream .. => [.inputs, .declared, .name]
  | filter .. => [.inputs, .name]
  | join .. => [.count, .inputs, .repetition, .name]
  | store .. => [.inputs, .function, .name]

/-- The word for a step. -/
def word : Step → String
  | load .. => "load"
  | stream .. => "stream"
  | filter .. => "filter"
  | join .. => "join"
  | store .. => "store"

/-- The text of the function that reads or writes the files of a step. -/
def function? : Step → Option String
  | load _ _ loader .. => some (loader.getD "PigStorage")
  | store _ _ _ storer => some (storer.getD "PigStorage")
  | _ => none

/-- The schema that a step declares. -/
def declared? : Step → Option (List FieldDecl)
  | load _ _ _ schema _ => schema
  | stream _ _ _ _ schema => schema
  | _ => none

/-- The schema that was found in the files of a step. -/
def determined? : Step → Option (List FieldDecl)
  | load _ _ _ _ determined => determined
  | _ => none

/-- What a reference means is among the earlier steps. -/
def Available (earlier : List Step) : Reference → Prop
  | .previous => earlier ≠ []
  | .named name => ∃ j, Pipeline.nameAt earlier j = some name

/-- The fault of a step that refers to something that is not there. -/
def Reference.fault (reader : String) : Reference → WiringFault
  | previous => .noInput reader
  | named name => .unknownName reader name

/-! ## Failing a check -/

open Pipeline in
/-- The step fails a check, and this is reported. Of several inputs that are missing it is the first
that is reported, and of several that are given again as well. -/
inductive Fails (earlier : List Step) (s : Step) : Check → PipelineError → Prop
  | count (few : s.references.length < 2) :
      Fails earlier s .count (.wiring (.tooFewInputs s.references.length))
  | inputs {before after : List Reference} {r : Reference}
      (references_eq : s.references = before ++ r :: after)
      (available : ∀ b ∈ before, Available earlier b) (missing : ¬ Available earlier r) :
      Fails earlier s .inputs (.wiring (r.fault s.word))
  | function {text : String} {e : Error} (function_eq : s.function? = some text)
      (refused : FunctionSpec.parse text = .error e) : Fails earlier s .function (.model e)
  | declared {ds : List FieldDecl} {e : Error} (declared_eq : s.declared? = some ds)
      (fault : FieldDecl.FirstFault ds e) : Fails earlier s .declared (.model e)
  | determined {ds : List FieldDecl} {e : Error} (determined_eq : s.determined? = some ds)
      (fault : FieldDecl.FirstFault ds e) : Fails earlier s .determined (.model e)
  | undeclared {ds : List FieldDecl} (determined_eq : s.determined? = some ds)
      (declared_eq : s.declared? = none) :
      Fails earlier s .pairing (.model .determinedWithoutDeclared)
  | unequal {ds ds' : List FieldDecl} (determined_eq : s.determined? = some ds)
      (declared_eq : s.declared? = some ds') (length_ne : ds.length ≠ ds'.length) :
      Fails earlier s .pairing (.model (.determinedSize ds.length ds'.length))
  | repetition {before after : List Reference} {name : String} {j : Nat}
      (references_eq : s.references = before ++ .named name :: after) (nodup : before.Nodup)
      (again : .named name ∈ before) (given : nameAt earlier j = some name) :
      Fails earlier s .repetition (.model (.alreadyConnected (opId j) (opId earlier.length)))
  | name {name : String} {j : Nat} (name_eq : s.name = some name)
      (given : nameAt earlier j = some name) : Fails earlier s .name (.wiring (.nameTwice name))

/-- The step passes a check. -/
def Passes (earlier : List Step) (s : Step) (c : Check) : Prop :=
  ∀ e, ¬ s.Fails earlier c e

/-- Of a list of checks the step fails this one first. -/
def FailsFirst (earlier : List Step) (s : Step) (cs : List Check) (c : Check) (e : PipelineError) :
    Prop :=
  ∃ before after, cs = before ++ c :: after ∧ (∀ b ∈ before, s.Passes earlier b) ∧
    s.Fails earlier c e

/-- The step is valid after the earlier ones. -/
def Valid (earlier : List Step) (s : Step) : Prop :=
  ∀ c ∈ s.checks, s.Passes earlier c

end Step

/-- Each of the steps is valid after those before it. -/
def Pipeline.AllValid (steps : List Step) : Prop :=
  ∀ before s after, steps = before ++ s :: after → s.Valid before

namespace Step

variable {earlier : List Step} {s : Step} {c d : Check} {cs cs' : List Check}
  {e : PipelineError}

/-- What is reported is in the family of the check. -/
theorem Fails.family_eq (h : s.Fails earlier c e) : e.family = c.family := by
  cases h with
  | function _ refused => exact congrArg _ (FunctionSpec.category_of_parse_eq_error refused)
  | declared _ fault =>
    obtain ⟨_, _, _, _, _, fault⟩ := fault
    exact congrArg _ fault.category_eq
  | determined _ fault =>
    obtain ⟨_, _, _, _, _, fault⟩ := fault
    exact congrArg _ fault.category_eq
  | _ => rfl

/-! ## Lists of checks -/

theorem FailsFirst.family_eq (h : s.FailsFirst earlier cs c e) : e.family = c.family := by
  obtain ⟨_, _, -, -, hc⟩ := h
  exact hc.family_eq

theorem failsFirst_singleton : s.FailsFirst earlier [c] d e ↔ d = c ∧ s.Fails earlier c e := by
  constructor
  · rintro ⟨before, after, heq, -, hd⟩
    cases before with
    | nil =>
      cases heq
      exact ⟨rfl, hd⟩
    | cons b before => simp at heq
  · rintro ⟨rfl, hd⟩
    exact ⟨[], [], rfl, nofun, hd⟩

/-- The first check that fails is in the first part of a list, or everything there is passed. -/
theorem failsFirst_append : s.FailsFirst earlier (cs ++ cs') d e ↔
    s.FailsFirst earlier cs d e ∨ (∀ c ∈ cs, s.Passes earlier c) ∧ s.FailsFirst earlier cs' d e := by
  constructor
  · rintro ⟨before, after, heq, hbefore, hd⟩
    rcases List.append_eq_append_iff.mp heq with ⟨l, rfl, rfl⟩ | ⟨l, rfl, hl⟩
    · refine .inr ⟨fun c hc ↦ hbefore c (List.mem_append_left l hc), l, after, rfl, ?_, hd⟩
      exact fun b hb ↦ hbefore b (List.mem_append_right cs hb)
    · cases l with
      | nil =>
        rw [List.append_nil]
        exact .inr ⟨hbefore, [], after, hl.symm, nofun, hd⟩
      | cons c l =>
        cases hl
        exact .inl ⟨before, l, rfl, hbefore, hd⟩
  · rintro (⟨before, after, rfl, hbefore, hd⟩ | ⟨hcs, before, after, rfl, hbefore, hd⟩)
    · exact ⟨before, after ++ cs', by simp, hbefore, hd⟩
    · exact ⟨cs ++ before, after, (List.append_assoc ..).symm,
        fun b hb ↦ (List.mem_append.mp hb).elim (hcs b) (hbefore b), hd⟩

/-- If a check of a list fails, there is one that fails first. -/
theorem forall_passes_iff :
    (∀ c ∈ cs, s.Passes earlier c) ↔ ∀ c e, ¬ s.FailsFirst earlier cs c e := by
  constructor
  · rintro h c e ⟨before, after, rfl, -, hc⟩
    exact h c (by simp) e hc
  · induction cs with
    | nil => exact fun _ ↦ nofun
    | cons c cs ih =>
      intro h
      have hc : s.Passes earlier c := fun e he ↦ h c e ⟨[], cs, rfl, nofun, he⟩
      refine List.forall_mem_cons.mpr ⟨hc, ih fun d e hd ↦ h d e ?_⟩
      exact failsFirst_append.mpr (.inr ⟨List.forall_mem_singleton.mpr hc, hd⟩)

end Step

namespace Pipeline

variable {steps : List Step} {s : Step}

/-- What is reported of the steps: the first check failed by the first step that is not valid. -/
def FirstFault (steps : List Step) (e : PipelineError) : Prop :=
  ∃ before s after c, steps = before ++ s :: after ∧ AllValid before ∧
    s.FailsFirst before s.checks c e

theorem allValid_append_singleton : AllValid (steps ++ [s]) ↔ AllValid steps ∧ s.Valid steps := by
  constructor
  · intro h
    refine ⟨fun before s' after heq ↦ h before s' (after ++ [s]) ?_, h steps s [] rfl⟩
    rw [heq, List.append_assoc, List.cons_append]
  · rintro ⟨hsteps, hs⟩ before s' after heq
    rcases List.eq_nil_or_concat after with rfl | ⟨after, s'', rfl⟩
    · obtain ⟨rfl, h⟩ := List.append_inj' heq rfl
      cases h
      exact hs
    · rw [List.concat_eq_append, ← List.cons_append, ← List.append_assoc] at heq
      exact hsteps before s' after (List.append_inj' heq rfl).1

end Pipeline

/-! ## What is not looked at -/

namespace Step

/-- The step without the function that reads the output of its command. -/
def withoutOutput : Step → Step
  | stream name input command _ schema => stream name input command none schema
  | s => s

/-- All that the checks see of a step. -/
structure Alike (s s' : Step) : Prop where
  checks_eq : s'.checks = s.checks
  word_eq : s'.word = s.word
  name_eq : s'.name = s.name
  references_eq : s'.references = s.references
  function_eq : s'.function? = s.function?
  declared_eq : s'.declared? = s.declared?
  determined_eq : s'.determined? = s.determined?

variable {s s' : Step} {steps steps' earlier earlier' : List Step} {cs : List Check} {c : Check}
  {e : PipelineError}

theorem alike_of_withoutOutput_eq (h : s'.withoutOutput = s.withoutOutput) : Alike s s' := by
  cases s <;> cases s' <;> cases h <;> exact ⟨rfl, rfl, rfl, rfl, rfl, rfl, rfl⟩

theorem nameAt_eq_of_map_eq (h : steps'.map withoutOutput = steps.map withoutOutput) (k : Nat) :
    Pipeline.nameAt steps' k = Pipeline.nameAt steps k := by
  have hk : steps'[k]?.map withoutOutput = steps[k]?.map withoutOutput := by
    rw [← List.getElem?_map, ← List.getElem?_map, h]
  rw [Pipeline.nameAt, Pipeline.nameAt]
  cases hs : steps[k]? with
  | none =>
    rw [hs, Option.map_none, Option.map_eq_none_iff] at hk
    rw [hk]
  | some s =>
    rw [hs, Option.map_some, Option.map_eq_some_iff] at hk
    obtain ⟨s', hs', heq⟩ := hk
    rw [hs']
    exact (alike_of_withoutOutput_eq heq).name_eq

section

variable (hearlier : earlier'.map withoutOutput = earlier.map withoutOutput)
  (hs : s'.withoutOutput = s.withoutOutput)
include hearlier

theorem available_congr {r : Reference} : Available earlier' r ↔ Available earlier r := by
  cases r with
  | previous =>
    rw [Available, Available, ne_eq, ne_eq, ← List.map_eq_nil_iff (f := withoutOutput), hearlier,
      List.map_eq_nil_iff]
  | named name => simp only [Available, nameAt_eq_of_map_eq hearlier]

include hs

theorem Fails.congr (h : s.Fails earlier c e) : s'.Fails earlier' c e := by
  have halike := alike_of_withoutOutput_eq hs
  have hlength : earlier'.length = earlier.length := by
    simpa only [List.length_map] using congrArg List.length hearlier
  cases h with
  | count few =>
    rw [← halike.references_eq] at few ⊢
    exact .count few
  | inputs references_eq available missing =>
    rw [← halike.word_eq]
    refine .inputs (halike.references_eq.trans references_eq) (fun b hb ↦ ?_) ?_
    · exact (available_congr hearlier).mpr (available b hb)
    · exact fun h ↦ missing ((available_congr hearlier).mp h)
  | function function_eq refused => exact .function (halike.function_eq.trans function_eq) refused
  | declared declared_eq fault => exact .declared (halike.declared_eq.trans declared_eq) fault
  | determined determined_eq fault =>
    exact .determined (halike.determined_eq.trans determined_eq) fault
  | undeclared determined_eq declared_eq =>
    exact .undeclared (halike.determined_eq.trans determined_eq)
      (halike.declared_eq.trans declared_eq)
  | unequal determined_eq declared_eq length_ne =>
    exact .unequal (halike.determined_eq.trans determined_eq)
      (halike.declared_eq.trans declared_eq) length_ne
  | repetition references_eq nodup again given =>
    rw [← hlength]
    exact .repetition (halike.references_eq.trans references_eq) nodup again
      ((nameAt_eq_of_map_eq hearlier _).trans given)
  | name name_eq given =>
    exact .name (halike.name_eq.trans name_eq) ((nameAt_eq_of_map_eq hearlier _).trans given)

theorem fails_congr : s'.Fails earlier' c e ↔ s.Fails earlier c e :=
  ⟨.congr hearlier.symm hs.symm, .congr hearlier hs⟩

theorem failsFirst_congr : s'.FailsFirst earlier' cs c e ↔ s.FailsFirst earlier cs c e := by
  simp only [FailsFirst, Passes, fails_congr hearlier hs]

theorem valid_congr : s'.Valid earlier' ↔ s.Valid earlier := by
  rw [Valid, Valid, (alike_of_withoutOutput_eq hs).checks_eq]
  simp only [Passes, fails_congr hearlier hs]

end

end Step

namespace Pipeline

variable {steps steps' : List Step} {e : PipelineError}

open Step in
theorem AllValid.congr (hsteps : steps'.map withoutOutput = steps.map withoutOutput)
    (h : AllValid steps) : AllValid steps' := by
  rintro before' s' after' rfl
  rw [List.map_append, List.map_cons] at hsteps
  obtain ⟨before, rest, rfl, hbefore, hrest⟩ := List.map_eq_append_iff.mp hsteps.symm
  obtain ⟨s, after, rfl, hs, -⟩ := List.map_eq_cons_iff.mp hrest
  exact (valid_congr hbefore.symm hs.symm).mpr (h before s after rfl)

open Step in
/-- The functions that read the output of a command have no part in what is reported. -/
theorem FirstFault.congr (hsteps : steps'.map withoutOutput = steps.map withoutOutput)
    (h : FirstFault steps e) : FirstFault steps' e := by
  obtain ⟨before, s, after, c, rfl, hvalid, hc⟩ := h
  rw [List.map_append, List.map_cons] at hsteps
  obtain ⟨before', rest, rfl, hbefore, hrest⟩ := List.map_eq_append_iff.mp hsteps
  obtain ⟨s', after', rfl, hs, -⟩ := List.map_eq_cons_iff.mp hrest
  refine ⟨before', s', after', c, rfl, hvalid.congr hbefore, ?_⟩
  rw [(alike_of_withoutOutput_eq hs).checks_eq]
  exact (failsFirst_congr hbefore hs).mpr hc

end Pipeline

end Dataflow
