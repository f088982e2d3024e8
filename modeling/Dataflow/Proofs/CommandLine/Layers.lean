import Dataflow.Proofs.CommandLine.Output
import Dataflow.Proofs.Settings.Environment

/-!
# The layers of settings

The settings of a run come from the options, the document and the environment. Each field has its value
from the highest of these layers that sets it, whatever sets the other field, and a default where none
does. `FromHighest` says this of any field and any list of layers, and `fromHighest_foldr` derives it for
all of them from what one layer does to the settings below it.

The layers differ in what counts as set. Options set the rules that are left out only if they name one,
while a document also sets an empty list, and the environment does so too whenever its variable is there,
but it sets a number of passes only with the text of one.
-/

namespace Dataflow

/-! ## Layers -/

/-- The value of a field with the default `d` under some layers, the highest of them first: the value
that the first layer gives it which gives it any. A layer is given by the values that it sets. -/
inductive FromHighest {α : Type} (d : α) : List (α → Prop) → α → Prop
  | default : FromHighest d [] d
  | sets {layer : α → Prop} {layers : List (α → Prop)} {a : α} (h : layer a) :
      FromHighest d (layer :: layers) a
  | skips {layer : α → Prop} {layers : List (α → Prop)} {a : α} (h : ∀ b, ¬ layer b)
      (ha : FromHighest d layers a) : FromHighest d (layer :: layers) a

/-- If a layer gives a field the value that it sets and otherwise leaves the field as it is, then under
any number of layers the field has its value from the highest one that sets it. The induction takes the
highest layer away. -/
theorem fromHighest_foldr {α : Type} (value : Settings → α) (set : Overrides → Option α)
    (hstep : ∀ s o, value (s.override o) = (set o).getD (value s)) (s : Settings) (a : α) :
    ∀ layers : List Overrides,
      FromHighest (value s) (layers.map fun o b ↦ set o = some b) a ↔
        value (layers.foldr (fun o s ↦ s.override o) s) = a
  | [] => by
    constructor
    · rintro ⟨⟩
      rfl
    · rintro rfl
      exact .default
  | o :: layers => by
    have ih := fromHighest_foldr value set hstep s a layers
    rw [List.map_cons, List.foldr_cons, hstep]
    constructor
    · rintro (_ | h | ⟨h, ha⟩)
      · rw [h, Option.getD_some]
      · rw [Option.eq_none_iff_forall_ne_some.mpr h, Option.getD_none]
        exact ih.mp ha
    · intro h
      cases ho : set o with
      | none =>
        rw [ho, Option.getD_none] at h
        exact .skips (fun _ ↦ nofun) (ih.mpr h)
      | some b =>
        rw [ho, Option.getD_some] at h
        exact .sets (congrArg some h)

namespace CommandLine

open Settings (SetsPasses SetsDisabled Entry)

variable {environment : String → Option String} {document : Overrides} {o : Options} {s : Settings}
  {content : Except FileFault String} {plan p : LogicalPlan}

/-- The settings that the options, the document and the environment give to a run, field by field. -/
structure Layered (environment : String → Option String) (document : Overrides) (o : Options)
    (s : Settings) : Prop where
  maxIterations : FromHighest 100
    [(o.maxIterations = some ·), (document.maxIterations = some ·), SetsPasses environment]
    s.maxIterations
  disabledRules : FromHighest []
    [fun l ↦ l ≠ [] ∧ l = o.disabled, (document.disabledRules = some ·), SetsDisabled environment]
    s.disabledRules

theorem Options.disabledRules_overrides_iff {l : List String} :
    o.overrides.disabledRules = some l ↔ l ≠ [] ∧ l = o.disabled := by
  cases hdisabled : o.disabled with
  | nil => simp [overrides, hdisabled]
  | cons name names => simp +contextual [overrides, hdisabled, eq_comm]

theorem fromHighest_maxIterations_iff {w : UInt64} :
    FromHighest 100
        [(o.maxIterations = some ·), (document.maxIterations = some ·), SetsPasses environment] w ↔
      (settings environment document o).maxIterations = w := by
  have hlayer : SetsPasses environment =
      fun w ↦ (Settings.environmentLayer environment).maxIterations = some w :=
    funext fun _ ↦ propext Settings.maxIterations_environmentLayer_iff.symm
  rw [hlayer]
  exact fromHighest_foldr Settings.maxIterations Overrides.maxIterations (fun _ _ ↦ rfl)
    Settings.default w [o.overrides, document, Settings.environmentLayer environment]

theorem fromHighest_disabledRules_iff {l : List String} :
    FromHighest []
        [fun l ↦ l ≠ [] ∧ l = o.disabled, (document.disabledRules = some ·),
          SetsDisabled environment] l ↔
      (settings environment document o).disabledRules = l := by
  have hlayer : SetsDisabled environment =
      fun l ↦ (Settings.environmentLayer environment).disabledRules = some l :=
    funext fun _ ↦ propext Settings.disabledRules_environmentLayer_iff.symm
  have hoptions : (fun l ↦ l ≠ [] ∧ l = o.disabled) =
      fun l ↦ o.overrides.disabledRules = some l :=
    funext fun _ ↦ propext Options.disabledRules_overrides_iff.symm
  rw [hlayer, hoptions]
  exact fromHighest_foldr Settings.disabledRules Overrides.disabledRules (fun _ _ ↦ rfl)
    Settings.default l [o.overrides, document, Settings.environmentLayer environment]

theorem layered_iff : Layered environment document o s ↔ settings environment document o = s := by
  constructor
  · rintro ⟨hmax, hdisabled⟩
    exact congrArg₂ Settings.mk (fromHighest_maxIterations_iff.mp hmax)
      (fromHighest_disabledRules_iff.mp hdisabled)
  · rintro rfl
    exact ⟨fromHighest_maxIterations_iff.mpr rfl, fromHighest_disabledRules_iff.mpr rfl⟩

theorem Layered.optimize_eq_failure {e : Error} (h : Layered environment document o s)
    (hread : readInput content = .ok (plan, document))
    (hrun : (Optimizer.withDefaultRules s).optimize plan = (.error e, p)) :
    optimize environment content o = .failure "" "Error" e.message := by
  rw [← layered_iff.mp h] at hrun
  simp only [optimize, hread, hrun]

theorem Layered.optimize_eq {summary : Summary} (h : Layered environment document o s)
    (hread : readInput content = .ok (plan, document))
    (hrun : (Optimizer.withDefaultRules s).optimize plan = (.ok summary, p)) :
    optimize environment content o =
      if o.json then .success (resultJson p summary ++ "\n")
      else .success (listing "Optimized Plan" p ++ "\n" ++ summaryText summary) := by
  rw [← layered_iff.mp h] at hrun
  exact Yields.optimize_eq ⟨plan, document, hread, hrun⟩

/-- **Each field comes from the highest layer that sets it.** The settings of a run are the only ones
that the layers give field by field, and `optimize` prints what the rules do under them. A list of names
is read back from the environment, whatever blanks stand around the names, and so is a number, unless it
does not fit a word and the default stays. -/
theorem settings_from_highest_layer :
    (∀ (environment : String → Option String) (document : Overrides) (o : Options) (s : Settings),
      settings environment document o = s ↔ Layered environment document o s) ∧
    (∀ (environment : String → Option String) (content : Except FileFault String) (o : Options)
        (plan : LogicalPlan) (document : Overrides) (s : Settings),
      readInput content = .ok (plan, document) → Layered environment document o s →
        (∀ e p, (Optimizer.withDefaultRules s).optimize plan = (.error e, p) →
          optimize environment content o = .failure "" "Error" e.message) ∧
        ∀ summary p, (Optimizer.withDefaultRules s).optimize plan = (.ok summary, p) →
          optimize environment content o =
            if o.json then .success (resultJson p summary ++ "\n")
            else .success (listing "Optimized Plan" p ++ "\n" ++ summaryText summary)) ∧
    (∀ (environment : String → Option String) (entries : List Entry),
      environment "FLOWPLAN_DISABLED_RULES" = some (",".intercalate (entries.map Entry.text)) →
        (Settings.ofEnvironment environment).disabledRules = entries.map Entry.name) ∧
    ∀ (environment : String → Option String) (n : Nat),
      environment "FLOWPLAN_MAX_ITERATIONS" = some (toString n) →
        (Settings.ofEnvironment environment).maxIterations.toNat =
          if n < UInt64.size then n else 100 := by
  refine ⟨fun _ _ _ _ ↦ layered_iff.symm, fun _ _ _ _ _ _ hread hlayered ↦ ⟨?_, ?_⟩,
    fun _ entries h ↦ ?_, fun _ n h ↦ ?_⟩
  · intro e p hrun
    exact hlayered.optimize_eq_failure hread hrun
  · intro summary p hrun
    exact hlayered.optimize_eq hread hrun
  · exact Settings.disabledRules_ofEnvironment_of_lists
      ⟨_, h, Settings.lists_intercalate entries⟩
  · exact Settings.maxIterations_ofEnvironment_of_toString h

/-- An environment that sets both fields, in texts with blanks. -/
def sampleEnvironment (name : String) : Option String :=
  if name = "FLOWPLAN_MAX_ITERATIONS" then some "\t+07 "
  else if name = "FLOWPLAN_DISABLED_RULES" then some " LoadTypeCastInserter, ,X "
  else none

/-- Two names, the first of them between blanks. -/
def sampleEntries : List Entry :=
  [⟨"\t", "a b", " ", by decide, by decide, by decide⟩,
    ⟨"", "X", "", by decide, by decide, by decide⟩]

/-- Documents and options override the sample environment field by field. A run under its settings
prints what the rules do. The first number that does not fit a word leaves the default. -/
theorem settings_from_highest_layer_sampleEnvironment :
    Layered sampleEnvironment .none .none ⟨7, ["LoadTypeCastInserter", "X"]⟩ ∧
    Layered sampleEnvironment ⟨some 3, none⟩ .none ⟨3, ["LoadTypeCastInserter", "X"]⟩ ∧
    Layered sampleEnvironment ⟨some 3, some []⟩ .none ⟨3, []⟩ ∧
    Layered sampleEnvironment ⟨some 3, some []⟩ ⟨none, false, some 9, ["X"]⟩ ⟨9, ["X"]⟩ ∧
    (∃ plan document s summary p, readInput (.ok sampleDocument) = .ok (plan, document) ∧
      Layered sampleEnvironment document .none s ∧
      (Optimizer.withDefaultRules s).optimize plan = (.ok summary, p) ∧
      optimize sampleEnvironment (.ok sampleDocument) .none =
        .success (listing "Optimized Plan" p ++ "\n" ++ summaryText summary)) ∧
    (Settings.ofEnvironment fun _ ↦ some "\ta b ,X").disabledRules = ["a b", "X"] ∧
    (Settings.ofEnvironment fun _ ↦ some "18446744073709551616").maxIterations.toNat = 100 := by
  obtain ⟨hlayers, hrun, hnames, hnumber⟩ := settings_from_highest_layer
  refine ⟨(hlayers _ _ _ _).mp ?_, (hlayers _ _ _ _).mp ?_, (hlayers _ _ _ _).mp ?_,
    (hlayers _ _ _ _).mp ?_, ?_, ?_, ?_⟩
  · decide +kernel
  · decide +kernel
  · decide +kernel
  · decide +kernel
  · have hok : (optimize sampleEnvironment (.ok sampleDocument) .none).exitCode = 0 := by
      decide +kernel
    obtain ⟨summary, p, plan, document, hread, hoptimize⟩ := exists_yields_of_exitCode_eq_zero hok
    have hlayered := (hlayers sampleEnvironment document .none _).mp rfl
    exact ⟨plan, document, _, summary, p, hread, hlayered, hoptimize,
      (hrun _ _ _ _ _ _ hread hlayered).2 summary p hoptimize⟩
  · exact hnames (fun _ ↦ some "\ta b ,X") sampleEntries (by decide +kernel)
  · exact hnumber (fun _ ↦ some "18446744073709551616") UInt64.size (by decide +kernel)

end CommandLine

end Dataflow
