import Dataflow.CommandLine.Run
import Dataflow.Proofs.Json.Indented
import Dataflow.Proofs.Json.Sorted
import Dataflow.Proofs.Text.Decimal

/-!
# The two outputs of an optimization

`optimize` prints the plan and the summary of a run as a listing with a trailer, or as one JSON object.
Both come from the same run, because the option for JSON sets nothing. What has to be shown is that
the object says as much as the text. The text has the listing of the plan under a heading, and a trailer
with the number of applications and of passes, with a note where the passes were used up, and with a line
for each application (`Yields.optimize_eq_text`). The object is indented and its members are sorted at every
depth, and still the plan and the summary are read back from it as they were (`optimize_json_eq_text`).

The summary is only ever written by the program. `Summary.ofJson` reads it by the names of its
members, as the plan is read.
-/

namespace Dataflow

open Json (IsCodec Unordered isCodec_string isCodec_truth legible_record slots?_record
  exists_of_depth_record_le)

/-! ## Reading summaries -/

namespace Json

/-- A natural number, written as digits alone. -/
def natural : Decoder Nat
  | _, num n => Text.Decimal.read? n
  | _, _ => none

theorem isCodec_natural : IsCodec ofNat natural where
  legible := legible_ofNat
  decode n _ _ := Text.Decimal.read?_digits n

theorem Unordered.natural : Unordered natural := by
  intro n j
  cases j <;> rfl

theorem depth_record_le {members : List (String × Json)} {n : Nat}
    (h : ∀ m ∈ members, m.2.depth ≤ n) : (record members).depth ≤ n + 1 :=
  Nat.succ_le_succ (depthMembers_le_iff.mpr (List.forall_mem_map.mpr h))

theorem depth_ofList_le {α : Type} {f : α → Json} {l : List α} {n : Nat}
    (h : ∀ a ∈ l, (f a).depth ≤ n) : (ofList f l).depth ≤ n + 1 :=
  Nat.succ_le_succ (depthItems_le_iff.mpr (List.forall_mem_map.mpr h))

end Json

namespace Application

/-- The record of an application. -/
def layout : Layout :=
  [("rule", .required), ("node", .required), ("touched", .required)]

/-- Reads an application. -/
def ofJson : Json.Decoder Application
  | 0, _ => none
  | n + 1, j => do
    let [rule, node, touched] ← j.slots? layout | none
    return ⟨← Json.required Json.string n rule, ← Json.required OpId.ofJson n node,
      ← Json.required (Json.list OpId.ofJson) n touched⟩

theorem isCodec : IsCodec toJson ofJson where
  legible a := legible_record (by
    simp [isCodec_string.legible, OpId.isCodec.legible, OpId.isCodec.list.legible])
  decode a n hn := by
    obtain ⟨n, rfl, hrule, hnode, htouched⟩ := exists_of_depth_record_le hn
    have hslots : a.toJson.slots? layout =
        some [some (.ofString a.rule), some a.node.toJson,
          some (.ofList OpId.toJson a.touched)] :=
      slots?_record rfl
    simp [ofJson, hslots, Json.required, isCodec_string.decode _ hrule,
      OpId.isCodec.decode _ hnode, OpId.isCodec.list.decode _ htouched]

theorem unordered : Unordered ofJson :=
  .record (fun _ ↦ rfl) (fun _ _ ↦ rfl) fun n slots ↦ by
    rcases slots with _ | ⟨rule, _ | ⟨node, _ | ⟨touched, _ | _⟩⟩⟩ <;>
      simp [Unordered.string.required, OpId.unordered.required, OpId.unordered.list.required]

end Application

namespace Summary

/-- The record of a summary. -/
def layout : Layout :=
  [("iterations", .required), ("applications", .required), ("reached_fixed_point", .required)]

/-- Reads a summary. -/
def ofJson : Json.Decoder Summary
  | 0, _ => none
  | n + 1, j => do
    let [iterations, applications, reachedFixedPoint] ← j.slots? layout | none
    return ⟨← Json.required Json.natural n iterations,
      ← Json.required (Json.list Application.ofJson) n applications,
      ← Json.required Json.truth n reachedFixedPoint⟩

theorem isCodec : IsCodec toJson ofJson where
  legible s := legible_record (by
    simp [Json.legible_ofNat, Application.isCodec.list.legible, isCodec_truth.legible])
  decode s n hn := by
    obtain ⟨n, rfl, hiterations, happlications, hreached⟩ := exists_of_depth_record_le hn
    have hslots : s.toJson.slots? layout =
        some [some (.ofNat s.iterations), some (.ofList Application.toJson s.applications),
          some (.bool s.reachedFixedPoint)] :=
      slots?_record rfl
    simp [ofJson, hslots, Json.required, Json.isCodec_natural.decode _ hiterations,
      Application.isCodec.list.decode _ happlications, isCodec_truth.decode _ hreached]

theorem unordered : Unordered ofJson :=
  .record (fun _ ↦ rfl) (fun _ _ ↦ rfl) fun n slots ↦ by
    rcases slots with _ | ⟨iterations, _ | ⟨applications, _ | ⟨reached, _ | _⟩⟩⟩ <;>
      simp [Json.Unordered.natural.required, Application.unordered.list.required,
        Unordered.truth.required]

theorem isCodec_sortKeys : IsCodec (fun s ↦ (toJson s).sortKeys) ofJson :=
  isCodec.sortKeys (isCodec.takesSorted unordered)

/-- The deepest values of a summary are the lists of operators that its applications have touched. -/
theorem depth_toJson_le (s : Summary) : s.toJson.depth ≤ 4 := by
  have htouched (a : Application) : (Json.ofList OpId.toJson a.touched).depth ≤ 1 :=
    Json.depth_ofList_le fun i _ ↦ Nat.le_refl i.toJson.depth
  have happlication (a : Application) : a.toJson.depth ≤ 2 :=
    Json.depth_record_le (by simpa using ⟨Nat.zero_le 1, Nat.zero_le 1, htouched a⟩)
  have happlications : (Json.ofList Application.toJson s.applications).depth ≤ 3 :=
    Json.depth_ofList_le fun a _ ↦ happlication a
  exact Json.depth_record_le (by simpa using ⟨Nat.zero_le 3, happlications, Nat.zero_le 3⟩)

end Summary

namespace CommandLine

variable {environment : String → Option String} {content : Except FileFault String} {o : Options}
  {s : Summary} {p : LogicalPlan}

/-! ## The result of a run -/

/-- The rules, under the settings of a run, have done what `s` says and left the plan `p`. -/
def Yields (environment : String → Option String) (content : Except FileFault String)
    (o : Options) (s : Summary) (p : LogicalPlan) : Prop :=
  ∃ plan document, readInput content = .ok (plan, document) ∧
    (Optimizer.withDefaultRules (settings environment document o)).optimize plan = (.ok s, p)

/-- The option for JSON sets nothing. -/
theorem yields_json_iff (json : Bool) :
    Yields environment content { o with json := json } s p ↔ Yields environment content o s p :=
  .rfl

theorem Yields.optimize_eq (h : Yields environment content o s p) :
    optimize environment content o =
      if o.json then .success (resultJson p s ++ "\n")
      else .success (listing "Optimized Plan" p ++ "\n" ++ summaryText s) := by
  obtain ⟨plan, document, hread, hrun⟩ := h
  simp only [optimize, hread, hrun]

theorem exists_yields_of_exitCode_eq_zero (h : (optimize environment content o).exitCode = 0) :
    ∃ s p, Yields environment content o s p := by
  rw [optimize] at h
  cases hread : readInput content with
  | error e =>
    rw [hread] at h
    cases h
  | ok input =>
    obtain ⟨plan, document⟩ := input
    rw [hread] at h
    rcases hrun : (Optimizer.withDefaultRules (settings environment document o)).optimize plan
      with ⟨_ | s, p⟩
    · simp only [hrun] at h
      cases h
    · exact ⟨s, p, plan, document, hread, hrun⟩

/-! ## The text -/

open Text.Decimal (toString_string)

theorem listing_optimizedPlan (p : LogicalPlan) :
    listing "Optimized Plan" p = "Optimized Plan\n==============\n" ++ p.explain := by
  have hunderline : String.ofList (List.replicate "Optimized Plan".length '=') =
      "==============" := by decide
  have hheading : "Optimized Plan\n==============\n" =
      "Optimized Plan" ++ ("\n" ++ ("==============" ++ "\n")) := by decide
  simp only [listing, toString_string, hunderline, hheading, String.append_assoc]

theorem applicationLine_eq (a : Application) :
    applicationLine a = s!"  {a.rule} on OpId({a.node.toNat})\n" := by
  have hid : " on OpId(" = " on " ++ "OpId(" := rfl
  have hclose : ")\n" = ")" ++ "\n" := rfl
  simp only [applicationLine, toString_string, OpId.toString_eq, hid, hclose, String.append_assoc]

theorem summaryText_eq (s : Summary) :
    summaryText s =
      s!"Rules applied: {s.applications.length} in {s.iterations} iteration(s)" ++
        (if s.reachedFixedPoint then "" else " (iteration cap reached)") ++ "\n" ++
        String.join (s.applications.map fun a ↦ s!"  {a.rule} on OpId({a.node.toNat})\n") := by
  have hlines : applicationLine = fun a ↦ s!"  {a.rule} on OpId({a.node.toNat})\n" :=
    funext applicationLine_eq
  unfold summaryText
  rw [hlines]
  simp only [toString_string, String.append_assoc]

theorem Yields.optimize_eq_text (h : Yields environment content o s p) :
    optimize environment content { o with json := false } =
      ⟨0, "Optimized Plan\n==============\n" ++ p.explain ++ "\n" ++
        (s!"Rules applied: {s.applications.length} in {s.iterations} iteration(s)" ++
          (if s.reachedFixedPoint then "" else " (iteration cap reached)") ++ "\n" ++
          String.join (s.applications.map fun a ↦ s!"  {a.rule} on OpId({a.node.toNat})\n")),
        ""⟩ := by
  rw [((yields_json_iff false).mpr h).optimize_eq, if_neg Bool.false_ne_true,
    listing_optimizedPlan, summaryText_eq]
  rfl

/-! ## The object -/

theorem parse_resultJson (p : LogicalPlan) (s : Summary) :
    Json.parse (resultJson p s ++ "\n") =
      some (.obj [("plan".toList, (LogicalPlan.toJson p).sortKeys),
        ("summary".toList, s.toJson.sortKeys)]) := by
  have hlegible : Json.Legible (.record [("summary", s.toJson), ("plan", LogicalPlan.toJson p)]) :=
    legible_record (by simp [Summary.isCodec.legible, LogicalPlan.isCodec.legible])
  rw [resultJson, Json.parse_renderIndented hlegible.sortKeys]
  rfl

/-- **One result in two formats.** Where the text is printed, so is a JSON object with the members
`plan` and `summary`, in which the members of every object are in the order of their keys. The text is
the listing of a plan under a heading, and after an empty line a trailer that gives a summary. A reader
that may enter the levels of the plan takes this plan from the object, and the summary that is read is
the one in the trailer. -/
theorem optimize_json_eq_text (environment : String → Option String)
    (content : Except FileFault String) (o : Options)
    (h : (optimize environment content { o with json := false }).exitCode = 0) :
    ∃ p s planTree summaryTree,
      optimize environment content { o with json := false } =
        ⟨0, "Optimized Plan\n==============\n" ++ p.explain ++ "\n" ++
          (s!"Rules applied: {s.applications.length} in {s.iterations} iteration(s)" ++
            (if s.reachedFixedPoint then "" else " (iteration cap reached)") ++ "\n" ++
            String.join (s.applications.map fun a ↦ s!"  {a.rule} on OpId({a.node.toNat})\n")),
          ""⟩ ∧
      (optimize environment content { o with json := true }).exitCode = 0 ∧
      (optimize environment content { o with json := true }).stderr = "" ∧
      Json.parse (optimize environment content { o with json := true }).stdout =
        some (.obj [("plan".toList, planTree), ("summary".toList, summaryTree)]) ∧
      planTree.InOrder ∧ summaryTree.InOrder ∧
      (∀ limit, planTree.depth ≤ limit → LogicalPlan.ofJson limit planTree = some p) ∧
      (planTree.depth ≤ Json.depthLimit →
        Json.decodeText LogicalPlan.ofJson planTree.render = some p) ∧
      Summary.ofJson Json.depthLimit summaryTree = some s ∧
      Json.decodeText Summary.ofJson summaryTree.render = some s := by
  obtain ⟨s, p, hyields⟩ := exists_yields_of_exitCode_eq_zero h
  have hjson := ((yields_json_iff (o := o) true).mpr hyields).optimize_eq
  have hsummary : s.toJson.sortKeys.depth ≤ Json.depthLimit := by
    rw [(Summary.isCodec.legible s).depth_sortKeys]
    exact Nat.le_trans s.depth_toJson_le (by decide)
  refine ⟨p, s, (LogicalPlan.toJson p).sortKeys, s.toJson.sortKeys, hyields.optimize_eq_text, ?_, ?_,
    ?_, (LogicalPlan.isCodec.legible p).inOrder_sortKeys,
    (Summary.isCodec.legible s).inOrder_sortKeys,
    fun _ ↦ LogicalPlan.isCodec_sortKeys.decode p,
    LogicalPlan.isCodec_sortKeys.decodeText_render,
    Summary.isCodec_sortKeys.decode s hsummary,
    Summary.isCodec_sortKeys.decodeText_render hsummary⟩
  · rw [hjson]
    rfl
  · rw [hjson]
    rfl
  · rw [hjson]
    exact parse_resultJson p s

/-- A load of one typed column feeds a store. -/
def sampleDocument : String :=
  "steps:\n- \x7bop: load, alias: A, source: in, schema: [\x7bname: a, type: int\x7d]\x7d\n" ++
    "- \x7bop: store, input: A, destination: out\x7d\n"

theorem optimize_json_eq_text_sampleDocument :
    (optimize (fun _ ↦ none) (.ok sampleDocument) .none).exitCode = 0 ∧
      ∃ p s planTree summaryTree, (optimize (fun _ ↦ none) (.ok sampleDocument) .none).stdout =
          "Optimized Plan\n==============\n" ++ p.explain ++ "\n" ++
            (s!"Rules applied: {s.applications.length} in {s.iterations} iteration(s)" ++
              (if s.reachedFixedPoint then "" else " (iteration cap reached)") ++ "\n" ++
              String.join
                (s.applications.map fun a ↦ s!"  {a.rule} on OpId({a.node.toNat})\n")) ∧
        (optimize (fun _ ↦ none) (.ok sampleDocument) ⟨none, true, none, []⟩).exitCode = 0 ∧
        LogicalPlan.ofJson planTree.depth planTree = some p ∧
        Summary.ofJson Json.depthLimit summaryTree = some s := by
  have hok : (optimize (fun _ ↦ none) (.ok sampleDocument) .none).exitCode = 0 := by
    decide +kernel
  obtain ⟨p, s, planTree, summaryTree, htext, hjson, -, -, -, -, hplan, -, hsummary, -⟩ :=
    optimize_json_eq_text (fun _ ↦ none) (.ok sampleDocument) .none hok
  exact ⟨hok, p, s, planTree, summaryTree, congrArg Outcome.stdout htext, hjson,
    hplan _ (Nat.le_refl _), hsummary⟩

end CommandLine

end Dataflow
