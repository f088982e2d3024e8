import Dataflow.Pipeline.Build
import Dataflow.Pipeline.Json
import Dataflow.Proofs.Json.Untyped

/-!
# Pipeline documents are read back from JSON

A step says by an entry of its record what it is, and that entry may stand anywhere. So a step is read
as an untyped value, the entry is looked for among the others (`Step.ofUntyped_record`), and what
remains is the record of the step. The members of a declared field are read from untyped values too,
and how far down they go is taken from the value itself (`FieldDecl.exists_untyped_toJson`).

What a document leaves out is written as null, and a list without items as an empty array. The codecs
keep the two apart in every place where both may stand, so a document survives the way through text as
it is (`Pipeline.decodeText_render_document`).
-/

namespace Dataflow

open Json (IsCodec isCodec_word legible_record slots?_record exists_of_depth_record_le)

/-! ## Settings of a document -/

theorem Overrides.isCodec : IsCodec toJson ofJson where
  legible o := legible_record (by
    simp [(isCodec_word.option fun _ ↦ nofun).legible,
      (Json.isCodec_string.list.option fun _ ↦ nofun).legible])
  decode o n hn := by
    obtain ⟨n, rfl, hiterations, hrules⟩ := exists_of_depth_record_le hn
    have hslots : o.toJson.slots? Settings.layout =
        some [some (.ofOption (fun w ↦ .ofNat w.toNat) o.maxIterations),
          some (.ofOption (.ofList .ofString) o.disabledRules)] :=
      slots?_record rfl
    simp [ofJson, hslots, Json.nullable, (isCodec_word.option fun _ ↦ nofun).decode _ hiterations,
      (Json.isCodec_string.list.option fun _ ↦ nofun).decode _ hrules]

/-! ## Declared fields -/

namespace FieldDecl

mutual

theorem legible_toJson : (f : FieldDecl) → Json.Legible f.toJson
  | ⟨name, type, none⟩ =>
    legible_record (by simp [Json.isCodec_string.legible, Json.Legible.null])
  | ⟨name, type, some members⟩ =>
    have hfields : Json.Legible (.arr (toJsonEach members)) := .arr (legible_toJsonEach members)
    legible_record (by simp [Json.isCodec_string.legible, hfields])

theorem legible_toJsonEach : (fs : List FieldDecl) → ∀ j ∈ toJsonEach fs, Json.Legible j
  | [] => nofun
  | f :: fs => List.forall_mem_cons.mpr ⟨legible_toJson f, legible_toJsonEach fs⟩

end

mutual

/-- A field is read from its untyped value, within the levels of that value. -/
theorem exists_untyped_toJson : (f : FieldDecl) → {n : Nat} → f.toJson.depth ≤ n →
    ∃ v, Untyped.ofJson n f.toJson = some v ∧ ∀ m, v.depth ≤ m → ofUntypedWithin m v = some f
  | ⟨name, type, none⟩, n, hn => by
    obtain ⟨n, rfl, -⟩ := exists_of_depth_record_le hn
    let entries : List (String × Untyped) :=
      [("name", .text name), ("type", .text type), ("fields", .null)]
    have hv : Untyped.ofJson (n + 1) (toJson ⟨name, type, none⟩) = some (.record entries) := by
      simp [toJson, Untyped.ofJson_record, Untyped.ofJson, entries, Untyped.record]
    refine ⟨_, hv, fun m hm ↦ ?_⟩
    obtain ⟨m, rfl, -⟩ := Untyped.exists_of_depth_record_le hm
    rw [ofUntypedWithin, Untyped.slots?_record rfl]
    rfl
  | ⟨name, type, some members⟩, n, hn => by
    obtain ⟨n, rfl, -, -, hfields⟩ := exists_of_depth_record_le hn
    obtain ⟨n, rfl, hmembers⟩ := Json.exists_of_depth_arr_le hfields
    obtain ⟨vs, hvs, hread⟩ := exists_untyped_toJsonEach members hmembers
    let entries : List (String × Untyped) :=
      [("name", .text name), ("type", .text type), ("fields", .seq vs)]
    have hv : Untyped.ofJson (n + 2) (toJson ⟨name, type, some members⟩) =
        some (.record entries) := by
      simp [toJson, Untyped.ofJson_record, Untyped.ofJson, hvs, entries, Untyped.record]
    refine ⟨_, hv, fun m hm ↦ ?_⟩
    obtain ⟨m, rfl, -, -, hdepth⟩ := Untyped.exists_of_depth_record_le hm
    have hvs' : vs.mapM (ofUntypedWithin m) = some members := hread m (Nat.le_of_succ_le hdepth)
    have hslots : (Untyped.record entries).slots? layout =
        some [some (.text name), some (.text type), some (.seq vs)] :=
      Untyped.slots?_record rfl
    simp [ofUntypedWithin, hslots, Untyped.required?, Untyped.string?, Untyped.nullable?,
      Untyped.option?, Untyped.list?, hvs']

theorem exists_untyped_toJsonEach : (fs : List FieldDecl) → {n : Nat} →
    (∀ j ∈ toJsonEach fs, j.depth ≤ n) → ∃ vs, (toJsonEach fs).mapM (Untyped.ofJson n) = some vs ∧
      ∀ m, Untyped.depthItems vs ≤ m → vs.mapM (ofUntypedWithin m) = some fs
  | [], _, _ => ⟨[], rfl, fun _ _ ↦ rfl⟩
  | f :: fs, n, hn => by
    obtain ⟨hf, hfs⟩ := List.forall_mem_cons.mp hn
    obtain ⟨v, hv, hread⟩ := exists_untyped_toJson f hf
    obtain ⟨vs, hvs, hreads⟩ := exists_untyped_toJsonEach fs hfs
    refine ⟨v :: vs, by simp [toJsonEach, hv, hvs], fun m hm ↦ ?_⟩
    rw [Untyped.depthItems, Nat.max_le] at hm
    simp [hread m hm.1, hreads m hm.2]

end

theorem isCodec : IsCodec toJson (Untyped.buffered ofUntyped) where
  legible := legible_toJson
  decode f n hn := by
    obtain ⟨v, hv, hread⟩ := exists_untyped_toJson f hn
    rw [Untyped.buffered, hv, Option.bind_some, ofUntyped, hread _ (Nat.le_refl _)]

end FieldDecl

/-! ## Steps -/

namespace Step

open Untyped (isCodec_string isCodec_text exists_ofJson_of_isCodec)

/-- The tag is found among the entries, and the others are the record of the step. -/
theorem ofUntyped_record (tag : String) {entries : List (String × Untyped)}
    (h : (entries.map (·.1)).contains tagName = false) :
    ofUntyped (.record ((tagName, .text tag) :: entries)) = ofRecord? tag (.record entries) := by
  have hne : ∀ e ∈ entries, isTagKey (.text e.1) = false := by
    intro e he
    rw [List.contains_eq_mem, decide_eq_false_iff_not] at h
    exact decide_eq_false fun heq ↦ h (heq ▸ List.mem_map_of_mem he)
  have htagged : (entries.map fun e ↦ (Untyped.text e.1, e.2)).filter (isTagKey ·.1) = [] := by
    rw [List.filter_eq_nil_iff, List.forall_mem_map]
    simpa using hne
  have hrest : (entries.map fun e ↦ (Untyped.text e.1, e.2)).filter (!isTagKey ·.1) =
      entries.map fun e ↦ (Untyped.text e.1, e.2) := by
    rw [List.filter_eq_self, List.forall_mem_map]
    simpa using hne
  have hkey : isTagKey (.text tagName) = true := rfl
  simp only [Untyped.record, ofUntyped, List.map_cons, List.partition_eq_filter_filter,
    Function.comp_def, List.filter_cons, hkey, htagged, hrest]
  rfl

/-- A step is read from its record once the tree has been read. -/
theorem ofJson_of_record {n : Nat} {j : Json} {tag : String} {entries : List (String × Untyped)}
    (hj : Untyped.ofJson n j = some (.record ((tagName, .text tag) :: entries)))
    (h : (entries.map (·.1)).contains tagName = false) :
    ofJson n j = ofRecord? tag (.record entries) := by
  rw [ofJson, hj]
  exact ofUntyped_record tag h

theorem isCodec_fields :
    IsCodec fieldsToJson (Untyped.buffered (Untyped.option? (Untyped.list? FieldDecl.ofUntyped))) :=
  Untyped.isCodec_option (Untyped.isCodec_list FieldDecl.isCodec) fun _ ↦ nofun

theorem isCodec_keys : IsCodec keysToJson (Untyped.buffered (Untyped.pair? Untyped.string?)) where
  legible p := .arr (by simp [isCodec_string.legible])
  decode p n hn := by
    obtain ⟨n, rfl, -⟩ := Json.exists_of_depth_arr_le hn
    simp [Untyped.buffered, keysToJson, Untyped.ofJson, Untyped.pair?, Untyped.string?]

theorem isCodec : IsCodec toJson ofJson where
  legible s := by
    cases s with
    | load name source loader schema determined =>
      exact legible_record (by
        simp [isCodec_string.legible, textToJson, isCodec_text.legible, isCodec_fields.legible])
    | stream name input command output schema =>
      exact legible_record (by
        simp [isCodec_string.legible, textToJson, isCodec_text.legible, isCodec_fields.legible])
    | filter name input predicate =>
      exact legible_record (by simp [isCodec_string.legible, textToJson, isCodec_text.legible])
    | join name inputs on =>
      exact legible_record (by
        simp [isCodec_string.legible, textToJson, isCodec_text.legible,
          (Untyped.isCodec_list isCodec_string).legible, (Untyped.isCodec_list isCodec_keys).legible])
    | store name input destination storer =>
      exact legible_record (by simp [isCodec_string.legible, textToJson, isCodec_text.legible])
  decode s n hn := by
    cases s with
    | load name source loader schema determined =>
      obtain ⟨n, rfl, -, hname, -, hloader, hschema, hdetermined⟩ := exists_of_depth_record_le hn
      obtain ⟨v₁, hv₁, hname⟩ := exists_ofJson_of_isCodec isCodec_text hname
      obtain ⟨v₂, hv₂, hloader⟩ := exists_ofJson_of_isCodec isCodec_text hloader
      obtain ⟨v₃, hv₃, hschema⟩ := exists_ofJson_of_isCodec isCodec_fields hschema
      obtain ⟨v₄, hv₄, hdetermined⟩ := exists_ofJson_of_isCodec isCodec_fields hdetermined
      let entries : List (String × Untyped) :=
        [("alias", v₁), ("source", .text source), ("loader", v₂), ("schema", v₃),
          ("determined_schema", v₄)]
      have hv : Untyped.ofJson (n + 1) (toJson (load name source loader schema determined)) =
          some (.record ((tagName, .text "load") :: entries)) := by
        simp [toJson, textToJson, Untyped.ofJson_record, hv₁, hv₂, hv₃, hv₄, entries,
          Untyped.record]
      have hslots : (Untyped.record entries).slots? loadLayout =
          some [some v₁, some (.text source), some v₂, some v₃, some v₄] :=
        Untyped.slots?_record rfl
      rw [ofJson_of_record hv rfl]
      simp [ofRecord?, hslots, Untyped.nullable?, Untyped.required?, Untyped.string?, hname, hloader,
        hschema, hdetermined]
    | stream name input command output schema =>
      obtain ⟨n, rfl, -, hname, hinput, -, houtput, hschema⟩ := exists_of_depth_record_le hn
      obtain ⟨v₁, hv₁, hname⟩ := exists_ofJson_of_isCodec isCodec_text hname
      obtain ⟨v₂, hv₂, hinput⟩ := exists_ofJson_of_isCodec isCodec_text hinput
      obtain ⟨v₃, hv₃, houtput⟩ := exists_ofJson_of_isCodec isCodec_text houtput
      obtain ⟨v₄, hv₄, hschema⟩ := exists_ofJson_of_isCodec isCodec_fields hschema
      let entries : List (String × Untyped) :=
        [("alias", v₁), ("input", v₂), ("command", .text command), ("output", v₃), ("schema", v₄)]
      have hv : Untyped.ofJson (n + 1) (toJson (stream name input command output schema)) =
          some (.record ((tagName, .text "stream") :: entries)) := by
        simp [toJson, textToJson, Untyped.ofJson_record, hv₁, hv₂, hv₃, hv₄, entries,
          Untyped.record]
      have hslots : (Untyped.record entries).slots? streamLayout =
          some [some v₁, some v₂, some (.text command), some v₃, some v₄] :=
        Untyped.slots?_record rfl
      rw [ofJson_of_record hv rfl]
      simp [ofRecord?, hslots, Untyped.nullable?, Untyped.required?, Untyped.string?, hname, hinput,
        houtput, hschema]
    | filter name input predicate =>
      obtain ⟨n, rfl, -, hname, hinput, -⟩ := exists_of_depth_record_le hn
      obtain ⟨v₁, hv₁, hname⟩ := exists_ofJson_of_isCodec isCodec_text hname
      obtain ⟨v₂, hv₂, hinput⟩ := exists_ofJson_of_isCodec isCodec_text hinput
      let entries : List (String × Untyped) :=
        [("alias", v₁), ("input", v₂), ("expr", .text predicate)]
      have hv : Untyped.ofJson (n + 1) (toJson (filter name input predicate)) =
          some (.record ((tagName, .text "filter") :: entries)) := by
        simp [toJson, textToJson, Untyped.ofJson_record, hv₁, hv₂, entries, Untyped.record]
      have hslots : (Untyped.record entries).slots? filterLayout =
          some [some v₁, some v₂, some (.text predicate)] :=
        Untyped.slots?_record rfl
      rw [ofJson_of_record hv rfl]
      simp [ofRecord?, hslots, Untyped.nullable?, Untyped.required?, Untyped.string?, hname, hinput]
    | join name inputs on =>
      obtain ⟨n, rfl, -, hname, hinputs, hon⟩ := exists_of_depth_record_le hn
      obtain ⟨v₁, hv₁, hname⟩ := exists_ofJson_of_isCodec isCodec_text hname
      obtain ⟨v₂, hv₂, hinputs⟩ :=
        exists_ofJson_of_isCodec (Untyped.isCodec_list isCodec_string) hinputs
      obtain ⟨v₃, hv₃, hon⟩ := exists_ofJson_of_isCodec (Untyped.isCodec_list isCodec_keys) hon
      let entries : List (String × Untyped) := [("alias", v₁), ("inputs", v₂), ("on", v₃)]
      have hv : Untyped.ofJson (n + 1) (toJson (join name inputs on)) =
          some (.record ((tagName, .text "join") :: entries)) := by
        simp [toJson, textToJson, Untyped.ofJson_record, hv₁, hv₂, hv₃, entries, Untyped.record]
      have hslots : (Untyped.record entries).slots? joinLayout =
          some [some v₁, some v₂, some v₃] :=
        Untyped.slots?_record rfl
      rw [ofJson_of_record hv rfl]
      simp [ofRecord?, hslots, Untyped.nullable?, Untyped.required?, hname, hinputs, hon]
    | store name input destination storer =>
      obtain ⟨n, rfl, -, hname, hinput, -, hstorer⟩ := exists_of_depth_record_le hn
      obtain ⟨v₁, hv₁, hname⟩ := exists_ofJson_of_isCodec isCodec_text hname
      obtain ⟨v₂, hv₂, hinput⟩ := exists_ofJson_of_isCodec isCodec_text hinput
      obtain ⟨v₃, hv₃, hstorer⟩ := exists_ofJson_of_isCodec isCodec_text hstorer
      let entries : List (String × Untyped) :=
        [("alias", v₁), ("input", v₂), ("destination", .text destination), ("storer", v₃)]
      have hv : Untyped.ofJson (n + 1) (toJson (store name input destination storer)) =
          some (.record ((tagName, .text "store") :: entries)) := by
        simp [toJson, textToJson, Untyped.ofJson_record, hv₁, hv₂, hv₃, entries, Untyped.record]
      have hslots : (Untyped.record entries).slots? storeLayout =
          some [some v₁, some v₂, some (.text destination), some v₃] :=
        Untyped.slots?_record rfl
      rw [ofJson_of_record hv rfl]
      simp [ofRecord?, hslots, Untyped.nullable?, Untyped.required?, Untyped.string?, hname, hinput,
        hstorer]

end Step

/-! ## Documents -/

namespace Pipeline

theorem isCodec : IsCodec toJson ofJson where
  legible p := legible_record (by
    simp [(Overrides.isCodec.option fun _ ↦ nofun).legible, Step.isCodec.list.legible])
  decode p n hn := by
    obtain ⟨n, rfl, hoverrides, hsteps⟩ := exists_of_depth_record_le hn
    have hslots : p.toJson.slots? layout =
        some [some (.ofOption Overrides.toJson p.overrides), some (.ofList Step.toJson p.steps)] :=
      slots?_record rfl
    simp [ofJson, hslots, Json.nullable, Json.required,
      (Overrides.isCodec.option fun _ ↦ nofun).decode _ hoverrides,
      Step.isCodec.list.decode _ hsteps]

/-- **A document is read back from its JSON text**, if it is not nested more deeply than the reader
allows. So different documents have different texts: what is absent is never read as something empty,
nor the other way around. And the document that is read gives the same plan or the same error, under
the same settings. -/
theorem decodeText_render_document (p : Pipeline) (hp : p.toJson.depth ≤ Json.depthLimit) :
    Json.decodeText ofJson p.toJson.render = some p ∧
    (∀ p' : Pipeline, p'.toJson.depth ≤ Json.depthLimit → p'.toJson.render = p.toJson.render →
      p' = p) ∧
    (Json.decodeText ofJson p.toJson.render).map
      (fun p' ↦ (p'.build, p'.overrides.getD .none)) = some (p.build, p.overrides.getD .none) := by
  have hread := isCodec.decodeText_render hp
  refine ⟨hread, fun p' hp' heq ↦ ?_, by rw [hread, Option.map_some]⟩
  have hread' := isCodec.decodeText_render hp'
  rw [heq, hread] at hread'
  exact (Option.some.inj hread').symm

/-- A step of every kind. The load declares no fields, the stream has fields with and without members,
an empty name and no output, and the join has a repeated key. -/
def sampler : Pipeline where
  overrides := some ⟨none, some []⟩
  steps := [
    .load (some "a\"\\\n\x01é") "in" none (some []) none,
    .stream (some "") none "cut" none
      (some [⟨"x", "tuple", some []⟩, ⟨"y", "bag", some [⟨"z", " INT ", none⟩]⟩]),
    .filter none (some "") "x > 0",
    .join none ["", "a\"\\\n\x01é"] [("l", "r"), ("l", "r")],
    .store none none "out" (some "PigStorage(',')")]

theorem decodeText_render_document_sampler :
    sampler.toJson.depth ≤ Json.depthLimit ∧
      Json.decodeText ofJson sampler.toJson.render = some sampler ∧
      ({ sampler with overrides := none } : Pipeline).toJson.render ≠ sampler.toJson.render := by
  have hdepth : sampler.toJson.depth ≤ Json.depthLimit := by decide
  obtain ⟨hread, hdistinct, -⟩ := decodeText_render_document sampler hdepth
  refine ⟨hdepth, hread, fun heq ↦ ?_⟩
  have hsame := hdistinct { sampler with overrides := none } (by decide) heq
  exact absurd (congrArg Pipeline.overrides hsame) nofun

end Pipeline

end Dataflow
