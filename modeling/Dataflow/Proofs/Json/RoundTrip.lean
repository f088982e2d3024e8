import Dataflow.Operator.Json
import Dataflow.Proofs.Json.Expr
import Dataflow.Settings.Json

/-!
# Plans are read back from JSON

Tables have a codec because their entries are in the order of their keys: inserting them one after
another, as the reader does, only ever appends. Entries with an empty list of neighbours are written
like all others, so a plan keeps them, and nothing in the codec of a plan asks whether its two tables
of neighbours agree or whether its next identifier is free.

The depth of the tree is what the reader's limit is measured against. There is no other condition
on a value (`decodeText_render_toJson`).
-/

namespace Dataflow

open Json (IsCodec isCodec_string isCodec_text isCodec_truth isCodec_word legible_record
  slots?_record exists_of_depth_record_le legible_variant)

/-! ## Plans -/

theorem OpId.isCodec : IsCodec toJson ofJson where
  legible i := isCodec_word.legible i.val
  decode i n hn := by
    have hword : Json.word n i.toJson = some i.val := isCodec_word.decode i.val hn
    rw [ofJson, hword, Option.map_some]

theorem OpId.ofKey?_toKey (i : OpId) : ofKey? i.toKey = some i := by
  have hnumeral : Json.isNumeral i.toKey := Json.isNumeral_digits i.toNat
  have hword : Text.Decimal.word? i.toKey = some i.val := Text.Decimal.word?_digits i.val
  rw [ofKey?, if_pos hnumeral, hword, Option.map_some]

theorem OpId.isQuotable_toKey (i : OpId) : Json.IsQuotable i.toKey := by
  have h : Json.IsQuotable (Json.encode i.toKey) := Json.isQuotable_encode i.toKey
  rwa [toKey, Json.encode_digits] at h

section Plan

variable {α : Type} {f : α → Json} {d : Json.Decoder α}

theorem IdTable.isCodec (h : IsCodec f d) : IsCodec (toJson f) (ofJson d) where
  legible t := .obj
    (fun m hm ↦ by
      obtain ⟨e, -, rfl⟩ := List.mem_map.mp hm
      exact e.1.isQuotable_toKey)
    fun m hm ↦ by
      obtain ⟨e, -, rfl⟩ := List.mem_map.mp hm
      exact h.legible e.2
  decode t n hn := by
    obtain ⟨n, rfl, hvalues⟩ := Json.exists_of_depth_obj_le hn
    rw [List.forall_mem_map] at hvalues
    -- Every entry is read back, and a table is the table of its entries.
    rw [toJson, ofJson, Json.mapM_map_eq_some fun e he ↦ by
      simp [OpId.ofKey?_toKey, h.decode _ (hvalues e he)]]
    exact congrArg some t.ofList_entries

theorem Plan.isCodec (h : IsCodec f d) : IsCodec (toJson f) (ofJson d) where
  legible p := legible_record (by
    simp [(IdTable.isCodec h).legible, (IdTable.isCodec OpId.isCodec.list).legible,
      OpId.isCodec.legible])
  decode p n hn := by
    obtain ⟨n, rfl, hoperators, houtgoing, hincoming, hnextId⟩ := exists_of_depth_record_le hn
    have hslots : (p.toJson f).slots? layout =
        some [some (p.operators.toJson f), some (p.outgoing.toJson (.ofList OpId.toJson)),
          some (p.incoming.toJson (.ofList OpId.toJson)), some p.nextId.toJson] :=
      slots?_record rfl
    simp [ofJson, hslots, Json.required, (IdTable.isCodec h).decode _ hoperators,
      (IdTable.isCodec OpId.isCodec.list).decode _ houtgoing,
      (IdTable.isCodec OpId.isCodec.list).decode _ hincoming, OpId.isCodec.decode _ hnextId]

end Plan

/-! ## Operators -/

theorem FileSpec.isCodec : IsCodec toJson ofJson where
  legible f := legible_record (by simp [isCodec_string.legible, FunctionSpec.isCodec.legible])
  decode f n hn := by
    obtain ⟨n, rfl, hname, hfunction⟩ := exists_of_depth_record_le hn
    have hslots : f.toJson.slots? layout =
        some [some (.ofString f.fileName), some f.function.toJson] :=
      slots?_record rfl
    simp [ofJson, hslots, Json.required, isCodec_string.decode _ hname,
      FunctionSpec.isCodec.decode _ hfunction]

theorem OutputHandle.isCodec : IsCodec toJson ofJson where
  legible h := legible_variant (isCodec_string.legible h.text)
  decode h n hn := by
    obtain ⟨n, rfl, htext⟩ := exists_of_depth_record_le hn
    have hslots : h.toJson.slots? layout = some [some (.ofString h.text)] := slots?_record rfl
    simp [ofJson, hslots, Json.required, isCodec_string.decode _ htext]

theorem Command.isCodec : IsCodec toJson ofJson where
  legible c := legible_record (by simp [isCodec_string.legible, OutputHandle.isCodec.legible])
  decode c n hn := by
    obtain ⟨n, rfl, hexecutable, houtput⟩ := exists_of_depth_record_le hn
    have hslots : c.toJson.slots? layout =
        some [some (.ofString c.executable), some c.output.toJson] :=
      slots?_record rfl
    simp [ofJson, hslots, Json.required, isCodec_string.decode _ hexecutable,
      OutputHandle.isCodec.decode _ houtput]

theorem Load.isCodec : IsCodec toJson ofJson where
  legible l := legible_record (by
    simp [isCodec_text.legible, FileSpec.isCodec.legible, Schema.isCodec_option.legible,
      isCodec_truth.legible])
  decode l n hn := by
    obtain ⟨n, rfl, hname, hfile, hdeclared, hdetermined, hcast⟩ := exists_of_depth_record_le hn
    have hslots : l.toJson.slots? layout =
        some [some (.ofOption .ofString l.name), some l.file.toJson,
          some (.ofOption Schema.toJson l.declared), some (.ofOption Schema.toJson l.determined),
          some (.bool l.castInserted)] :=
      slots?_record rfl
    simp [ofJson, hslots, Json.required, Json.nullable, isCodec_text.decode _ hname,
      FileSpec.isCodec.decode _ hfile, Schema.isCodec_option.decode _ hdeclared,
      Schema.isCodec_option.decode _ hdetermined, isCodec_truth.decode _ hcast]

theorem Stream.isCodec : IsCodec toJson ofJson where
  legible s := legible_record (by
    simp [isCodec_text.legible, Command.isCodec.legible, Schema.isCodec_option.legible,
      isCodec_truth.legible])
  decode s n hn := by
    obtain ⟨n, rfl, hname, hcommand, hdeclared, hcast⟩ := exists_of_depth_record_le hn
    have hslots : s.toJson.slots? layout =
        some [some (.ofOption .ofString s.name), some s.command.toJson,
          some (.ofOption Schema.toJson s.declared), some (.bool s.castInserted)] :=
      slots?_record rfl
    simp [ofJson, hslots, Json.required, Json.nullable, isCodec_text.decode _ hname,
      Command.isCodec.decode _ hcommand, Schema.isCodec_option.decode _ hdeclared,
      isCodec_truth.decode _ hcast]

theorem Filter.isCodec : IsCodec toJson ofJson where
  legible f := legible_record (by simp [isCodec_text.legible, isCodec_string.legible])
  decode f n hn := by
    obtain ⟨n, rfl, hname, hpredicate⟩ := exists_of_depth_record_le hn
    have hslots : f.toJson.slots? layout =
        some [some (.ofOption .ofString f.name), some (.ofString f.predicate)] :=
      slots?_record rfl
    simp [ofJson, hslots, Json.required, Json.nullable, isCodec_text.decode _ hname,
      isCodec_string.decode _ hpredicate]

theorem Join.isCodec_pair : IsCodec pairToJson (Json.pair Json.string) where
  legible p := .arr (by simp [isCodec_string.legible])
  decode p n hn := by
    obtain ⟨n, rfl, h⟩ := Json.exists_of_depth_arr_le hn
    simp only [List.forall_mem_cons] at h
    obtain ⟨hfst, hsnd, -⟩ := h
    simp [pairToJson, Json.pair, isCodec_string.decode _ hfst, isCodec_string.decode _ hsnd]

theorem Join.isCodec : IsCodec toJson ofJson where
  legible op := legible_record (by simp [isCodec_text.legible, isCodec_pair.list.legible])
  decode op n hn := by
    obtain ⟨n, rfl, hname, hon⟩ := exists_of_depth_record_le hn
    have hslots : op.toJson.slots? layout =
        some [some (.ofOption .ofString op.name), some (.ofList pairToJson op.on)] :=
      slots?_record rfl
    simp [ofJson, hslots, Json.required, Json.nullable, isCodec_text.decode _ hname,
      isCodec_pair.list.decode _ hon]

theorem Store.isCodec : IsCodec toJson ofJson where
  legible s := legible_record (by simp [isCodec_text.legible, FileSpec.isCodec.legible])
  decode s n hn := by
    obtain ⟨n, rfl, hname, hfile⟩ := exists_of_depth_record_le hn
    have hslots : s.toJson.slots? layout =
        some [some (.ofOption .ofString s.name), some s.file.toJson] :=
      slots?_record rfl
    simp [ofJson, hslots, Json.required, Json.nullable, isCodec_text.decode _ hname,
      FileSpec.isCodec.decode _ hfile]

theorem Generate.isCodec : IsCodec toJson ofJson where
  legible g := legible_record (by
    simp [OutputColumn.isCodec.list.legible, isCodec_truth.list.legible])
  decode g n hn := by
    obtain ⟨n, rfl, houtputs, hflatten⟩ := exists_of_depth_record_le hn
    have hslots : g.toJson.slots? layout =
        some [some (.ofList OutputColumn.toJson g.outputs), some (.ofList .bool g.flatten)] :=
      slots?_record rfl
    simp [ofJson, hslots, Json.required, OutputColumn.isCodec.list.decode _ houtputs,
      isCodec_truth.list.decode _ hflatten]

theorem InnerOperator.isCodec : IsCodec toJson ofJson where
  legible
    | generate g => legible_variant (Generate.isCodec.legible g)
    | innerLoad column => legible_variant (legible_variant (isCodec_word.legible column))
  decode op n hn := by
    cases op with
    | generate g =>
      obtain ⟨n, rfl, hg⟩ := exists_of_depth_record_le hn
      have hform : (generate g).toJson.variant? = some ("Generate", g.toJson) :=
        Json.variant?_record _ _
      -- A generation is a record, so there is a second level to enter.
      obtain ⟨n, rfl, -⟩ := exists_of_depth_record_le hg
      simp [ofJson, hform, Generate.isCodec.decode _ hg]
    | innerLoad column =>
      obtain ⟨n, rfl, hcontent⟩ := exists_of_depth_record_le hn
      obtain ⟨n, rfl, hcolumn⟩ := exists_of_depth_record_le hcontent
      have hform : (innerLoad column).toJson.variant? = some ("InnerLoad", _) :=
        Json.variant?_record _ _
      have hslots : (Json.record [("column", .ofNat column.toNat)]).slots? loadLayout =
          some [some (.ofNat column.toNat)] :=
        slots?_record rfl
      simp [ofJson, hform, hslots, Json.required, isCodec_word.decode _ hcolumn]

theorem ForEach.isCodec : IsCodec toJson ofJson where
  legible f := legible_record (by
    simp [isCodec_text.legible, (Plan.isCodec InnerOperator.isCodec).legible])
  decode f n hn := by
    obtain ⟨n, rfl, hname, hinner⟩ := exists_of_depth_record_le hn
    have hslots : f.toJson.slots? layout =
        some [some (.ofOption .ofString f.name), some (f.inner.toJson InnerOperator.toJson)] :=
      slots?_record rfl
    simp [ofJson, hslots, Json.required, Json.nullable, isCodec_text.decode _ hname,
      (Plan.isCodec InnerOperator.isCodec).decode _ hinner]

theorem Operator.isCodec : IsCodec toJson ofJson where
  legible
    | load op => legible_variant (Load.isCodec.legible op)
    | stream op => legible_variant (Stream.isCodec.legible op)
    | filter op => legible_variant (Filter.isCodec.legible op)
    | forEach op => legible_variant (ForEach.isCodec.legible op)
    | join op => legible_variant (Join.isCodec.legible op)
    | store op => legible_variant (Store.isCodec.legible op)
  decode op n hn := by
    cases op with
    | load op =>
      obtain ⟨n, rfl, hop⟩ := exists_of_depth_record_le hn
      simp [ofJson, toJson, Json.variant?_record, Load.isCodec.decode _ hop]
    | stream op =>
      obtain ⟨n, rfl, hop⟩ := exists_of_depth_record_le hn
      simp [ofJson, toJson, Json.variant?_record, Stream.isCodec.decode _ hop]
    | filter op =>
      obtain ⟨n, rfl, hop⟩ := exists_of_depth_record_le hn
      simp [ofJson, toJson, Json.variant?_record, Filter.isCodec.decode _ hop]
    | forEach op =>
      obtain ⟨n, rfl, hop⟩ := exists_of_depth_record_le hn
      simp [ofJson, toJson, Json.variant?_record, ForEach.isCodec.decode _ hop]
    | join op =>
      obtain ⟨n, rfl, hop⟩ := exists_of_depth_record_le hn
      simp [ofJson, toJson, Json.variant?_record, Join.isCodec.decode _ hop]
    | store op =>
      obtain ⟨n, rfl, hop⟩ := exists_of_depth_record_le hn
      simp [ofJson, toJson, Json.variant?_record, Store.isCodec.decode _ hop]

theorem LogicalPlan.isCodec : IsCodec toJson ofJson :=
  Plan.isCodec Operator.isCodec

/-! ## Settings -/

theorem Settings.isCodec : IsCodec toJson ofJson where
  legible s := legible_record (by
    simp [Json.legible_ofNat, isCodec_string.list.legible])
  decode s n hn := by
    obtain ⟨n, rfl, hiterations, hrules⟩ := exists_of_depth_record_le hn
    have hslots : s.toJson.slots? layout =
        some [some (.ofNat s.maxIterations.toNat), some (.ofList .ofString s.disabledRules)] :=
      slots?_record rfl
    simp [ofJson, hslots, Json.withDefault, isCodec_word.decode _ hiterations,
      isCodec_string.list.decode _ hrules]

/-! ## Through text -/

/-- **What is written as JSON is read back as it was**, if it is not nested more deeply than the reader
allows: plans of a dataflow and plans of names, schemas and fields, function specs, expressions, output
columns, generations and settings. -/
theorem decodeText_render_toJson :
    (∀ p : LogicalPlan, (LogicalPlan.toJson p).depth ≤ Json.depthLimit →
      Json.decodeText LogicalPlan.ofJson (LogicalPlan.toJson p).render = some p) ∧
    (∀ p : Plan String, (p.toJson .ofString).depth ≤ Json.depthLimit →
      Json.decodeText (Plan.ofJson Json.string) (p.toJson .ofString).render = some p) ∧
    (∀ s : Schema, s.toJson.depth ≤ Json.depthLimit →
      Json.decodeText Schema.ofJson s.toJson.render = some s) ∧
    (∀ f : Field, f.toJson.depth ≤ Json.depthLimit →
      Json.decodeText Field.ofJson f.toJson.render = some f) ∧
    (∀ f : FunctionSpec, f.toJson.depth ≤ Json.depthLimit →
      Json.decodeText FunctionSpec.ofJson f.toJson.render = some f) ∧
    (∀ e : Expr, e.toJson.depth ≤ Json.depthLimit →
      Json.decodeText Expr.ofJson e.toJson.render = some e) ∧
    (∀ c : OutputColumn, c.toJson.depth ≤ Json.depthLimit →
      Json.decodeText OutputColumn.ofJson c.toJson.render = some c) ∧
    (∀ g : Generate, g.toJson.depth ≤ Json.depthLimit →
      Json.decodeText Generate.ofJson g.toJson.render = some g) ∧
    ∀ s : Settings, s.toJson.depth ≤ Json.depthLimit →
      Json.decodeText Settings.ofJson s.toJson.render = some s :=
  ⟨fun _ ↦ LogicalPlan.isCodec.decodeText_render,
    fun _ ↦ (Plan.isCodec isCodec_string).decodeText_render,
    fun _ ↦ Schema.isCodec.decodeText_render, fun _ ↦ Field.isCodec.decodeText_render,
    fun _ ↦ FunctionSpec.isCodec.decodeText_render, fun _ ↦ Expr.isCodec.decodeText_render,
    fun _ ↦ OutputColumn.isCodec.decodeText_render, fun _ ↦ Generate.isCodec.decodeText_render,
    fun _ ↦ Settings.isCodec.decodeText_render⟩

namespace Sample

/-- A bag whose name has to be escaped. -/
def field : Field :=
  ⟨some "a\"\\\n\x01é", .bag, some [⟨none, .tuple, some []⟩, ⟨some "", .chararray, none⟩]⟩

/-- A cast of a cast, at the highest numbers there are. -/
def expr : Expr :=
  .cast (.cast (.project 18446744073709551615 0) (.anonymous .int) none) field
    (some ⟨"Reader", ["\t", "'"]⟩)

/-- A generation that lacks a flag. -/
def generate : Generate :=
  ⟨[⟨expr⟩, ⟨.project 0 1⟩], [true]⟩

/-- A plan with a neighbour that does not exist, an empty list of neighbours and an identifier that is
given twice. -/
def plan : LogicalPlan where
  operators := ⟨[
    (⟨0⟩, .load ⟨none, ⟨"in", ⟨"Storage", []⟩⟩, some ⟨[field]⟩, some ⟨[]⟩, true⟩),
    (⟨18446744073709551615⟩, .forEach ⟨some "each",
      ⟨⟨[(⟨7⟩, .innerLoad 3), (⟨8⟩, .generate generate)], by decide⟩, .empty, .empty, ⟨8⟩⟩⟩)],
    by decide⟩
  outgoing := ⟨[(⟨0⟩, []), (⟨5⟩, [⟨0⟩, ⟨0⟩])], by decide⟩
  incoming := .empty
  nextId := ⟨0⟩

/-- A plan of names without edges. -/
def names : Plan String :=
  ⟨⟨[(⟨1⟩, "π"), (⟨2⟩, "")], by decide⟩, ⟨[(⟨1⟩, [])], by decide⟩, .empty, ⟨3⟩⟩

/-- Settings with a rule that does not exist. -/
def settings : Settings :=
  ⟨18446744073709551615, ["/", ""]⟩

end Sample

open Sample in
theorem decodeText_render_toJson_sample :
    Json.decodeText LogicalPlan.ofJson (LogicalPlan.toJson plan).render = some plan ∧
    Json.decodeText (Plan.ofJson Json.string) (names.toJson .ofString).render = some names ∧
    Json.decodeText Schema.ofJson (Schema.toJson ⟨[field]⟩).render = some ⟨[field]⟩ ∧
    Json.decodeText Field.ofJson field.toJson.render = some field ∧
    Json.decodeText FunctionSpec.ofJson (FunctionSpec.toJson ⟨"f", []⟩).render = some ⟨"f", []⟩ ∧
    Json.decodeText Expr.ofJson expr.toJson.render = some expr ∧
    Json.decodeText OutputColumn.ofJson (OutputColumn.toJson ⟨expr⟩).render = some ⟨expr⟩ ∧
    Json.decodeText Generate.ofJson generate.toJson.render = some generate ∧
    Json.decodeText Settings.ofJson settings.toJson.render = some settings := by
  obtain ⟨hplan, hnames, hschema, hfield, hspec, hexpr, hcolumn, hgenerate, hsettings⟩ :=
    decodeText_render_toJson
  exact ⟨hplan plan (by decide), hnames names (by decide), hschema ⟨[field]⟩ (by decide),
    hfield field (by decide), hspec ⟨"f", []⟩ (by decide), hexpr expr (by decide),
    hcolumn ⟨expr⟩ (by decide), hgenerate generate (by decide), hsettings settings (by decide)⟩

end Dataflow
