import Dataflow.Expr.Json
import Dataflow.Proofs.Json.Codec

/-!
# Codecs for schemas, function specs and expressions

Each record is taken apart in the same way: its text has one level more than its parts, its members
fill the slots of its layout, and a codec for each part does the rest. Fields and expressions hold
values of their own type; their proofs follow the recursion of `toJson`, with the levels left open.
-/

namespace Dataflow

open Json (IsCodec isCodec_string isCodec_text isCodec_word legible_record slots?_record
  exists_of_depth_record_le legible_variant)

/-! ## Schemas -/

theorem DataType.isCodec : IsCodec toJson ofJson where
  legible t := isCodec_string.legible t.name
  decode t n _ := by
    have hname : Json.keyword n t.toJson = some t.name := Json.text?_encode t.name
    simp [ofJson, hname]

namespace Field

mutual

theorem legible_toJson : (f : Field) → Json.Legible f.toJson
  | ⟨name, type, none⟩ =>
    legible_record (by simp [isCodec_text.legible, DataType.isCodec.legible])
  | ⟨name, type, some members⟩ =>
    have hschema : Json.Legible (.record [("fields", .arr (toJsonEach members))]) :=
      legible_record (by simpa using Json.Legible.arr (legible_toJsonEach members))
    legible_record (by simp [isCodec_text.legible, DataType.isCodec.legible, hschema])

theorem legible_toJsonEach : (fs : List Field) → ∀ j ∈ toJsonEach fs, Json.Legible j
  | [] => nofun
  | f :: fs => List.forall_mem_cons.mpr ⟨legible_toJson f, legible_toJsonEach fs⟩

end

mutual

theorem ofJson_toJson : (f : Field) → {n : Nat} → f.toJson.depth ≤ n → ofJson n f.toJson = some f
  | ⟨name, type, none⟩, n, hn => by
    obtain ⟨n, rfl, hname, htype⟩ := exists_of_depth_record_le hn
    have hslots : (toJson ⟨name, type, none⟩).slots? layout =
        some [some (.ofOption .ofString name), some type.toJson, none] :=
      slots?_record rfl
    simp [ofJson, hslots, Json.required, Json.nullable, isCodec_text.decode _ hname,
      DataType.isCodec.decode _ htype, membersOfJson]
  | ⟨name, type, some members⟩, n, hn => by
    obtain ⟨n, rfl, hname, htype, hschema⟩ := exists_of_depth_record_le hn
    have hslots : (toJson ⟨name, type, some members⟩).slots? layout =
        some [some (.ofOption .ofString name), some type.toJson,
          some (.record [("fields", .arr (toJsonEach members))])] :=
      slots?_record rfl
    simp [ofJson, hslots, Json.required, Json.nullable, isCodec_text.decode _ hname,
      DataType.isCodec.decode _ htype, membersOfJson_toJsonEach members hschema]

/-- The slot of a schema holds a record, and this an array: with the record of the field itself these
are the three levels above the members. -/
theorem membersOfJson_toJsonEach (fs : List Field) {n : Nat}
    (hn : (Json.record [("fields", .arr (toJsonEach fs))]).depth ≤ n) :
    membersOfJson n (some (.record [("fields", .arr (toJsonEach fs))])) = some (some fs) := by
  obtain ⟨n, rfl, hfields⟩ := exists_of_depth_record_le hn
  obtain ⟨n, rfl, hfs⟩ := Json.exists_of_depth_arr_le hfields
  have hslots : (Json.record [("fields", .arr (toJsonEach fs))]).slots? schemaLayout =
      some [some (.arr (toJsonEach fs))] :=
    slots?_record rfl
  rw [membersOfJson, hslots]
  · simp [mapM_toJsonEach fs hfs]
  · exact Json.record_ne_null _

theorem mapM_toJsonEach : (fs : List Field) → {n : Nat} → (∀ j ∈ toJsonEach fs, j.depth ≤ n) →
    (toJsonEach fs).mapM (ofJson n) = some fs
  | [], _, _ => rfl
  | f :: fs, n, hn => by
    obtain ⟨hf, hfs⟩ := List.forall_mem_cons.mp hn
    simp [toJsonEach, ofJson_toJson f hf, mapM_toJsonEach fs hfs]

end

theorem isCodec : IsCodec toJson ofJson :=
  ⟨legible_toJson, fun f _ hn ↦ ofJson_toJson f hn⟩

end Field

theorem Schema.isCodec : IsCodec toJson ofJson where
  legible s := legible_record (by simp [Field.isCodec.list.legible])
  decode s n hn := by
    obtain ⟨n, rfl, hfields⟩ := exists_of_depth_record_le hn
    have hslots : s.toJson.slots? Field.schemaLayout =
        some [some (.ofList Field.toJson s.fields)] :=
      slots?_record rfl
    simp [ofJson, hslots, Json.required, Field.isCodec.list.decode _ hfields]

theorem Schema.isCodec_option : IsCodec (.ofOption toJson) (Json.option ofJson) :=
  isCodec.option fun _ ↦ nofun

/-! ## Function specs -/

namespace FunctionSpec

theorem isCodec : IsCodec toJson ofJson where
  legible f := by
    unfold toJson
    split
    · exact legible_record (by simp [isCodec_string.legible])
    · exact legible_record (by simp [isCodec_string.legible, isCodec_string.list.legible])
  decode f n hn := by
    obtain ⟨name, args⟩ := f
    cases args with
    | nil =>
      obtain ⟨n, rfl, hname⟩ := exists_of_depth_record_le hn
      have hslots : (toJson ⟨name, []⟩).slots? layout = some [some (.ofString name), none] :=
        slots?_record rfl
      simp [ofJson, hslots, Json.required, Json.withDefault, isCodec_string.decode _ hname]
    | cons arg args =>
      obtain ⟨n, rfl, hname, hargs⟩ := exists_of_depth_record_le hn
      have hslots : (toJson ⟨name, arg :: args⟩).slots? layout =
          some [some (.ofString name), some (.ofList .ofString (arg :: args))] :=
        slots?_record rfl
      simp [ofJson, hslots, Json.required, Json.withDefault, isCodec_string.decode _ hname,
        isCodec_string.list.decode _ hargs]

theorem isCodec_option : IsCodec (.ofOption toJson) (Json.option ofJson) :=
  isCodec.option fun f ↦ by
    unfold toJson
    split <;> exact Json.record_ne_null _

end FunctionSpec

/-! ## Expressions -/

namespace Expr

theorem legible_toJson (e : Expr) : Json.Legible e.toJson := by
  induction e with
  | project input column =>
    exact legible_variant (legible_record (by simp [Json.legible_ofNat]))
  | cast arg target converter ih =>
    exact legible_variant (legible_record (by
      simp [ih, Field.isCodec.legible, FunctionSpec.isCodec_option.legible]))

/-- A form and its record are two levels, and so is the place of an argument below its cast. -/
theorem ofJson_toJson (e : Expr) {n : Nat} (hn : e.toJson.depth ≤ n) :
    ofJson n e.toJson = some e := by
  induction e generalizing n with
  | project input column =>
    obtain ⟨n, rfl, hcontent⟩ := exists_of_depth_record_le hn
    obtain ⟨n, rfl, hinput, hcolumn⟩ := exists_of_depth_record_le hcontent
    have hform : (project input column).toJson.variant? = some ("Project", _) :=
      Json.variant?_record _ _
    have hslots :
        (Json.record [("input", .ofNat input.toNat), ("column", .ofNat column.toNat)]).slots?
          projectLayout = some [some (.ofNat input.toNat), some (.ofNat column.toNat)] :=
      slots?_record rfl
    simp [ofJson, hform, hslots, Json.required, isCodec_word.decode _ hinput,
      isCodec_word.decode _ hcolumn]
  | cast arg target converter ih =>
    obtain ⟨n, rfl, hcontent⟩ := exists_of_depth_record_le hn
    obtain ⟨n, rfl, harg, htarget, hconverter⟩ := exists_of_depth_record_le hcontent
    have hform : (cast arg target converter).toJson.variant? = some ("Cast", _) :=
      Json.variant?_record _ _
    have hslots : (Json.record [("input", arg.toJson), ("to", target.toJson),
        ("func_spec", .ofOption FunctionSpec.toJson converter)]).slots? castLayout =
        some [some arg.toJson, some target.toJson,
          some (.ofOption FunctionSpec.toJson converter)] :=
      slots?_record rfl
    simp [ofJson, hform, hslots, Json.required, Json.nullable, ih harg,
      Field.isCodec.decode _ htarget, FunctionSpec.isCodec_option.decode _ hconverter]

theorem isCodec : IsCodec toJson ofJson :=
  ⟨legible_toJson, fun e _ hn ↦ ofJson_toJson e hn⟩

end Expr

theorem OutputColumn.isCodec : IsCodec toJson ofJson where
  legible c := legible_variant (Expr.isCodec.legible c.root)
  decode c n hn := by
    obtain ⟨n, rfl, hroot⟩ := exists_of_depth_record_le hn
    have hslots : c.toJson.slots? layout = some [some c.root.toJson] := slots?_record rfl
    simp [ofJson, hslots, Json.required, Expr.isCodec.decode _ hroot]

end Dataflow
