import Dataflow.Proofs.Json.Codec
import Dataflow.Untyped

/-!
# Codecs through untyped values

Some values are taken from a tree in two stages: `Untyped.ofJson` reads all of the tree, and the value
is taken from what it gives. `Untyped.buffered` is the two stages as one decoder, so the codecs for the
parts of such a value are put together like those of any other.

An untyped value keeps null apart from an empty sequence, and a member that is absent apart from one
that is null. A value that may be absent is written as null, and nothing else is
(`Untyped.ne_null_of_ofJson`), so it is not confused with a value that is empty.
-/

namespace Dataflow.Untyped

open Json (IsCodec exists_of_depth_arr_le)

variable {α : Type} {f : α → Json} {g : Untyped → Option α} {n : Nat}

/-- Reads a tree as an untyped value and takes a value from that. -/
def buffered (g : Untyped → Option α) : Json.Decoder α :=
  fun n j ↦ (ofJson n j).bind g

/-- The stages of a codec. -/
theorem exists_ofJson_of_isCodec (h : IsCodec f (buffered g)) {a : α} (hn : (f a).depth ≤ n) :
    ∃ v, ofJson n (f a) = some v ∧ g v = some a :=
  Option.bind_eq_some_iff.mp (h.decode a hn)

/-! ## Plain values -/

@[simp] theorem ofJson_ofString (n : Nat) (s : String) : ofJson n (.ofString s) = some (text s) := by
  simp [Json.ofString, ofJson]

theorem isCodec_string : IsCodec .ofString (buffered string?) where
  legible := Json.isCodec_string.legible
  decode s n _ := by rw [buffered, ofJson_ofString, Option.bind_some, string?]

/-- Only null is read as null. -/
theorem ne_null_of_ofJson {j : Json} (hj : j ≠ .null) {v : Untyped} (h : ofJson n j = some v) :
    v ≠ null := by
  rintro rfl
  cases j with
  | null => exact hj rfl
  | bool b => simp [ofJson] at h
  | num numeral =>
    rw [ofJson, ofNumeral?] at h
    split at h
    · cases h
    · split at h <;> cases h
  | str body => simp [ofJson] at h
  | arr items => cases n <;> simp [ofJson] at h
  | obj members => cases n <;> simp [ofJson] at h

/-! ## Compound values -/

theorem option?_of_ne_null {v : Untyped} (hv : v ≠ null) : option? g v = (g v).map some := by
  cases v with
  | null => exact absurd rfl hv
  | _ => rfl

theorem isCodec_option (h : IsCodec f (buffered g)) (hnull : ∀ a, f a ≠ .null) :
    IsCodec (.ofOption f) (buffered (option? g)) where
  legible
    | none => .null
    | some a => h.legible a
  decode o n ho := by
    cases o with
    | none => cases n <;> rfl
    | some a =>
      obtain ⟨v, hv, hg⟩ := exists_ofJson_of_isCodec h ho
      rw [buffered, Json.ofOption, hv, Option.bind_some,
        option?_of_ne_null (ne_null_of_ofJson (hnull a) hv), hg, Option.map_some]

/-- A text that may be absent. -/
theorem isCodec_text : IsCodec (.ofOption .ofString) (buffered (option? string?)) :=
  isCodec_option isCodec_string fun _ ↦ nofun

theorem exists_mapM_eq_some {β γ : Type} {φ : β → Option γ} {f : α → β} {g : γ → Option α}
    {l : List α} (h : ∀ a ∈ l, ∃ v, φ (f a) = some v ∧ g v = some a) :
    ∃ vs, (l.map f).mapM φ = some vs ∧ vs.mapM g = some l := by
  induction l with
  | nil => exact ⟨[], rfl, rfl⟩
  | cons a l ih =>
    obtain ⟨v, hv, hg⟩ := h a List.mem_cons_self
    obtain ⟨vs, hvs, hgs⟩ := ih fun a' ha' ↦ h a' (List.mem_cons_of_mem a ha')
    exact ⟨v :: vs, by simp [hv, hvs], by simp [hg, hgs]⟩

theorem isCodec_list (h : IsCodec f (buffered g)) :
    IsCodec (.ofList f) (buffered (list? g)) where
  legible l := .arr fun j hj ↦ by
    obtain ⟨a, -, rfl⟩ := List.mem_map.mp hj
    exact h.legible a
  decode l n hl := by
    obtain ⟨n, rfl, hm⟩ := exists_of_depth_arr_le hl
    obtain ⟨vs, hvs, hgs⟩ := exists_mapM_eq_some fun a ha ↦
      exists_ofJson_of_isCodec h (hm (f a) (List.mem_map_of_mem ha))
    rw [buffered, Json.ofList, ofJson, hvs]
    exact hgs

/-! ## Records -/

/-- A map with the given names for its keys. -/
def record (entries : List (String × Untyped)) : Untyped :=
  map (entries.map fun e ↦ (text e.1, e.2))

/-- The members of a record are read one after the other. -/
theorem ofJson_record (n : Nat) (members : List (String × Json)) :
    ofJson (n + 1) (.record members) =
      (members.mapM fun (k, j) ↦ (ofJson n j).map fun v ↦ (text k, v)).map map := by
  rw [Json.record, ofJson, List.mapM_map]
  congr 2
  funext m
  simp only [Function.comp_apply, Json.text?_encode, Option.pure_def, Option.bind_eq_bind,
    Option.bind_some]
  exact Option.map_eq_bind.symm

/-- The slots of a record are looked up among its names. -/
theorem slots?_record {fields : Layout} {entries : List (String × Untyped)}
    {slots : List (Option Untyped)} (h : fields.byName? entries = some slots) :
    (record entries).slots? fields = some slots := by
  have hnames : (entries.map fun e ↦ (text e.1, e.2)).mapM
      (fun e ↦ (fieldName? fields e.1).map (·, e.2)) = some entries :=
    Json.mapM_map_eq_some fun _ _ ↦ rfl
  change ((entries.map fun e ↦ (text e.1, e.2)).mapM
    fun e ↦ (fieldName? fields e.1).map (·, e.2)).bind fields.byName? = some slots
  rw [hnames]
  exact h

theorem depthEntries_le_iff {es : List (Untyped × Untyped)} {n : Nat} :
    depthEntries es ≤ n ↔ ∀ e ∈ es, e.2.depth ≤ n := by
  induction es with
  | nil => simp [depthEntries]
  | cons e es ih => rw [depthEntries, Nat.max_le, ih, List.forall_mem_cons]

theorem exists_of_depth_record_le {entries : List (String × Untyped)} {n : Nat}
    (h : (record entries).depth ≤ n) : ∃ m, n = m + 1 ∧ entries.Forall (·.2.depth ≤ m) := by
  cases n with
  | zero => exact absurd h (Nat.not_succ_le_zero _)
  | succ m =>
    have hentries := depthEntries_le_iff.mp (Nat.le_of_succ_le_succ h)
    exact ⟨m, rfl, List.forall_iff_forall_mem.mpr fun e he ↦
      hentries _ (List.mem_map_of_mem he)⟩

end Dataflow.Untyped
