import Dataflow.Json.Decoder
import Dataflow.Proofs.Json.Text

/-!
# Writers and the decoders that undo them

`IsCodec f d` says that the trees which `f` makes are legible, and that `d` takes from such a tree the
value it was made of, provided that it may enter as many levels as the tree has. So a value survives
the way through text (`IsCodec.decodeText_render`), at the limit of nesting as well.

The members and items of a tree lie one level below it, and the decoders count in the same way. So a
codec for a compound value is put together from codecs for its parts, and no part needs to know how
deep it lies.
-/

namespace Dataflow.Json

variable {α : Type}

/-- Takes a value from a text. -/
def decodeText (d : Decoder α) (text : String) : Option α :=
  (parse text).bind (d depthLimit)

/-- What `f` writes is legible, and `d` takes it back if it may enter its levels. -/
structure IsCodec (f : α → Json) (d : Decoder α) : Prop where
  legible (a : α) : Legible (f a)
  decode (a : α) {n : Nat} (h : (f a).depth ≤ n) : d n (f a) = some a

theorem IsCodec.decodeText_render {f : α → Json} {d : Decoder α} (h : IsCodec f d) {a : α}
    (ha : (f a).depth ≤ depthLimit) : decodeText d (f a).render = some a := by
  rw [decodeText, parse_render (h.legible a), Option.bind_some, h.decode a ha]

/-! ## Plain values -/

@[simp] theorem text?_encode (s : String) : text? (encode s.toList) = some s := by
  rw [text?, decode_encode, Option.map_some, String.ofList_toList]

theorem isCodec_string : IsCodec ofString string where
  legible s := .str (isQuotable_encode s.toList)
  decode s _ _ := text?_encode s

theorem isCodec_truth : IsCodec bool truth where
  legible b := .bool b
  decode _ _ _ := rfl

theorem legible_ofNat (n : Nat) : Legible (ofNat n) :=
  .num (isNumeral_digits n) fun _ hc ↦ by simp [isNumeralChar, isDigit_of_mem_digits hc]

theorem isCodec_word : IsCodec (fun w : UInt64 ↦ ofNat w.toNat) word where
  legible w := legible_ofNat w.toNat
  decode w _ _ := Text.Decimal.word?_digits w

/-! ## Levels -/

theorem depthItems_le_iff {js : List Json} {n : Nat} :
    depthItems js ≤ n ↔ ∀ j ∈ js, j.depth ≤ n := by
  induction js with
  | nil => simp [depthItems]
  | cons j js ih => rw [depthItems, Nat.max_le, ih, List.forall_mem_cons]

theorem depthMembers_le_iff {ms : List (List Char × Json)} {n : Nat} :
    depthMembers ms ≤ n ↔ ∀ m ∈ ms, m.2.depth ≤ n := by
  induction ms with
  | nil => simp [depthMembers]
  | cons m ms ih => rw [depthMembers, Nat.max_le, ih, List.forall_mem_cons]

theorem exists_of_depth_arr_le {items : List Json} {n : Nat} (h : (arr items).depth ≤ n) :
    ∃ m, n = m + 1 ∧ ∀ j ∈ items, j.depth ≤ m := by
  cases n with
  | zero => exact absurd h (Nat.not_succ_le_zero _)
  | succ m => exact ⟨m, rfl, depthItems_le_iff.mp (Nat.le_of_succ_le_succ h)⟩

theorem exists_of_depth_obj_le {members : List (List Char × Json)} {n : Nat}
    (h : (obj members).depth ≤ n) : ∃ m, n = m + 1 ∧ ∀ e ∈ members, e.2.depth ≤ m := by
  cases n with
  | zero => exact absurd h (Nat.not_succ_le_zero _)
  | succ m => exact ⟨m, rfl, depthMembers_le_iff.mp (Nat.le_of_succ_le_succ h)⟩

/-! ## Compound values -/

theorem mapM_map_eq_some {β : Type} {f : α → β} {g : β → Option α} {l : List α}
    (h : ∀ a ∈ l, g (f a) = some a) : (l.map f).mapM g = some l := by
  induction l with
  | nil => rfl
  | cons a l ih =>
    rw [List.map_cons, List.mapM_cons, h a List.mem_cons_self,
      ih fun a' ha' ↦ h a' (List.mem_cons_of_mem a ha')]
    rfl

theorem IsCodec.option {f : α → Json} {d : Decoder α} (h : IsCodec f d)
    (hnull : ∀ a, f a ≠ null) : IsCodec (ofOption f) (option d) where
  legible
    | none => .null
    | some a => h.legible a
  decode o n ho := by
    cases o with
    | none => rfl
    | some a =>
      -- Only null is kept from the decoder of the value.
      have hd : Json.option d n (f a) = (d n (f a)).map some := by
        unfold Json.option
        split
        next hn => exact absurd hn (hnull a)
        next => rfl
      rw [ofOption, hd, h.decode a ho, Option.map_some]

/-- A text that may be absent. -/
theorem isCodec_text : IsCodec (ofOption ofString) (option string) :=
  isCodec_string.option fun _ ↦ nofun

theorem IsCodec.list {f : α → Json} {d : Decoder α} (h : IsCodec f d) :
    IsCodec (ofList f) (list d) where
  legible l := .arr fun j hj ↦ by
    obtain ⟨a, -, rfl⟩ := List.mem_map.mp hj
    exact h.legible a
  decode l n hl := by
    obtain ⟨m, rfl, hm⟩ := exists_of_depth_arr_le hl
    exact mapM_map_eq_some fun a ha ↦ h.decode a (hm (f a) (List.mem_map_of_mem ha))

/-! ## Records -/

theorem legible_record {members : List (String × Json)} (h : ∀ m ∈ members, Legible m.2) :
    Legible (record members) :=
  .obj
    (fun e he ↦ by
      obtain ⟨m, -, rfl⟩ := List.mem_map.mp he
      exact isQuotable_encode m.1.toList)
    fun e he ↦ by
      obtain ⟨m, hm, rfl⟩ := List.mem_map.mp he
      exact h m hm

theorem exists_of_depth_record_le {members : List (String × Json)} {n : Nat}
    (h : (record members).depth ≤ n) : ∃ m, n = m + 1 ∧ members.Forall (·.2.depth ≤ m) := by
  obtain ⟨m, rfl, hm⟩ := exists_of_depth_obj_le h
  exact ⟨m, rfl, List.forall_iff_forall_mem.mpr fun e he ↦ hm _ (List.mem_map_of_mem he)⟩

theorem record_ne_null (members : List (String × Json)) : record members ≠ null :=
  nofun

/-- The names of a record are read back, and its slots are looked up among them. -/
theorem slots?_record {fields : Layout} {members : List (String × Json)}
    {slots : List (Option Json)} (h : fields.byName? members = some slots) :
    (record members).slots? fields = some slots := by
  rw [record, Json.slots?, mapM_map_eq_some fun _ _ ↦ by simp]
  exact h

/-! ## Alternatives -/

theorem legible_variant {name : String} {j : Json} (h : Legible j) :
    Legible (record [(name, j)]) :=
  legible_record (by simpa using h)

theorem variant?_record (name : String) (j : Json) :
    (record [(name, j)]).variant? = some (name, j) := by
  simp [record, variant?]

end Dataflow.Json
