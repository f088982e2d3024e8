import Dataflow.Settings
import Dataflow.Proofs.Text.Decimal

/-!
# What an environment sets

The environment gives settings as texts. A text for the number of passes counts only if it is a number
that fits a word (`Text.Decimal.Says`), and any text for the rules that are left out is a list of names.

`Lists` is the grammar of these lists: what stands between two commas contributes a name or, if it is
blank, nothing. A text therefore lists only one list of names (`names_eq_iff_lists`), but a list of names
has many texts, one for every choice of blanks around its names (`lists_intercalate`).
-/

namespace Dataflow

open Text (Blanks)

namespace Settings

variable {s : List Char} {l : List String}

/-! ## The grammar of lists -/

/-- The name can stand in a list with commas. -/
structure Listable (name : String) : Prop where
  ne_empty : name ≠ ""
  comma_not_mem : ',' ∉ name.toList
  not_isBlank_first : ∀ c ∈ name.toList.head?, Text.isBlank c = false
  not_isBlank_last : ∀ c ∈ name.toList.getLast?, Text.isBlank c = false

theorem listable_iff {name : String} : Listable name ↔ name ≠ "" ∧ ',' ∉ name.toList ∧
    name.toList.head?.any Text.isBlank = false ∧ name.toList.getLast?.any Text.isBlank = false := by
  constructor
  · rintro ⟨hne, hcomma, hfirst, hlast⟩
    exact ⟨hne, hcomma, (Option.any_eq_false _ _).mpr hfirst, (Option.any_eq_false _ _).mpr hlast⟩
  · rintro ⟨hne, hcomma, hfirst, hlast⟩
    exact ⟨hne, hcomma, (Option.any_eq_false _ _).mp hfirst, (Option.any_eq_false _ _).mp hlast⟩

instance (name : String) : Decidable (Listable name) :=
  decidable_of_iff' _ listable_iff

/-- A name with blanks around it. -/
structure Entry where
  before : String
  name : String
  after : String
  listable : Listable name
  blanks_before : Blanks before.toList
  blanks_after : Blanks after.toList

/-- The text of an entry. -/
def Entry.text (e : Entry) : String :=
  e.before ++ e.name ++ e.after

/-- What stands between two commas, and the names that it contributes: an entry has one, blanks have
none. -/
inductive Piece : List Char → List String → Prop
  | blank {b : List Char} (hb : Blanks b) : Piece b []
  | entry (e : Entry) : Piece e.text.toList [e.name]

/-- The text lists the names: pieces with commas between them. -/
inductive Lists : List Char → List String → Prop
  | last {s : List Char} {l : List String} (h : Piece s l) : Lists s l
  | cons {s t : List Char} {l l' : List String} (h : Piece s l) (ht : Lists t l') :
      Lists (s ++ ',' :: t) (l ++ l')

/-! ## Pieces -/

theorem pieces_of_not_mem (hs : ',' ∉ s) : pieces s = [s] := by
  induction s with
  | nil => rfl
  | cons c s ih =>
    obtain ⟨hc, hs⟩ := not_or.mp (mt List.mem_cons.mpr hs)
    rw [pieces, if_neg (Ne.symm hc), ih hs]

theorem pieces_append (hs : ',' ∉ s) (t : List Char) : pieces (s ++ ',' :: t) = s :: pieces t := by
  induction s with
  | nil => rw [List.nil_append, pieces, if_pos rfl]
  | cons c s ih =>
    obtain ⟨hc, hs⟩ := not_or.mp (mt List.mem_cons.mpr hs)
    rw [List.cons_append, pieces, if_neg (Ne.symm hc), ih hs]

theorem names_of_not_mem (hs : ',' ∉ s) :
    names (String.ofList s) = if Text.trim s = [] then [] else [String.ofList (Text.trim s)] := by
  by_cases htrim : Text.trim s = [] <;> simp [names, pieces_of_not_mem hs, htrim]

theorem names_append (hs : ',' ∉ s) (t : List Char) :
    names (String.ofList (s ++ ',' :: t)) =
      names (String.ofList s) ++ names (String.ofList t) := by
  by_cases htrim : Text.trim s = [] <;>
    simp [names, pieces_append hs, pieces_of_not_mem hs, htrim]

theorem comma_not_mem_of_blanks {b : List Char} (hb : Blanks b) : ',' ∉ b :=
  fun hmem ↦ absurd (hb ',' hmem) (by decide)

namespace Entry

variable (e : Entry)

theorem toList_text : e.text.toList = e.before.toList ++ e.name.toList ++ e.after.toList := by
  simp [text]

theorem comma_not_mem_text : ',' ∉ e.text.toList := by
  rw [toList_text, List.mem_append, List.mem_append]
  rintro ((hmem | hmem) | hmem)
  · exact comma_not_mem_of_blanks e.blanks_before hmem
  · exact e.listable.comma_not_mem hmem
  · exact comma_not_mem_of_blanks e.blanks_after hmem

theorem trim_text : Text.trim e.text.toList = e.name.toList := by
  rw [toList_text]
  exact Text.trim_append e.blanks_before e.blanks_after e.listable.not_isBlank_first
    e.listable.not_isBlank_last

end Entry

theorem Piece.comma_not_mem (h : Piece s l) : ',' ∉ s := by
  cases h with
  | blank hb => exact comma_not_mem_of_blanks hb
  | entry e => exact e.comma_not_mem_text

theorem Piece.names_eq (h : Piece s l) : names (String.ofList s) = l := by
  rw [names_of_not_mem h.comma_not_mem]
  cases h with
  | blank hb =>
    rw [if_pos (Text.trim_of_blanks hb)]
  | entry e =>
    have hname : e.name.toList ≠ [] := fun h ↦ e.listable.ne_empty (String.toList_eq_nil_iff.mp h)
    rw [e.trim_text, if_neg hname, String.ofList_toList]

/-- Without commas, a text that is more than blanks is an entry for its trimmed form. -/
theorem exists_entry (hs : ',' ∉ s) (htrim : Text.trim s ≠ []) :
    ∃ e : Entry, e.text.toList = s ∧ e.name = String.ofList (Text.trim s) := by
  obtain ⟨b, b', hb, hb', hsplit⟩ := Text.exists_eq_append_trim s
  have hlistable : Listable (String.ofList (Text.trim s)) := by
    constructor <;> simp only [ne_eq, String.ofList_eq_empty_iff, String.toList_ofList]
    · exact htrim
    · exact fun hmem ↦ hs (Text.mem_of_mem_trim hmem)
    · exact Text.not_isBlank_of_mem_head?_trim
    · exact Text.not_isBlank_of_mem_getLast?_trim
  refine ⟨⟨String.ofList b, String.ofList (Text.trim s), String.ofList b', hlistable, ?_, ?_⟩, ?_,
    rfl⟩
  · rwa [String.toList_ofList]
  · rwa [String.toList_ofList]
  · simpa only [Entry.toList_text, String.toList_ofList] using hsplit.symm

theorem piece_names (hs : ',' ∉ s) : Piece s (names (String.ofList s)) := by
  rw [names_of_not_mem hs]
  by_cases htrim : Text.trim s = []
  · obtain ⟨b, b', hb, hb', hsplit⟩ := Text.exists_eq_append_trim s
    rw [htrim, List.append_nil] at hsplit
    rw [if_pos htrim, hsplit]
    exact .blank (hb.append hb')
  · obtain ⟨e, htext, hname⟩ := exists_entry hs htrim
    rw [if_neg htrim, ← hname, ← htext]
    exact .entry e

/-! ## Whole lists -/

theorem Lists.names_eq (h : Lists s l) : names (String.ofList s) = l := by
  induction h with
  | last h => exact h.names_eq
  | cons h _ ih => rw [names_append h.comma_not_mem, h.names_eq, ih]

theorem lists_names (s : List Char) : Lists s (names (String.ofList s)) := by
  by_cases hs : ',' ∈ s
  · obtain ⟨s', t, rfl, hs'⟩ := List.eq_append_cons_of_mem hs
    rw [names_append hs']
    exact .cons (piece_names hs') (lists_names t)
  · exact .last (piece_names hs)
termination_by s.length
decreasing_by
  subst_vars
  rw [List.length_append, List.length_cons]
  omega

theorem names_eq_iff_lists {text : String} : names text = l ↔ Lists text.toList l := by
  constructor
  · rintro rfl
    simpa using lists_names text.toList
  · intro h
    simpa using h.names_eq

/-- Entries with commas between them list their names. -/
theorem lists_intercalate : ∀ entries : List Entry,
    Lists (",".intercalate (entries.map Entry.text)).toList (entries.map Entry.name)
  | [] => .last (.blank nofun)
  | [e] => by simpa [String.toList_intercalate] using Lists.last (.entry e)
  | e :: e' :: entries => by
    have ih := lists_intercalate (e' :: entries)
    simp only [String.toList_intercalate, List.map_cons, List.intercalate_cons_cons,
      List.append_assoc] at ih ⊢
    exact .cons (.entry e) ih

/-! ## The environment -/

variable {environment : String → Option String} {w : UInt64}

/-- The environment sets a number of passes. -/
def SetsPasses (environment : String → Option String) (w : UInt64) : Prop :=
  ∃ text, environment "FLOWPLAN_MAX_ITERATIONS" = some text ∧ Text.Decimal.Says text w.toNat

/-- The environment sets the rules that are left out. -/
def SetsDisabled (environment : String → Option String) (l : List String) : Prop :=
  ∃ text, environment "FLOWPLAN_DISABLED_RULES" = some text ∧ Lists text.toList l

theorem maxIterations_environmentLayer_iff :
    (environmentLayer environment).maxIterations = some w ↔ SetsPasses environment w := by
  simp only [environmentLayer, Option.bind_eq_some_iff, Text.Decimal.signedWord?_trim_eq_some_iff]
  rfl

theorem disabledRules_environmentLayer_iff :
    (environmentLayer environment).disabledRules = some l ↔ SetsDisabled environment l := by
  simp only [environmentLayer, Option.map_eq_some_iff, names_eq_iff_lists]
  rfl

/-- A number is read back from its decimal form, as long as it fits a word. -/
theorem maxIterations_ofEnvironment_of_toString {n : Nat}
    (h : environment "FLOWPLAN_MAX_ITERATIONS" = some (toString n)) :
    (ofEnvironment environment).maxIterations.toNat = if n < UInt64.size then n else 100 := by
  have hlayer : (environmentLayer environment).maxIterations = Text.Decimal.toWord? n := by
    change (environment maxIterationsVariable).bind _ = _
    rw [maxIterationsVariable, h, Option.bind_some, Text.Decimal.toList_toString,
      Text.Decimal.trim_digits, Text.Decimal.signedWord?_digits]
  rw [ofEnvironment, override, hlayer, Text.Decimal.toWord?]
  split
  · rename_i hn
    exact UInt64.toNat_ofNat_of_lt' hn
  · rfl

/-- A list of names is read back from any text in which it is written. -/
theorem disabledRules_ofEnvironment_of_lists
    (h : SetsDisabled environment l) : (ofEnvironment environment).disabledRules = l := by
  rw [ofEnvironment, override, disabledRules_environmentLayer_iff.mpr h, Option.getD_some]

end Settings

end Dataflow
