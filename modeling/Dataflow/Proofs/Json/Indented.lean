import Dataflow.Proofs.Json.Text

/-!
# Indented text is read back

The two layouts of a legible tree have the same tokens (`Legible.isAligned`), because they differ only
in space. So the indented text is read as the compact one is, and nothing has to be said about
the reader again.

A numeral is told from what follows by its next character alone, so what follows may differ in space
as well, as long as neither text goes on with a character of a numeral.
-/

namespace Dataflow.Json

variable {s s' : List Char}

/-! ## Tokens in front of equal tokens -/

theorem tokens_space {c : Char} (h : isSpace c) (s : List Char) : tokens (c :: s) = tokens s := by
  rw [tokens, if_pos h]

theorem tokens_newline (level : Nat) (s : List Char) : tokens (newline level ++ s) = tokens s := by
  have hspaces (n : Nat) : tokens (List.replicate n ' ' ++ s) = tokens s := by
    induction n with
    | zero => rfl
    | succ n ih => rw [List.replicate_succ, List.cons_append, tokens_space rfl, ih]
  rw [newline, List.cons_append, tokens_space rfl, hspaces]

theorem ends_newline (level : Nat) (s : List Char) : Ends (newline level ++ s) :=
  ends_cons rfl _

/-- A token in front of texts with the same tokens. -/
theorem tokens_congr {w : List Char} {t : Token} (h : ∀ s, token? (w ++ s) = some (t, s))
    (hs : tokens s = tokens s') : tokens (w ++ s) = tokens (w ++ s') := by
  rw [tokens_eq (h s), tokens_eq (h s'), hs]

theorem tokens_cons_congr {c : Char} {t : Token} (h : ∀ s, token? (c :: s) = some (t, s))
    (hs : tokens s = tokens s') : tokens (c :: s) = tokens (c :: s') :=
  tokens_congr (w := [c]) h hs

/-! ## The two layouts -/

/-- The two layouts of a tree have the same tokens, at every level and in front of texts that have the
same tokens. -/
def IsAligned (j : Json) : Prop :=
  ∀ (level : Nat) {s s' : List Char}, Ends s → Ends s' → tokens s = tokens s' →
    tokens (writeIndented level j ++ s) = tokens (write j ++ s')

theorem ends_writeIndentedItems (level : Nat) (js : List Json) (hs : Ends s) :
    Ends (writeIndentedItems level js ++ s) := by
  cases js with
  | nil => exact hs
  | cons j js => exact ends_cons rfl _

theorem ends_writeIndentedMembers (level : Nat) (ms : List (List Char × Json)) (hs : Ends s) :
    Ends (writeIndentedMembers level ms ++ s) := by
  cases ms with
  | nil => exact hs
  | cons m ms => exact ends_cons rfl _

theorem tokens_writeIndentedItems {js : List Json} (h : ∀ j ∈ js, IsAligned j) (level : Nat)
    (hs : Ends s) (heq : tokens s = tokens (']' :: s')) :
    tokens (writeIndentedItems level js ++ s) = tokens (writeItems js ++ ']' :: s') := by
  induction js with
  | nil => exact heq
  | cons j js ih =>
    have hrest := ih fun i hi ↦ h i (List.mem_cons_of_mem j hi)
    rw [writeIndentedItems, writeItems, List.cons_append, List.cons_append, List.append_assoc,
      List.append_assoc, List.append_assoc]
    refine tokens_cons_congr (fun _ ↦ rfl) ?_
    rw [tokens_newline]
    exact h j List.mem_cons_self level (ends_writeIndentedItems level js hs)
      (ends_writeItems js s') hrest

/-- A key, a colon and a value, with and without the space after the colon. -/
theorem tokens_member {k : List Char} {j : Json} (hk : IsQuotable k) (hj : IsAligned j)
    (level : Nat) (hs : Ends s) (hs' : Ends s') (heq : tokens s = tokens s') :
    tokens (quoted k ++ ':' :: ' ' :: (writeIndented level j ++ s)) =
      tokens (quoted k ++ ':' :: (write j ++ s')) := by
  refine tokens_congr (token?_quoted hk) (tokens_cons_congr (fun _ ↦ rfl) ?_)
  rw [tokens_space rfl]
  exact hj level hs hs' heq

theorem tokens_writeIndentedMembers {ms : List (List Char × Json)}
    (hk : ∀ m ∈ ms, IsQuotable m.1) (h : ∀ m ∈ ms, IsAligned m.2) (level : Nat) (hs : Ends s)
    (heq : tokens s = tokens ('}' :: s')) :
    tokens (writeIndentedMembers level ms ++ s) = tokens (writeMembers ms ++ '}' :: s') := by
  induction ms with
  | nil => exact heq
  | cons m ms ih =>
    obtain ⟨k, j⟩ := m
    have hrest := ih (fun i hi ↦ hk i (List.mem_cons_of_mem _ hi)) fun i hi ↦
      h i (List.mem_cons_of_mem _ hi)
    have hindented : writeIndentedMembers level ((k, j) :: ms) ++ s =
        ',' :: (newline level ++ (quoted k ++ ':' :: ' ' ::
          (writeIndented level j ++ (writeIndentedMembers level ms ++ s)))) := by
      simp [writeIndentedMembers]
    have hcompact : writeMembers ((k, j) :: ms) ++ '}' :: s' =
        ',' :: (quoted k ++ ':' :: (write j ++ (writeMembers ms ++ '}' :: s'))) := by
      simp [writeMembers]
    rw [hindented, hcompact]
    refine tokens_cons_congr (fun _ ↦ rfl) ?_
    rw [tokens_newline]
    exact tokens_member (hk (k, j) List.mem_cons_self) (h (k, j) List.mem_cons_self) level
      (ends_writeIndentedMembers level ms hs) (ends_writeMembers ms s') hrest

theorem isAligned_arr {items : List Json} (h : ∀ j ∈ items, IsAligned j) :
    IsAligned (arr items) := by
  intro level s s' hs hs' heq
  -- The bracket that closes the array stands on a line of its own.
  have hclose : tokens (newline level ++ ']' :: s) = tokens (']' :: s') := by
    rw [tokens_newline]
    exact tokens_cons_congr (fun _ ↦ rfl) heq
  cases items with
  | nil => exact tokens_cons_congr (fun _ ↦ rfl) (tokens_cons_congr (fun _ ↦ rfl) heq)
  | cons j js =>
    have hindented : writeIndented level (arr (j :: js)) ++ s =
        '[' :: (newline (level + 1) ++ (writeIndented (level + 1) j ++
          (writeIndentedItems (level + 1) js ++ (newline level ++ ']' :: s)))) := by
      simp [writeIndented]
    have hcompact : write (arr (j :: js)) ++ s' =
        '[' :: (write j ++ (writeItems js ++ ']' :: s')) := by
      simp [write]
    have hitems := tokens_writeIndentedItems (fun i hi ↦ h i (List.mem_cons_of_mem j hi))
      (level + 1) (ends_newline level _) hclose
    rw [hindented, hcompact]
    refine tokens_cons_congr (fun _ ↦ rfl) ?_
    rw [tokens_newline]
    exact h j List.mem_cons_self (level + 1)
      (ends_writeIndentedItems (level + 1) js (ends_newline level _)) (ends_writeItems js s') hitems

theorem isAligned_obj {members : List (List Char × Json)} (hk : ∀ m ∈ members, IsQuotable m.1)
    (h : ∀ m ∈ members, IsAligned m.2) : IsAligned (obj members) := by
  intro level s s' hs hs' heq
  have hclose : tokens (newline level ++ '}' :: s) = tokens ('}' :: s') := by
    rw [tokens_newline]
    exact tokens_cons_congr (fun _ ↦ rfl) heq
  cases members with
  | nil => exact tokens_cons_congr (fun _ ↦ rfl) (tokens_cons_congr (fun _ ↦ rfl) heq)
  | cons m ms =>
    obtain ⟨k, j⟩ := m
    have hindented : writeIndented level (obj ((k, j) :: ms)) ++ s =
        '{' :: (newline (level + 1) ++ (quoted k ++ ':' :: ' ' ::
          (writeIndented (level + 1) j ++
            (writeIndentedMembers (level + 1) ms ++ (newline level ++ '}' :: s))))) := by
      simp [writeIndented]
    have hcompact : write (obj ((k, j) :: ms)) ++ s' =
        '{' :: (quoted k ++ ':' :: (write j ++ (writeMembers ms ++ '}' :: s'))) := by
      simp [write]
    have hmembers := tokens_writeIndentedMembers (fun i hi ↦ hk i (List.mem_cons_of_mem _ hi))
      (fun i hi ↦ h i (List.mem_cons_of_mem _ hi)) (level + 1) (ends_newline level _) hclose
    rw [hindented, hcompact]
    refine tokens_cons_congr (fun _ ↦ rfl) ?_
    rw [tokens_newline]
    exact tokens_member (hk (k, j) List.mem_cons_self) (h (k, j) List.mem_cons_self) (level + 1)
      (ends_writeIndentedMembers (level + 1) ms (ends_newline level _)) (ends_writeMembers ms s')
      hmembers

theorem Legible.isAligned {j : Json} (h : Legible j) : IsAligned j := by
  induction h with
  | null => exact fun _ _ _ _ _ heq ↦ tokens_congr (t := .word .null) (fun _ ↦ rfl) heq
  | bool b =>
    intro level s s' _ _ heq
    cases b with
    | false => exact tokens_congr (t := .word .false) (fun _ ↦ rfl) heq
    | true => exact tokens_congr (t := .word .true) (fun _ ↦ rfl) heq
  | num h hc =>
    intro level s s' hs hs' heq
    have hnum := tokens_eq (token?_numeral h hc hs)
    have hnum' := tokens_eq (token?_numeral h hc hs')
    exact hnum.trans (heq ▸ hnum'.symm)
  | str h => exact fun _ _ _ _ _ heq ↦ tokens_congr (token?_quoted h) heq
  | arr _ ih => exact isAligned_arr ih
  | obj hk _ ih => exact isAligned_obj hk ih

/-! ## Whole trees -/

/-- A legible tree is read back from its indented text, with a new line at the end. -/
theorem parse_renderIndented {j : Json} (h : Legible j) :
    parse (j.renderIndented ++ "\n") = some j := by
  have hend : tokens ['\n'] = tokens [] := tokens_space rfl []
  have halign : tokens (writeIndented 0 j ++ ['\n']) = tokens (write j ++ []) :=
    h.isAligned 0 (ends_cons rfl []) ends_nil hend
  have hread := parse_render h
  rw [List.append_nil] at halign
  rw [parse, render, String.toList_ofList, read, ← halign] at hread
  rw [parse, renderIndented, String.toList_append, String.toList_ofList, read]
  exact hread

end Dataflow.Json
