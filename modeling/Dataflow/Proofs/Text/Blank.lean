import Dataflow.Text.Blank
import Mathlib.Data.List.TakeWhile

/-!
# Blanks around a text

A text is its trimmed form with blanks in front and behind (`exists_eq_append_trim`), and trimming
takes away exactly what was put around a text without blanks at its ends (`trim_append`).
-/

namespace Dataflow.Text

variable {b b' s : List Char} {c : Char}

/-- A text that consists of blanks. It may be empty. -/
def Blanks (s : List Char) : Prop :=
  ∀ c ∈ s, isBlank c = true

theorem blanks_iff_all : Blanks s ↔ s.all isBlank = true :=
  List.all_eq_true.symm

instance (s : List Char) : Decidable (Blanks s) :=
  decidable_of_iff' _ blanks_iff_all

theorem blanks_nil : Blanks [] :=
  nofun

theorem blanks_singleton_iff : Blanks [c] ↔ isBlank c = true :=
  List.forall_mem_singleton

theorem Blanks.append (h : Blanks b) (h' : Blanks b') : Blanks (b ++ b') :=
  fun c hc ↦ (List.mem_append.mp hc).elim (h c) (h' c)

theorem Blanks.reverse (h : Blanks b) : Blanks b.reverse :=
  fun c hc ↦ h c (List.mem_reverse.mp hc)

theorem skipBlanks_append (hb : Blanks b) (s : List Char) : skipBlanks (b ++ s) = skipBlanks s :=
  List.dropWhile_append_of_pos hb

theorem skipBlanks_of_blanks (hb : Blanks b) : skipBlanks b = [] :=
  List.dropWhile_eq_nil_iff.mpr hb

theorem trim_of_blanks (hb : Blanks b) : trim b = [] := by
  rw [trim, skipBlanks_of_blanks hb]
  rfl

theorem skipBlanks_cons_of_not_isBlank (hc : isBlank c = false) (s : List Char) :
    skipBlanks (c :: s) = c :: s := by
  rw [skipBlanks_cons, hc]
  rfl

theorem exists_eq_append_skipBlanks (s : List Char) : ∃ b, Blanks b ∧ s = b ++ skipBlanks s :=
  ⟨s.takeWhile isBlank, fun _ hc ↦ List.mem_takeWhile_imp hc, List.takeWhile_append_dropWhile.symm⟩

/-- What is left when the blanks in front have been skipped tells what stood behind them. -/
theorem exists_of_skipBlanks_eq {t : List Char} (h : skipBlanks s = t) :
    ∃ b, Blanks b ∧ s = b ++ t :=
  h ▸ exists_eq_append_skipBlanks s

theorem exists_eq_append_trim (s : List Char) :
    ∃ b b', Blanks b ∧ Blanks b' ∧ s = b ++ trim s ++ b' := by
  obtain ⟨b, hb, hs⟩ := exists_eq_append_skipBlanks s
  -- The blanks behind are those in front of the reversed text.
  obtain ⟨b', hb', hrev⟩ := exists_eq_append_skipBlanks (skipBlanks s).reverse
  refine ⟨b, b'.reverse, hb, hb'.reverse, ?_⟩
  have htrim : skipBlanks s = trim s ++ b'.reverse := by
    rw [trim, ← List.reverse_append, ← hrev, List.reverse_reverse]
  rw [List.append_assoc, ← htrim, ← hs]

theorem not_isBlank_of_mem_head?_skipBlanks : ∀ c ∈ (skipBlanks s).head?, isBlank c = false := by
  intro c hc
  have hhead := List.head?_dropWhile_not isBlank s
  rwa [← skipBlanks, Option.mem_def.mp hc] at hhead

theorem not_isBlank_of_mem_getLast?_trim : ∀ c ∈ (trim s).getLast?, isBlank c = false := by
  intro c hc
  rw [trim, List.getLast?_reverse] at hc
  exact not_isBlank_of_mem_head?_skipBlanks c hc

theorem not_isBlank_of_mem_head?_trim : ∀ c ∈ (trim s).head?, isBlank c = false := by
  intro c hc
  obtain ⟨t, ht⟩ := List.head?_eq_some_iff.mp hc
  -- Trimming only takes from the end of the text that begins without blanks.
  have hpre : trim s <+: skipBlanks s := by
    rw [trim, ← List.reverse_suffix, List.reverse_reverse]
    exact List.dropWhile_suffix isBlank
  obtain ⟨b, hb⟩ := hpre
  have hhead : c ∈ (skipBlanks s).head? := by
    rw [← hb, ht]
    rfl
  exact not_isBlank_of_mem_head?_skipBlanks c hhead

/-- Blanks around a text that has none at its ends are trimmed. -/
theorem trim_append (hb : Blanks b) (hb' : Blanks b')
    (hfirst : ∀ c ∈ s.head?, isBlank c = false) (hlast : ∀ c ∈ s.getLast?, isBlank c = false) :
    trim (b ++ s ++ b') = s := by
  cases s with
  | nil =>
    exact trim_of_blanks ((hb.append blanks_nil).append hb')
  | cons c s =>
    have hc : isBlank c = false := hfirst c rfl
    have hfront : skipBlanks (b ++ (c :: s) ++ b') = c :: s ++ b' := by
      rw [List.append_assoc, skipBlanks_append hb, List.cons_append,
        skipBlanks_cons_of_not_isBlank hc]
    have hrev : ∀ d ∈ (c :: s).reverse.head?, isBlank d = false := by rwa [List.head?_reverse]
    rw [trim, hfront, List.reverse_append, skipBlanks_append hb'.reverse, skipBlanks_eq_self hrev,
      List.reverse_reverse]

theorem trim_append_of_forall (hb : Blanks b) (hb' : Blanks b')
    (hs : ∀ c ∈ s, isBlank c = false) : trim (b ++ s ++ b') = s :=
  trim_append hb hb' (fun c hc ↦ hs c (List.mem_of_mem_head? hc))
    fun c hc ↦ hs c (List.mem_of_mem_getLast? hc)

end Dataflow.Text
