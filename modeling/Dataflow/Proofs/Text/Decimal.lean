import Dataflow.Text.Decimal
import Dataflow.Proofs.Text.Blank
import Mathlib.Data.List.Induction

/-!
# The numbers that numerals denote

`Numeral s n` says by a grammar that the digits `s` denote `n`: a further digit at the end counts the
number before it ten times. `Says` allows for a plus sign in front and for blanks at both ends. The
reader accepts exactly these texts, as long as the number fits a word, however many leading zeros it has
(`signedWord?_trim_eq_some_iff`). Within a longer text a number ends before the first character that is
no digit, so that the number and what follows can be told apart (`digits_append_inj`).

The reader folds over the digits from the left, so that it meets the grammar at the last digit. The
inductions on digits are therefore from the end of the text.
-/

namespace Dataflow.Text.Decimal

variable {b b' s : List Char} {c : Char} {n : Nat} {w : UInt64}

/-! ## The grammar -/

/-- One or more digits, and the number that they denote. -/
inductive Numeral : List Char → Nat → Prop
  | digit {c : Char} (hc : c.isDigit = true) : Numeral [c] (c.toNat - '0'.toNat)
  | concat {s : List Char} {n : Nat} {c : Char} (h : Numeral s n) (hc : c.isDigit = true) :
      Numeral (s ++ [c]) (10 * n + (c.toNat - '0'.toNat))

/-- A numeral, perhaps with a plus sign in front. -/
inductive Signed : List Char → Nat → Prop
  | bare {s : List Char} {n : Nat} (h : Numeral s n) : Signed s n
  | plus {s : List Char} {n : Nat} (h : Numeral s n) : Signed ('+' :: s) n

/-- The text is a number with blanks around it. -/
def Says (text : String) (n : Nat) : Prop :=
  ∃ b s b', Blanks b ∧ Signed s n ∧ Blanks b' ∧ text.toList = b ++ s ++ b'

/-! ## Digits -/

theorem isBlank_of_isDigit (hc : c.isDigit = true) : isBlank c = false := by
  have hrange : 0x30 ≤ c.toNat ∧ c.toNat ≤ 0x39 := by
    simpa [Char.isDigit, UInt32.le_iff_toNat_le] using hc
  simp only [isBlank, Bool.or_eq_false_iff, Bool.and_eq_false_iff, decide_eq_false_iff_not,
    beq_eq_false_iff_ne]
  omega

theorem Numeral.isDigit_of_mem (h : Numeral s n) : ∀ c ∈ s, c.isDigit = true := by
  induction h with
  | digit hc => exact List.forall_mem_singleton.mpr hc
  | concat _ hc ih => exact List.forall_mem_append.mpr ⟨ih, List.forall_mem_singleton.mpr hc⟩

theorem Numeral.ofDigitChars_eq (h : Numeral s n) : Nat.ofDigitChars 10 s 0 = n := by
  induction h with
  | digit hc => simp [Nat.ofDigitChars_cons]
  | concat _ hc ih => rw [Nat.ofDigitChars_append, ih, Nat.ofDigitChars_cons, Nat.ofDigitChars_nil]

theorem Numeral.ne_nil (h : Numeral s n) : s ≠ [] := by
  cases h <;> simp

theorem numeral_ofDigitChars (hs : s ≠ []) (hdigits : ∀ c ∈ s, c.isDigit = true) :
    Numeral s (Nat.ofDigitChars 10 s 0) := by
  induction s using List.reverseRecOn with
  | nil => exact absurd rfl hs
  | append_singleton s c ih =>
    obtain ⟨hinit, hlast⟩ := List.forall_mem_append.mp hdigits
    have hc : c.isDigit = true := hlast c List.mem_cons_self
    by_cases hs' : s = []
    · subst hs'
      simpa [Nat.ofDigitChars_cons] using Numeral.digit hc
    · rw [Nat.ofDigitChars_append, Nat.ofDigitChars_cons, Nat.ofDigitChars_nil]
      exact .concat (ih hs' hinit) hc

theorem isDigits_iff : isDigits s = true ↔ s ≠ [] ∧ ∀ c ∈ s, c.isDigit = true := by
  simp [isDigits]

theorem read?_eq_some_iff : read? s = some n ↔ Numeral s n := by
  rw [read?, Option.ite_none_right_eq_some, isDigits_iff, Option.some.injEq]
  constructor
  · rintro ⟨⟨hs, hdigits⟩, rfl⟩
    exact numeral_ofDigitChars hs hdigits
  · intro h
    exact ⟨⟨h.ne_nil, h.isDigit_of_mem⟩, h.ofDigitChars_eq⟩

theorem numeral_digits (n : Nat) : Numeral (digits n) n :=
  read?_eq_some_iff.mp (read?_digits n)

/-! ## Numbers within texts -/

theorem toString_string (s : String) : toString s = s := rfl

theorem toList_toString (n : Nat) : (toString n).toList = digits n :=
  Nat.toList_repr

theorem digits_inj {m n : Nat} (h : digits m = digits n) : m = n := by
  have hread := congrArg read? h
  rw [read?_digits, read?_digits] at hread
  exact Option.some.inj hread

theorem takeWhile_digits_append (hc : c.isDigit = false) (n : Nat) (s : List Char) :
    (digits n ++ c :: s).takeWhile Char.isDigit = digits n := by
  rw [List.takeWhile_append_of_pos (numeral_digits n).isDigit_of_mem,
    List.takeWhile_cons_of_neg (Bool.eq_false_iff.mp hc), List.append_nil]

/-- A number and what comes after it can be told apart, if that begins with no digit. -/
theorem digits_append_inj {d : Char} {m n : Nat} {t : List Char} (hc : c.isDigit = false)
    (hd : d.isDigit = false) (h : digits m ++ c :: s = digits n ++ d :: t) :
    m = n ∧ c = d ∧ s = t := by
  have hdigits := congrArg (List.takeWhile Char.isDigit) h
  rw [takeWhile_digits_append hc, takeWhile_digits_append hd] at hdigits
  rw [hdigits] at h
  exact ⟨digits_inj hdigits, List.cons.inj (List.append_cancel_left h)⟩

/-! ## Words -/

theorem toWord?_eq_some_iff : toWord? n = some w ↔ w.toNat = n := by
  rw [toWord?, Option.ite_none_right_eq_some, Option.some.injEq]
  constructor
  · rintro ⟨hn, rfl⟩
    exact UInt64.toNat_ofNat_of_lt' hn
  · rintro rfl
    exact ⟨w.toNat_lt, UInt64.ofNat_toNat⟩

theorem word?_eq_some_iff : word? s = some w ↔ Numeral s w.toNat := by
  simp only [word?, Option.bind_eq_some_iff, read?_eq_some_iff, toWord?_eq_some_iff]
  constructor
  · rintro ⟨n, h, rfl⟩
    exact h
  · intro h
    exact ⟨w.toNat, h, rfl⟩

/-- The plus sign is no digit, so a text is read as signed or as bare and not as both. -/
theorem signedWord?_eq_some_iff : signedWord? s = some w ↔ Signed s w.toNat := by
  constructor
  · intro h
    rw [signedWord?.eq_def] at h
    split at h
    · exact .plus (word?_eq_some_iff.mp h)
    · exact .bare (word?_eq_some_iff.mp h)
  · rintro (h | h)
    · rw [signedWord?.eq_def]
      split
      · exact absurd (h.isDigit_of_mem '+' List.mem_cons_self) (by decide)
      · exact word?_eq_some_iff.mpr h
    · exact word?_eq_some_iff.mpr h

/-- What is written is read back if it fits a word. -/
theorem signedWord?_digits (n : Nat) : signedWord? (digits n) = toWord? n := by
  rw [signedWord?.eq_def]
  split
  · rename_i hdigits
    have hplus : '+' ∈ digits n := hdigits ▸ List.mem_cons_self
    exact absurd ((numeral_digits n).isDigit_of_mem '+' hplus) (by decide)
  · rw [word?, read?_digits, Option.bind_some]

/-! ## Blanks around a number -/

theorem Signed.isBlank_of_mem (h : Signed s n) : ∀ c ∈ s, isBlank c = false := by
  cases h with
  | bare h => exact fun c hc ↦ isBlank_of_isDigit (h.isDigit_of_mem c hc)
  | plus h =>
    exact List.forall_mem_cons.mpr
      ⟨by decide, fun c hc ↦ isBlank_of_isDigit (h.isDigit_of_mem c hc)⟩

theorem Signed.trim_append (h : Signed s n) (hb : Blanks b) (hb' : Blanks b') :
    trim (b ++ s ++ b') = s :=
  trim_append_of_forall hb hb' h.isBlank_of_mem

theorem signedWord?_trim_eq_some_iff {text : String} :
    signedWord? (trim text.toList) = some w ↔ Says text w.toNat := by
  constructor
  · intro h
    obtain ⟨b, b', hb, hb', htext⟩ := exists_eq_append_trim text.toList
    exact ⟨b, _, b', hb, signedWord?_eq_some_iff.mp h, hb', htext⟩
  · rintro ⟨b, s, b', hb, hs, hb', htext⟩
    rw [htext, hs.trim_append hb hb']
    exact signedWord?_eq_some_iff.mpr hs

theorem trim_digits (n : Nat) : trim (digits n) = digits n := by
  simpa using (Signed.bare (numeral_digits n)).trim_append blanks_nil blanks_nil

end Dataflow.Text.Decimal
