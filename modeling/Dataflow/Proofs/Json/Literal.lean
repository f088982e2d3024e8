import Dataflow.Json.Token
import Dataflow.Text.Decimal
import Mathlib.Data.List.Basic
import Mathlib.Data.List.TakeWhile

/-!
# Literals are read back

`decode` undoes `encode`, and what `encode` writes may stand between quotes: the scanner finds the
closing quote where it was put and finds nothing wrong before it (`IsQuotable`). The digits of a
number are a numeral.

## One character at a time

The functions on bodies walk a text, while `encodeChar` writes one, two or six characters. So each
fact is first one about a written character and any text after it, by the cases of `Written`, and
then one about `encode` by an induction that does not look at characters.
-/

namespace Dataflow.Json

/-! ## Characters -/

/-- The ways in which a character is written. -/
inductive Written (c : Char) : List Char → Prop
  | plain (hq : c ≠ '"') (hb : c ≠ '\\') (hc : 0x20 ≤ c.toNat) : Written c [c]
  | short {e : Char} (hu : e ≠ 'u') (he : unescape? e = some c) : Written c ['\\', e]
  | control (hc : c.toNat < 0x20) :
      Written c ['\\', 'u', '0', '0', hexDigit (c.toNat / 16), hexDigit (c.toNat % 16)]

theorem unescape?_of_shortEscape?_eq_some {c e : Char} (h : shortEscape? c = some e) :
    e ≠ 'u' ∧ unescape? e = some c := by
  unfold shortEscape? at h
  repeat' split at h
  all_goals cases h
  all_goals (subst_vars; decide)

theorem ne_of_shortEscape?_eq_none {c : Char} (h : shortEscape? c = none) :
    c ≠ '"' ∧ c ≠ '\\' := by
  constructor <;> rintro rfl <;> simp [shortEscape?] at h

theorem written_encodeChar (c : Char) : Written c (encodeChar c) := by
  unfold encodeChar
  split
  next e he =>
    obtain ⟨hu, he⟩ := unescape?_of_shortEscape?_eq_some he
    exact .short hu he
  next hs =>
    obtain ⟨hq, hb⟩ := ne_of_shortEscape?_eq_none hs
    split
    next hc => exact .control hc
    next hc => exact .plain hq hb (Nat.le_of_not_lt hc)

theorem unit?_hexDigit {n : Nat} (h : n < 0x20) :
    unit? '0' '0' (hexDigit (n / 16)) (hexDigit (n % 16)) = some n := by
  revert n
  decide

theorem hexDigit_ne {n : Nat} (h : n < 16) : hexDigit n ≠ '"' ∧ hexDigit n ≠ '\\' := by
  revert n
  decide

theorem closeString_quote (s : List Char) : closeString ('"' :: s) = some ([], s) := by
  cases s <;> rfl

theorem closeString_escape (c : Char) (s : List Char) :
    closeString ('\\' :: c :: s) = (closeString s).map fun (b, rest) ↦ ('\\' :: c :: b, rest) := by
  simp [closeString]

theorem closeString_cons {c : Char} (hq : c ≠ '"') (hb : c ≠ '\\') (s : List Char) :
    closeString (c :: s) = (closeString s).map fun (b, rest) ↦ (c :: b, rest) := by
  cases s <;> simp [closeString, hq, hb]

namespace Written

variable {c : Char} {w : List Char}

theorem decode (h : Written c w) (s : List Char) :
    decode (w ++ s) = (decode s).map (c :: ·) := by
  have hmap : (Json.decode s).map (c :: ·) = do return c :: (← Json.decode s) := Option.map_eq_bind
  rw [hmap]
  cases h with
  | plain hq hb hc => simp [Json.decode, hb]
  | short hu he => simp [Json.decode, hu, he]
  | control hc =>
    -- The unit of a control character is not half of a surrogate pair.
    have hhigh : isHighSurrogate c.toNat = false := by simp [isHighSurrogate]; omega
    have hlow : isLowSurrogate c.toNat = false := by simp [isLowSurrogate]; omega
    simp [Json.decode, unit?_hexDigit hc, hhigh, hlow]

theorem isBody (h : Written c w) (s : List Char) : isBody (w ++ s) = isBody s := by
  cases h with
  | plain hq hb hc => simp [Json.isBody, hb, hc]
  | short hu he => simp [Json.isBody, hu, he]
  | control hc => simp [Json.isBody, unit?_hexDigit hc]

theorem closeString (h : Written c w) (s : List Char) :
    closeString (w ++ s) = (closeString s).map fun (b, rest) ↦ (w ++ b, rest) := by
  cases h with
  | plain hq hb hc => simp [closeString_cons hq hb]
  | short hu he => simp [closeString_escape]
  | control hc =>
    obtain ⟨hq, hb⟩ := hexDigit_ne (n := c.toNat / 16) (by omega)
    obtain ⟨hq', hb'⟩ := hexDigit_ne (n := c.toNat % 16) (by omega)
    simp [closeString_escape, closeString_cons, hq, hb, hq', hb', Function.comp_def]

end Written

/-! ## Bodies -/

/-- A body that is read as it is between quotes. -/
structure IsQuotable (b : List Char) : Prop where
  isBody : isBody b
  closeString (rest : List Char) : closeString (b ++ '"' :: rest) = some (b, rest)

@[simp] theorem decode_encode (s : List Char) : decode (encode s) = some s := by
  induction s with
  | nil => rfl
  | cons c s ih =>
    rw [encode, List.flatMap_cons, (written_encodeChar c).decode, ← encode, ih, Option.map_some]

theorem isBody_encode (s : List Char) : isBody (encode s) := by
  induction s with
  | nil => rfl
  | cons c s ih =>
    rw [encode, List.flatMap_cons, (written_encodeChar c).isBody, ← encode]
    exact ih

theorem closeString_encode (s rest : List Char) :
    closeString (encode s ++ '"' :: rest) = some (encode s, rest) := by
  induction s with
  | nil => rw [encode, List.flatMap_nil, List.nil_append, closeString_quote]
  | cons c s ih =>
    rw [encode, List.flatMap_cons, List.append_assoc, (written_encodeChar c).closeString, ← encode,
      ih, Option.map_some]

theorem isQuotable_encode (s : List Char) : IsQuotable (encode s) :=
  ⟨isBody_encode s, closeString_encode s⟩

theorem encode_eq_self {s : List Char} (h : ∀ c ∈ s, encodeChar c = [c]) : encode s = s := by
  induction s with
  | nil => rfl
  | cons c s ih =>
    rw [encode, List.flatMap_cons, h c List.mem_cons_self, ← encode,
      ih fun c' hc' ↦ h c' (List.mem_cons_of_mem c hc'), List.singleton_append]

/-! ## Numerals -/

open Text.Decimal (digits)

theorem isDigit_of_mem_digits {n : Nat} {c : Char} (h : c ∈ digits n) : c.isDigit :=
  Nat.isDigit_of_mem_toDigits (by decide) (by decide) h

/-- There are no leading zeros. -/
theorem head?_digits_ne {n : Nat} (h : 0 < n) : (digits n).head? ≠ some '0' := by
  induction n using Nat.strongRecOn with
  | ind n ih =>
    by_cases hn : n < 10
    · rw [digits, Nat.toDigits_of_lt_base hn, List.head?_singleton, ne_eq, Option.some_inj,
        Nat.digitChar_eq_zero]
      omega
    · rw [digits, Nat.toDigits_of_base_le (by decide) (Nat.le_of_not_lt hn),
        List.head?_append_of_ne_nil _ Nat.toDigits_ne_nil]
      exact ih (n / 10) (by omega) (by omega)

theorem spanDigits_digits (n : Nat) : spanDigits (digits n) = (digits n, []) :=
  Prod.ext (List.takeWhile_eq_self_iff.mpr fun _ hc ↦ isDigit_of_mem_digits hc)
    (List.dropWhile_eq_nil_iff.mpr fun _ hc ↦ isDigit_of_mem_digits hc)

theorem isUnsignedNumeral_digits (n : Nat) : isUnsignedNumeral (digits n) := by
  rcases Nat.eq_zero_or_pos n with rfl | hn
  · decide
  · have hhead : (digits n).head? ≠ some '0' := head?_digits_ne hn
    rw [isUnsignedNumeral, spanDigits_digits]
    cases hd : digits n with
    | nil => exact absurd hd Nat.toDigits_ne_nil
    | cons c r =>
      rw [hd, List.head?_cons, ne_eq, Option.some_inj] at hhead
      simp [hhead, isFraction, isExponent]

theorem isNumeral_digits (n : Nat) : isNumeral (digits n) := by
  unfold isNumeral
  split
  next s h =>
    have hc : '-' ∈ digits n := h ▸ List.mem_cons_self
    exact absurd (isDigit_of_mem_digits hc) (by decide)
  next => exact isUnsignedNumeral_digits n

theorem encodeChar_of_isDigit {c : Char} (h : c.isDigit) : encodeChar c = [c] := by
  have hne (d : Char) (hd : d.isDigit = false) : c ≠ d := by
    rintro rfl
    exact Bool.false_ne_true (hd.symm.trans h)
  have hc : ¬ c.toNat < 0x20 := by
    have hle : 0x30 ≤ c.toNat := (Char.isDigit_iff_toNat.mp h).1
    omega
  simp [encodeChar, shortEscape?, hne, hc]

/-- Digits are written as they are, between quotes as well. -/
theorem encode_digits (n : Nat) : encode (digits n) = digits n :=
  encode_eq_self fun _ hc ↦ encodeChar_of_isDigit (isDigit_of_mem_digits hc)

end Dataflow.Json
