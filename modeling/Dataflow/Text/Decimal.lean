/-!
# Decimal numerals

Natural numbers as decimal digits and back. `word?` reads numbers that fit a 64-bit word; it
reads back what `digits` writes (`word?_digits`).
-/

namespace Dataflow.Text.Decimal

/-- The decimal digits of a number, without leading zeros. -/
def digits (n : Nat) : List Char :=
  Nat.toDigits 10 n

/-- A text of one or more ASCII digits. -/
def isDigits (s : List Char) : Bool :=
  !s.isEmpty && s.all Char.isDigit

/-- The number that ASCII digits denote. Leading zeros are allowed. -/
def read? (s : List Char) : Option Nat :=
  if isDigits s then some (Nat.ofDigitChars 10 s 0) else none

/-- A number as a word, if it fits. -/
def toWord? (n : Nat) : Option UInt64 :=
  if n < UInt64.size then some (UInt64.ofNat n) else none

/-- The word that ASCII digits denote. -/
def word? (s : List Char) : Option UInt64 :=
  (read? s).bind toWord?

/-- Like `word?`, with an optional plus sign in front. -/
def signedWord? : List Char → Option UInt64
  | '+' :: s => word? s
  | s => word? s

theorem isDigits_digits (n : Nat) : isDigits (digits n) := by
  simp only [isDigits, digits, Bool.and_eq_true, Bool.not_eq_true', List.isEmpty_eq_false_iff,
    List.all_eq_true]
  exact ⟨Nat.toDigits_ne_nil, fun c hc ↦ Nat.isDigit_of_mem_toDigits (by decide) (by decide) hc⟩

@[simp] theorem read?_digits (n : Nat) : read? (digits n) = some n := by
  rw [read?, if_pos (isDigits_digits n), digits, Nat.ofDigitChars_ten_toDigits]

@[simp] theorem toWord?_toNat (w : UInt64) : toWord? w.toNat = some w := by
  rw [toWord?, if_pos w.toNat_lt, UInt64.ofNat_toNat]

@[simp] theorem word?_digits (w : UInt64) : word? (digits w.toNat) = some w := by
  simp [word?]

end Dataflow.Text.Decimal
