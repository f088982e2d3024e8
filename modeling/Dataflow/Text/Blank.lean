/-!
# White space

The Unicode property `White_Space`, as a test on characters, and the two operations that need it:
dropping blanks at the front of a text and at both its ends.
-/

namespace Dataflow.Text

/-- The characters with the property `White_Space`. -/
def isBlank (c : Char) : Bool :=
  (0x09 ≤ c.toNat && c.toNat ≤ 0x0D) || c.toNat == 0x20 || c.toNat == 0x85 || c.toNat == 0xA0 ||
  c.toNat == 0x1680 || (0x2000 ≤ c.toNat && c.toNat ≤ 0x200A) || c.toNat == 0x2028 ||
  c.toNat == 0x2029 || c.toNat == 0x202F || c.toNat == 0x205F || c.toNat == 0x3000

/-- Drops the blanks at the front. -/
def skipBlanks (s : List Char) : List Char :=
  s.dropWhile isBlank

/-- Drops the blanks at both ends. -/
def trim (s : List Char) : List Char :=
  (skipBlanks (skipBlanks s).reverse).reverse

@[simp] theorem skipBlanks_nil : skipBlanks [] = [] := rfl

theorem skipBlanks_cons (c : Char) (s : List Char) :
    skipBlanks (c :: s) = if isBlank c then skipBlanks s else c :: s := by
  by_cases h : isBlank c <;> simp [skipBlanks, h]

theorem length_skipBlanks_le (s : List Char) : (skipBlanks s).length ≤ s.length := by
  induction s with
  | nil => simp
  | cons c s ih =>
    rw [skipBlanks_cons]
    split
    · exact Nat.le_succ_of_le ih
    · exact Nat.le_refl _

theorem mem_of_mem_trim {c : Char} {s : List Char} (h : c ∈ trim s) : c ∈ s := by
  rw [trim, List.mem_reverse] at h
  have h' := (List.dropWhile_sublist isBlank).mem h
  rw [List.mem_reverse] at h'
  exact (List.dropWhile_sublist isBlank).mem h'

theorem skipBlanks_eq_self {s : List Char} (h : ∀ c ∈ s.head?, isBlank c = false) :
    skipBlanks s = s := by
  cases s with
  | nil => rfl
  | cons c s =>
    have hc := h c rfl
    rw [skipBlanks_cons, hc]
    rfl

/-- A text without blanks at its ends is left as it is. -/
theorem trim_eq_self {s : List Char} (hfirst : ∀ c ∈ s.head?, isBlank c = false)
    (hlast : ∀ c ∈ s.getLast?, isBlank c = false) : trim s = s := by
  have hrev : ∀ c ∈ s.reverse.head?, isBlank c = false := by rwa [List.head?_reverse]
  rw [trim, skipBlanks_eq_self hfirst, skipBlanks_eq_self hrev, List.reverse_reverse]

end Dataflow.Text
