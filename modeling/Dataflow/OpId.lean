/-!
# Operator identifiers

A plan numbers its operators with 64-bit words, in the order in which they were added. The order of
identifiers is the order of these numbers.
-/

namespace Dataflow

/-- The number of an operator within its plan. -/
structure OpId where
  val : UInt64
deriving DecidableEq, Repr

namespace OpId

/-- The identifier after this one, in the order of allocation. -/
def next (i : OpId) : OpId :=
  ⟨i.val + 1⟩

/-- The number of an identifier. -/
def toNat (i : OpId) : Nat :=
  i.val.toNat

instance : ToString OpId :=
  ⟨fun i ↦ s!"OpId({i.toNat})"⟩

theorem toString_eq (i : OpId) : toString i = "OpId(" ++ toString i.toNat ++ ")" := rfl

instance : LT OpId :=
  ⟨fun i j ↦ i.val < j.val⟩

instance (i j : OpId) : Decidable (i < j) :=
  inferInstanceAs (Decidable (i.val < j.val))

theorem lt_iff {i j : OpId} : i < j ↔ i.toNat < j.toNat :=
  UInt64.lt_iff_toNat_lt

theorem toNat_inj {i j : OpId} : i.toNat = j.toNat ↔ i = j := by
  cases i; cases j; simp [toNat, UInt64.toNat_inj]

theorem toNat_lt (i : OpId) : i.toNat < UInt64.size :=
  i.val.toNat_lt

theorem lt_irrefl (i : OpId) : ¬ i < i := by
  simp [lt_iff]

theorem lt_trans {i j k : OpId} (h : i < j) (h' : j < k) : i < k := by
  rw [lt_iff] at *; omega

theorem lt_of_not_lt_of_ne {i j : OpId} (h : ¬ i < j) (h' : i ≠ j) : j < i := by
  rw [lt_iff] at *
  have : i.toNat ≠ j.toNat := mt toNat_inj.mp h'
  omega

/-- Below the largest word, `next` adds one. -/
theorem toNat_next {i : OpId} (h : i.toNat + 1 < UInt64.size) : i.next.toNat = i.toNat + 1 := by
  simp only [next, toNat, UInt64.toNat_add] at *
  exact Nat.mod_eq_of_lt h

end OpId

end Dataflow
