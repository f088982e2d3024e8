import Dataflow.Json.Literal
import Dataflow.Text.Decimal

/-!
# Numbers beyond doubles

A JSON number that is not a 64-bit integer is read as a double. Its digits are taken as far as they
fit a 64-bit word, the power of ten is applied in one multiplication of doubles, and the number is
refused if the product is infinite. All of this is integer arithmetic on values of at least one.
-/

namespace Dataflow.Json

/-- The nearest number with at most 53 significant bits; a tie goes to the even one. -/
def roundToDouble (n : Nat) : Nat :=
  let shift := n.log2 - 52
  let q := n >>> shift
  let twice := 2 * (n - (q <<< shift))
  let unit := 1 <<< shift
  if unit < twice ∨ (twice = unit ∧ q % 2 = 1) then (q + 1) <<< shift else q <<< shift

/-- Appends digits to a significand as long as it fits a word: the significand, and how many digits
were left over. -/
def takeDigits (significand : Nat) : List Char → Nat × Nat
  | [] => (significand, 0)
  | c :: r =>
    let next := significand * 10 + (c.toNat - 0x30)
    if next < UInt64.size then takeDigits next r else (significand, r.length + 1)

/-- The exponent after a numeral's digits. -/
def exponentOf : List Char → Int
  | _ :: '-' :: ds => -(Nat.ofDigitChars 10 ds 0 : Int)
  | _ :: '+' :: ds => Nat.ofDigitChars 10 ds 0
  | _ :: ds => Nat.ofDigitChars 10 ds 0
  | [] => 0

/-- Whether a numeral without sign denotes an infinite double. -/
def isInfinite (numeral : List Char) : Bool :=
  let (whole, rest) := spanDigits numeral
  let (significand, dropped) := takeDigits 0 whole
  let (fraction, tail) := match rest with
    | '.' :: r => spanDigits r
    | r => ([], r)
  let (significand, left) := takeDigits significand fraction
  let exponent := (dropped : Int) - (fraction.length - left : Nat) + exponentOf tail
  if significand = 0 ∨ exponent < 0 then false
  else if 308 < exponent then true
  else
    let power := roundToDouble (Nat.pow 10 exponent.toNat)
    Nat.pow 2 1024 ≤ roundToDouble (roundToDouble significand * power)

/-- Whether a numeral denotes an infinite double. -/
def isTooLarge : List Char → Bool
  | '-' :: s => isInfinite s
  | s => isInfinite s

end Dataflow.Json
