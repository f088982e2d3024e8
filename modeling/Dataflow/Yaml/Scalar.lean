import Dataflow.Untyped
import Dataflow.Yaml.Node

/-!
# The values of scalars

What a plain scalar looks like: null, a truth value, a number or else a text. Integers are decimal
without leading zeros, or hexadecimal, octal or binary after `0x`, `0o` and `0b`. A scalar with one of
the tags for these types has to look like one, whatever its style.
-/

namespace Dataflow.Yaml.Scalar

/-! ## Null and truth -/

/-- The words for null. -/
def isNull (s : List Char) : Bool :=
  ["null", "Null", "NULL", "~"].any fun w ↦ w.toList = s

/-- The truth value of a word. -/
def truth? (s : List Char) : Option Bool :=
  if ["true", "True", "TRUE"].any fun w ↦ w.toList = s then some true
  else if ["false", "False", "FALSE"].any fun w ↦ w.toList = s then some false
  else none

/-! ## Integers -/

/-- The number that digits denote in a base of at most sixteen. -/
def digits? (base : Nat) (s : List Char) : Option Nat :=
  if s.isEmpty then none
  else s.foldlM (fun n c ↦ do
    let d ← Json.hexValue? c
    if d < base then return n * base + d else none) 0

/-- Digits that begin with a zero and are more than that. They denote no number. -/
def hasLeadingZero : List Char → Bool
  | '0' :: s => !s.isEmpty && s.all Char.isDigit
  | _ => false

/-- The number that a numeral without sign denotes. -/
def magnitude? : List Char → Option Nat
  | '0' :: 'x' :: s => digits? 16 s
  | '0' :: 'o' :: s => digits? 8 s
  | '0' :: 'b' :: s => digits? 2 s
  | s => if hasLeadingZero s then none else digits? 10 s

/-- The natural number that a numeral denotes; a plus sign may stand in front. -/
def natural? : List Char → Option Nat
  | '+' :: s => magnitude? s
  | s => magnitude? s

/-- The magnitude that a numeral with a minus sign denotes. -/
def negated? : List Char → Option Nat
  | '-' :: s => magnitude? s
  | _ => none

/-- A word, given by its numeral. -/
def word? (s : List Char) : Option UInt64 :=
  (natural? s).bind Text.Decimal.toWord?

/-- What an integer can be. -/
inductive IntegerSize where
  | word (w : UInt64)
  | negative
  /-- Too large for 64 bits, but not for 128. -/
  | large

/-- The integer that a numeral denotes, unless it is too large for 128 bits. -/
def integer? (s : List Char) : Option IntegerSize :=
  match word? s with
  | some w => some (.word w)
  | none =>
    match natural? s, negated? s with
    | some n, _ => if n < Nat.pow 2 128 then some .large else none
    | none, some n =>
      if n ≤ Nat.pow 2 63 then some .negative else if n ≤ Nat.pow 2 127 then some .large else none
    | none, none => none

/-! ## Floating-point numbers -/

/-- Splits off the digits at the front. -/
def splitDigits (s : List Char) : List Char × List Char :=
  (s.takeWhile Char.isDigit, s.dropWhile Char.isDigit)

/-- The exponent after the digits of a number, if one is written. -/
def exponent? : List Char → Option Int
  | [] => some 0
  | e :: s =>
    if e = 'e' ∨ e = 'E' then
      match s with
      | '-' :: ds => (digits? 10 ds).map fun n ↦ -(n : Int)
      | '+' :: ds => (digits? 10 ds).map fun n ↦ (n : Int)
      | ds => (digits? 10 ds).map fun n ↦ (n : Int)
    else none

/-- The digits and the power of ten of a number without sign. -/
def decimal? (s : List Char) : Option (List Char × Int) := do
  let (whole, rest) := splitDigits s
  let (fraction, rest) := match rest with
    | '.' :: r => splitDigits r
    | _ => ([], rest)
  if whole.isEmpty && fraction.isEmpty then none
  else return (whole ++ fraction, (← exponent? rest) - fraction.length)

/-- Whether the double nearest to digits with a power of ten is finite: the number lies below the
middle between the largest double and the next power of two. -/
def isFinite (ds : List Char) (power : Int) : Bool :=
  let ds := ds.dropWhile (· == '0')
  let n := Nat.ofDigitChars 10 ds 0
  let bound := Nat.pow 2 1024 - Nat.pow 2 970
  if ds.length + power < 300 then true
  else if 310 < ds.length + power then ds.isEmpty
  else if 0 ≤ power then n * Nat.pow 10 power.toNat < bound
  else n < bound * Nat.pow 10 (-power).toNat

/-- Whether a text is a number without sign whose nearest double is finite. -/
def isUnsignedFloat (s : List Char) : Bool :=
  match decimal? s with
  | some (ds, power) => isFinite ds power
  | none => false

/-- The words for infinity. -/
def isInfinity (s : List Char) : Bool :=
  [".inf", ".Inf", ".INF"].any fun w ↦ w.toList = s

/-- The words for a value that is no number. -/
def isNotANumber (s : List Char) : Bool :=
  [".nan", ".NaN", ".NAN"].any fun w ↦ w.toList = s

/-- Whether a text denotes a floating-point number. -/
def isFloat (s : List Char) : Bool :=
  isNotANumber s || match s with
    | '+' :: r | '-' :: r => isInfinity r || isUnsignedFloat r
    | _ => isInfinity s || isUnsignedFloat s

/-! ## Values -/

/-- A leading zero before which a sign may stand. -/
def hasSignedLeadingZero : List Char → Bool
  | '+' :: s | '-' :: s => hasLeadingZero s
  | s => hasLeadingZero s

/-- The value of an integer; there are none of more than 64 bits. -/
def IntegerSize.value? : IntegerSize → Option Untyped
  | word w => some (.word w)
  | negative => some .number
  | large => none

/-- The value that a plain scalar looks like. -/
def plainValue? (s : List Char) : Option Untyped :=
  if s.isEmpty || isNull s then some .null
  else match truth? s with
    | some b => some (.bool b)
    | none =>
      match integer? s with
      | some i => i.value?
      | none =>
        if !hasSignedLeadingZero s && isFloat s then some .number
        else some (.text (String.ofList s))

/-- A tag of the core types. -/
def coreTag (name : String) : List Char :=
  ("tag:yaml.org,2002:" ++ name).toList

/-- Whether a tag is local to the document, and names no type that is known here. -/
def isLocalTag (tag : List Char) : Bool :=
  tag.head? == some '!' && ByteArray.validateUTF8 ⟨(tag.map fun c ↦ c.toNat.toUInt8).toArray⟩

/-- The value of a scalar. -/
def value? (tag : Option (List Char)) (style : Style) (s : List Char) : Option Untyped :=
  match tag with
  | none => if style = .plain then plainValue? s else some (.text (String.ofList s))
  | some tag =>
    if isLocalTag tag then none
    else if tag = coreTag "bool" then (truth? s).map .bool
    else if tag = coreTag "int" then (integer? s).bind IntegerSize.value?
    else if tag = coreTag "float" then if isFloat s then some .number else none
    else if tag = coreTag "null" then if isNull s then some .null else none
    else if tag.head? = some '!' ∧ style = .plain then plainValue? s
    else some (.text (String.ofList s))

end Dataflow.Yaml.Scalar
