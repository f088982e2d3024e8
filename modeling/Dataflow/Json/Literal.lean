/-!
# JSON literals

The body of a JSON string is the text between its quotes. `encode` writes a text as a body: quotes,
backslashes and control characters are escaped and all else stands for itself. `decode` reads a
body; it fails on a `\u` escape that is half of a surrogate pair. `isNumeral` is the grammar of
numbers.
-/

namespace Dataflow.Json

/-! ## Hexadecimal digits -/

/-- The digit with a value below sixteen, in lower case. -/
def hexDigit (n : Nat) : Char :=
  if n < 10 then Char.ofNat (0x30 + n) else Char.ofNat (0x57 + n)

/-- The value of a hexadecimal digit in either case. -/
def hexValue? (c : Char) : Option Nat :=
  if '0' ≤ c ∧ c ≤ '9' then some (c.toNat - 0x30)
  else if 'a' ≤ c ∧ c ≤ 'f' then some (c.toNat - 0x57)
  else if 'A' ≤ c ∧ c ≤ 'F' then some (c.toNat - 0x37)
  else none

/-- The value of four hexadecimal digits. -/
def unit? (a b c d : Char) : Option Nat := do
  return (((← hexValue? a) * 16 + (← hexValue? b)) * 16 + (← hexValue? c)) * 16 + (← hexValue? d)

/-! ## Strings -/

/-- The letter after the backslash for the characters that have a short escape. -/
def shortEscape? (c : Char) : Option Char :=
  if c = '"' then some '"'
  else if c = '\\' then some '\\'
  else if c = '\x08' then some 'b'
  else if c = '\t' then some 't'
  else if c = '\n' then some 'n'
  else if c = '\x0c' then some 'f'
  else if c = '\r' then some 'r'
  else none

/-- A character within the body of a string. -/
def encodeChar (c : Char) : List Char :=
  match shortEscape? c with
  | some e => ['\\', e]
  | none =>
    if c.toNat < 0x20 then ['\\', 'u', '0', '0', hexDigit (c.toNat / 16), hexDigit (c.toNat % 16)]
    else [c]

/-- The body of the string for a text. -/
def encode (s : List Char) : List Char :=
  s.flatMap encodeChar

/-- The character that a letter after the backslash stands for, save `u`. -/
def unescape? (c : Char) : Option Char :=
  if c = '"' then some '"'
  else if c = '\\' then some '\\'
  else if c = '/' then some '/'
  else if c = 'b' then some '\x08'
  else if c = 't' then some '\t'
  else if c = 'n' then some '\n'
  else if c = 'f' then some '\x0c'
  else if c = 'r' then some '\r'
  else none

/-- The first half of a surrogate pair. -/
def isHighSurrogate (n : Nat) : Bool :=
  0xD800 ≤ n && n ≤ 0xDBFF

/-- The second half of a surrogate pair. -/
def isLowSurrogate (n : Nat) : Bool :=
  0xDC00 ≤ n && n ≤ 0xDFFF

/-- The text of a string with a given body. -/
def decode : List Char → Option (List Char)
  | [] => some []
  | '\\' :: 'u' :: a :: b :: c :: d :: r => do
    let n ← unit? a b c d
    if isHighSurrogate n then
      match r with
      | '\\' :: 'u' :: a' :: b' :: c' :: d' :: r' => do
        let m ← unit? a' b' c' d'
        if isLowSurrogate m then
          return Char.ofNat (0x10000 + (n - 0xD800) * 0x400 + (m - 0xDC00)) :: (← decode r')
        else none
      | _ => none
    else if isLowSurrogate n then none
    else return Char.ofNat n :: (← decode r)
  | '\\' :: e :: r => do return (← unescape? e) :: (← decode r)
  | c :: r => do if c = '\\' then none else return c :: (← decode r)

/-- A text may stand between quotes: no control characters, and every backslash begins an escape.
Escapes need not denote a character. -/
def isBody : List Char → Bool
  | [] => true
  | '\\' :: 'u' :: a :: b :: c :: d :: r => (unit? a b c d).isSome && isBody r
  | '\\' :: e :: r => (unescape? e).isSome && isBody r
  | c :: r => c != '\\' && 0x20 ≤ c.toNat && isBody r

/-! ## Numbers -/

/-- The longest run of digits at the front, and the rest. -/
def spanDigits (s : List Char) : List Char × List Char :=
  (s.takeWhile Char.isDigit, s.dropWhile Char.isDigit)

/-- Nothing, or a sign and digits after the letter of an exponent. -/
def isExponent : List Char → Bool
  | [] => true
  | e :: r =>
    let ds := match r with
      | '+' :: r' => r'
      | '-' :: r' => r'
      | _ => r
    (e == 'e' || e == 'E') && !ds.isEmpty && ds.all Char.isDigit

/-- Nothing, or a point and digits, and then perhaps an exponent. -/
def isFraction : List Char → Bool
  | '.' :: r =>
    let (ds, rest) := spanDigits r
    !ds.isEmpty && isExponent rest
  | s => isExponent s

/-- A number without its sign: no leading zeros. -/
def isUnsignedNumeral (s : List Char) : Bool :=
  match spanDigits s with
  | ([], _) => false
  | ('0' :: _ :: _, _) => false
  | (_, rest) => isFraction rest

/-- The numerals of JSON. -/
def isNumeral : List Char → Bool
  | '-' :: s => isUnsignedNumeral s
  | s => isUnsignedNumeral s

end Dataflow.Json
