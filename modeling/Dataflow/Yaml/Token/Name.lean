import Dataflow.Json.Literal
import Dataflow.Yaml.Cursor
import Dataflow.Yaml.Token

/-!
# Anchors, tags and directives

The tokens that begin with an ampersand, an asterisk, an exclamation mark or a percent sign. Each
function is given the text after that character and gives the token with the number of characters
that it takes, or with what is left.

The octets that a tag names by percent signs are kept as characters below 256. An octet of zero ends
the tag: what is written after it has to be well-formed, but does not count.
-/

namespace Dataflow.Yaml

/-! ## Anchors and aliases -/

/-- Whether a text may follow the name of an anchor. -/
def mayFollowName : List Char → Bool
  | [] => true
  | c :: _ =>
    isBlank c || c == '?' || c == ':' || c == ',' || c == ']' || c == '}' || c == '%' ||
      c == '@' || c == '\x60'

/-- The name of an anchor or an alias. -/
def anchorName? (s : List Char) : Option (List Char) :=
  let name := s.takeWhile isNameChar
  if name.isEmpty || !mayFollowName (s.drop name.length) then none else some name

/-! ## Tags -/

/-- The characters of a tag. Commas and brackets belong to it only in the verbatim form. -/
def isUriChar (isVerbatim : Bool) (c : Char) : Bool :=
  isNameChar c || (";/?:@&=+$.!~*'()".toList.contains c) ||
    (isVerbatim && (c == ',' || c == '[' || c == ']'))

/-- How many octets follow the first octet of a character in UTF-8. -/
def trailingOctets? (octet : Nat) : Option Nat :=
  if octet < 0x80 then some 0
  else if octet < 0xC0 then none
  else if octet < 0xE0 then some 1
  else if octet < 0xF0 then some 2
  else if octet < 0xF8 then some 3
  else none

/-- Reads the characters of a tag, where `pending` further octets have to be named by percent signs:
the octets, and the text after them. -/
def takeUri (isVerbatim : Bool) (pending : Nat) : List Char → Option (List Char × List Char)
  | '%' :: a :: b :: r => do
    let octet := (← Json.hexValue? a) * 16 + (← Json.hexValue? b)
    let pending ←
      if pending = 0 then trailingOctets? octet
      else if 0x80 ≤ octet ∧ octet < 0xC0 then some (pending - 1) else none
    let (uri, rest) ← takeUri isVerbatim pending r
    return (Char.ofNat octet :: uri, rest)
  | c :: r =>
    if c = '%' ∨ 0 < pending then
      none
    else if isUriChar isVerbatim c then
      (takeUri isVerbatim 0 r).map fun (uri, rest) ↦ (c :: uri, rest)
    else some ([], c :: r)
  | [] => if pending = 0 then some ([], []) else none

/-- The octets of a tag that count. -/
def beforeZero (octets : List Char) : List Char :=
  octets.takeWhile (· ≠ '\x00')

/-- Reads a tag after its exclamation mark: the handle, the suffix and the text after them. A tag that
consists of the exclamation mark alone is its own suffix. -/
def takeTag (s : List Char) : Option (List Char × List Char × List Char) :=
  match s with
  | '<' :: r => do
    match ← takeUri true 0 r with
    | (c :: uri, '>' :: rest) => return ([], beforeZero (c :: uri), rest)
    | _ => none
  | _ => do
    let name := s.takeWhile isNameChar
    match s.drop name.length with
    | '!' :: r =>
      match ← takeUri false 0 r with
      | (c :: uri, rest) => return ('!' :: (name ++ ['!']), beforeZero (c :: uri), rest)
      | ([], _) => none
    | r =>
      let (uri, rest) ← takeUri false 0 r
      let suffix := beforeZero (name ++ uri)
      if suffix.isEmpty then return ([], ['!'], rest) else return (['!'], suffix, rest)

/-- Whether a text may follow a tag. -/
def mayFollowTag (inFlow : Bool) (s : List Char) : Bool :=
  atBlank s || (inFlow && s.head? == some ',')

/-! ## Directives -/

/-- A number of at most nine digits, and the text after it. -/
def takeVersionNumber (s : List Char) : Option (Nat × List Char) :=
  let ds := s.takeWhile Char.isDigit
  if ds.isEmpty || 9 < ds.length then none
  else some (Nat.ofDigitChars 10 ds 0, s.drop ds.length)

/-- Reads the two numbers of a version directive. -/
def takeVersion (s : List Char) : Option (Token × List Char) := do
  match ← takeVersionNumber (s.dropWhile isGap) with
  | (major, '.' :: r) =>
    let (minor, rest) ← takeVersionNumber r
    return (.version major minor, rest)
  | _ => none

/-- Reads the handle that a tag directive defines. -/
def takeHandle : List Char → Option (List Char × List Char)
  | '!' :: s =>
    let name := s.takeWhile isNameChar
    match s.drop name.length with
    | '!' :: rest => some ('!' :: (name ++ ['!']), rest)
    | rest => if name.isEmpty then some (['!'], rest) else none
  | _ => none

/-- Reads the handle and the meaning of a tag directive. -/
def takeTagDirective (s : List Char) : Option (Token × List Char) := do
  let (handle, rest) ← takeHandle (s.dropWhile isGap)
  match rest with
  | c :: _ =>
    if isGap c then
      match ← takeUri true 0 (rest.dropWhile isGap) with
      | (d :: uri, rest) =>
        if atBlank rest then return (.tagDirective handle (beforeZero (d :: uri)), rest) else none
      | ([], _) => none
    else none
  | [] => none

/-- Reads a directive after its percent sign, up to the end of its line. -/
def takeDirective (s : List Char) : Option (Token × List Char) := do
  let name := s.takeWhile isNameChar
  let r := s.drop name.length
  if !atBlank r then none
  else
    let (token, rest) ←
      if name = ['Y', 'A', 'M', 'L'] then takeVersion r
      else if name = ['T', 'A', 'G'] then takeTagDirective r
      else none
    let rest := rest.dropWhile isGap
    let rest := if rest.head? = some '#' then rest.dropWhile (!isBreak ·) else rest
    if atBreak rest then return (token, rest) else none

end Dataflow.Yaml
