import Dataflow.Yaml.Token.Name
import Dataflow.Yaml.Token.Scalar

/-!
# The tokens of a YAML text

A key of a mapping is known as such only at the colon after it. So the lexer notes, for the block
context and for each open flow collection, where a key may have begun; at the colon it puts the token
for the key, and the beginning of a block mapping if one begins there, in front of what it has made
since. A key of this kind stands on one line and has at most 1024 bytes.

The block collections that are open are told apart by their columns. The lexer holds for each the
*margin*, one more than its column: what stands left of the margin does not belong to it. The margin is
zero where no block collection is open.
-/

namespace Dataflow.Yaml

/-- A place where a key may have begun. -/
structure KeyMark where
  /-- The number of tokens before it. -/
  tokenCount : Nat
  /-- Whether what stands there has to be a key, because it stands at the column of a mapping. -/
  isRequired : Bool
  index : Nat
  line : Nat
  column : Nat

/-- The state of the lexer. -/
structure Lexer where
  cursor : Cursor
  /-- The tokens made so far, last first. -/
  tokens : List Token
  tokenCount : Nat
  /-- The margin of the innermost block collection. -/
  margin : Nat
  /-- The margins of the block collections around it. -/
  outerMargins : List Nat
  /-- Where a key may have begun in the innermost context. -/
  keyMark : Option KeyMark
  /-- The same for the contexts around it, one for each open flow collection. -/
  outerKeyMarks : List (Option KeyMark)
  /-- Whether a key may begin here. -/
  keyAllowed : Bool

namespace Lexer

/-- The lexer at the beginning of a text. -/
def start (s : List Char) : Lexer :=
  ⟨.start s, [], 0, 0, [], none, [], true⟩

/-- Whether a flow collection is open. -/
def inFlow (x : Lexer) : Bool :=
  !x.outerKeyMarks.isEmpty

/-- Adds a token. -/
def emit (x : Lexer) (t : Token) : Lexer :=
  { x with tokens := t :: x.tokens, tokenCount := x.tokenCount + 1 }

/-- Puts a token in front of those made since there were `n`. -/
def emitAt (x : Lexer) (n : Nat) (t : Token) : Lexer :=
  { x with
    tokens := x.tokens.insertIdx (x.tokenCount - n) t
    tokenCount := x.tokenCount + 1 }

/-- Passes over characters of the line. -/
def advance (x : Lexer) (n : Nat) : Lexer :=
  { x with cursor := x.cursor.advance n }

/-! ## Keys -/

/-- Whether a key that began at a mark would be too long, or on another line, by now. -/
def isStale (c : Cursor) (m : KeyMark) : Bool :=
  m.line < c.line || m.index + 1024 < c.index

/-- Gives up a mark that has become stale, unless a key has to begin there. -/
def dropStale (c : Cursor) : Option KeyMark → Option (Option KeyMark)
  | none => some none
  | some m => if isStale c m then (if m.isRequired then none else some none) else some (some m)

/-- Gives up the marks that have become stale. -/
def dropStaleMarks (x : Lexer) : Option Lexer := do
  let keyMark ← dropStale x.cursor x.keyMark
  let outerKeyMarks ← x.outerKeyMarks.mapM (dropStale x.cursor)
  return { x with keyMark := keyMark, outerKeyMarks := outerKeyMarks }

/-- Gives up the innermost mark, unless a key has to begin there. -/
def dropMark (x : Lexer) : Option Lexer :=
  match x.keyMark with
  | some m => if m.isRequired then none else some { x with keyMark := none }
  | none => some x

/-- Notes that a key may begin here, if it may. -/
def mark (x : Lexer) : Option Lexer :=
  if x.keyAllowed then do
    let c := x.cursor
    let isRequired := !x.inFlow && x.margin == c.column + 1
    let x ← x.dropMark
    return { x with keyMark := some ⟨x.tokenCount, isRequired, c.index, c.line, c.column⟩ }
  else some x

/-! ## Indentation -/

/-- Begins a block collection at a column, unless one is open there or further right. Its token goes in
front of those made since there were `n`. -/
def openBlock (x : Lexer) (column n : Nat) (t : Token) : Lexer :=
  if !x.inFlow && x.margin ≤ column then
    { x.emitAt n t with margin := column + 1, outerMargins := x.margin :: x.outerMargins }
  else x

/-- Ends the block collections whose margin lies right of `limit`, given the margins around them. -/
def closeMargins (x : Lexer) (limit : Nat) : List Nat → Lexer
  | [] => x
  | m :: ms =>
    if limit < x.margin then
      closeMargins { x.emit .blockEnd with margin := m, outerMargins := ms } limit ms
    else x

/-- Ends the block collections whose margin lies right of `limit`. -/
def closeBlocks (x : Lexer) (limit : Nat) : Lexer :=
  if x.inFlow then x else x.closeMargins limit x.outerMargins

/-! ## Space between tokens -/

/-- Passes over what may stand in front of a token on its line: a byte order mark at its beginning,
blanks and a comment. Tabs count as blanks where no key may begin. -/
def skipLineSpace (inFlow keyAllowed : Bool) (c : Cursor) : Cursor :=
  (c.skipByteOrderMark.skipWhile fun d ↦
    d == ' ' || ((inFlow || !keyAllowed) && d == '\t')).skipComment

theorem length_skipLineSpace_le (inFlow keyAllowed : Bool) (c : Cursor) :
    (skipLineSpace inFlow keyAllowed c).rest.length ≤ c.rest.length :=
  Nat.le_trans (Cursor.length_skipComment_le _)
    (Nat.le_trans (Cursor.length_skipWhile_le _ _) (Cursor.length_skipByteOrderMark_le c))

/-- Passes over blanks, comments and line breaks. In the block context a key may begin on a new
line. -/
def skipSpace (inFlow keyAllowed : Bool) (c : Cursor) : Cursor × Bool :=
  let c' := skipLineSpace inFlow keyAllowed c
  match h : c'.rest with
  | [] => (c', keyAllowed)
  | d :: _ =>
    if hd : isBreak d then
      have : c'.skipBreak.rest.length < c.rest.length :=
        Nat.lt_of_lt_of_le (Cursor.length_takeBreak_lt h hd)
          (length_skipLineSpace_le inFlow keyAllowed c)
      skipSpace inFlow (keyAllowed || !inFlow) c'.skipBreak
    else (c', keyAllowed)
termination_by c.rest.length

/-- Goes to the place of the next token, and ends the keys and collections that cannot go on there. -/
def settle (x : Lexer) : Option Lexer := do
  let (cursor, keyAllowed) := skipSpace x.inFlow x.keyAllowed x.cursor
  let x ← dropStaleMarks { x with cursor := cursor, keyAllowed := keyAllowed }
  return x.closeBlocks (cursor.column + 1)

/-! ## Tokens -/

/-- Takes a mark between documents. -/
def takeDocumentMark (x : Lexer) (t : Token) : Option Lexer := do
  let x ← (x.closeBlocks 0).dropMark
  return { x.emit t with cursor := x.cursor.advance 3, keyAllowed := false }

/-- Takes a directive, given the text after its percent sign. -/
def takeDirectiveLine (x : Lexer) (r : List Char) : Option Lexer := do
  let x ← (x.closeBlocks 0).dropMark
  let (t, rest) ← takeDirective r
  let taken := x.cursor.rest.length - rest.length
  return { x.emit t with cursor := (x.cursor.advance taken).skipBreak, keyAllowed := false }

/-- Takes the indicator that opens a flow collection. -/
def openFlow (x : Lexer) (t : Token) : Option Lexer := do
  let x ← x.mark
  return { (x.emit t).advance 1 with
    keyMark := none, outerKeyMarks := x.keyMark :: x.outerKeyMarks, keyAllowed := true }

/-- Takes the indicator that closes a flow collection. -/
def closeFlow (x : Lexer) (t : Token) : Option Lexer := do
  let x ← x.dropMark
  let x := { (x.emit t).advance 1 with keyAllowed := false }
  match x.outerKeyMarks with
  | [] => return x
  | m :: ms => return { x with keyMark := m, outerKeyMarks := ms }

/-- Takes the comma between entries of a flow collection. -/
def takeComma (x : Lexer) : Option Lexer := do
  let x ← x.dropMark
  return { (x.emit .flowEntry).advance 1 with keyAllowed := true }

/-- Takes the dash before an entry of a block sequence. -/
def takeDash (x : Lexer) : Option Lexer := do
  if !x.inFlow && !x.keyAllowed then none
  else
    let x ← (x.openBlock x.cursor.column x.tokenCount .blockSeqStart).dropMark
    return { (x.emit .blockEntry).advance 1 with keyAllowed := true }

/-- Takes the question mark before a key. -/
def takeQuestionMark (x : Lexer) : Option Lexer := do
  if !x.inFlow && !x.keyAllowed then none
  else
    let x ← (x.openBlock x.cursor.column x.tokenCount .blockMapStart).dropMark
    return { (x.emit .key).advance 1 with keyAllowed := !x.inFlow }

/-- Takes the colon before a value. If a key has begun, its token is put in front of it. -/
def takeColon (x : Lexer) : Option Lexer :=
  match x.keyMark with
  | some m =>
    let x := (x.emitAt m.tokenCount .key).openBlock m.column m.tokenCount .blockMapStart
    some { (x.emit .value).advance 1 with keyMark := none, keyAllowed := false }
  | none =>
    if !x.inFlow && !x.keyAllowed then none
    else
      let x := x.openBlock x.cursor.column x.tokenCount .blockMapStart
      some { (x.emit .value).advance 1 with keyAllowed := !x.inFlow }

/-- Takes an anchor or an alias, given the text after its indicator. -/
def takeAnchor (x : Lexer) (t : List Char → Token) (r : List Char) : Option Lexer := do
  let x ← x.mark
  let name ← anchorName? r
  return { (x.emit (t name)).advance (name.length + 1) with keyAllowed := false }

/-- Takes a tag, given the text after its exclamation mark. -/
def takeTagToken (x : Lexer) (r : List Char) : Option Lexer := do
  let x ← x.mark
  let (handle, suffix, rest) ← takeTag r
  if !mayFollowTag x.inFlow rest then none
  else
    let taken := x.cursor.rest.length - rest.length
    return { (x.emit (.tag handle suffix)).advance taken with keyAllowed := false }

/-- Takes a block scalar. -/
def takeBlockScalar (x : Lexer) (isLiteral : Bool) : Option Lexer := do
  let x ← x.dropMark
  let (text, cursor) ← takeBlock isLiteral x.margin (x.cursor.advance 1)
  let style := if isLiteral then .literal else .folded
  return { x.emit (.scalar style text) with cursor := cursor, keyAllowed := true }

/-- Takes a quoted scalar. -/
def takeQuotedScalar (x : Lexer) (q : Char) : Option Lexer := do
  let x ← x.mark
  let (text, cursor) ← takeQuoted q [] (x.cursor.advance 1)
  let style := if q = '"' then .doubleQuoted else .singleQuoted
  return { x.emit (.scalar style text) with cursor := cursor, keyAllowed := false }

/-- Takes a plain scalar. If line breaks come after it, a key may begin there. -/
def takePlainScalar (x : Lexer) : Option Lexer := do
  let x ← x.mark
  let (text, broken, cursor) ← takePlain x.inFlow x.margin [] .none x.cursor
  return { x.emit (.scalar .plain text) with cursor := cursor, keyAllowed := broken }

/-- The characters that begin no plain scalar, save that a dash, a question mark and a colon may. -/
def isIndicator (c : Char) : Bool :=
  isBlank c || "-?:,[]\x7b\x7d#&*!|>'\"%@\x60".toList.contains c

/-- Whether a plain scalar begins with `c`, before the text `r`. -/
def beginsPlain (inFlow : Bool) (c : Char) (r : List Char) : Bool :=
  !isIndicator c || (c == '-' && !(r.head?.map isGap).getD false) ||
    (!inFlow && (c == '?' || c == ':') && !atBlank r)

/-- Takes the token that begins with `c`, before the text `r`. -/
def takeToken (x : Lexer) (c : Char) (r : List Char) : Option Lexer :=
  if x.cursor.column = 0 ∧ c = '%' then x.takeDirectiveLine r
  else if x.cursor.column = 0 ∧ atDocumentMark (c :: r) then
    x.takeDocumentMark (if c = '-' then .documentStart else .documentEnd)
  else match c with
    | '[' => x.openFlow .flowSeqStart
    | '{' => x.openFlow .flowMapStart
    | ']' => x.closeFlow .flowSeqEnd
    | '}' => x.closeFlow .flowMapEnd
    | ',' => x.takeComma
    | '*' => x.takeAnchor .aliasOf r
    | '&' => x.takeAnchor .anchor r
    | '!' => x.takeTagToken r
    | '\'' => x.takeQuotedScalar '\''
    | '"' => x.takeQuotedScalar '"'
    | _ =>
      if c = '-' ∧ atBlank r then x.takeDash
      else if c = '?' ∧ (x.inFlow ∨ atBlank r) then x.takeQuestionMark
      else if c = ':' ∧ (x.inFlow ∨ atBlank r) then x.takeColon
      else if c = '|' ∧ !x.inFlow then x.takeBlockScalar true
      else if c = '>' ∧ !x.inFlow then x.takeBlockScalar false
      else if beginsPlain x.inFlow c r then x.takePlainScalar
      else none

/-- The tokens when the text is at its end. -/
def finish (x : Lexer) : Option (List Token) := do
  let x ← (x.closeBlocks 0).dropMark
  return x.tokens.reverse

/-- Takes tokens up to the end of the text. -/
def run (x : Lexer) : Option (List Token) := do
  let x' ← x.settle
  match x'.cursor.rest with
  | [] => x'.finish
  | c :: r =>
    let x'' ← x'.takeToken c r
    if x''.cursor.rest.length < x.cursor.rest.length then x''.run else none
termination_by x.cursor.rest.length

end Lexer

/-- The tokens of a text, which may hold no characters but those that YAML allows. -/
def tokens (s : List Char) : Option (List Token) :=
  if s.all isAllowed then (Lexer.start s).run else none

end Dataflow.Yaml
