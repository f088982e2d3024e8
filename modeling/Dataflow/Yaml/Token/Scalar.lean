import Dataflow.Json.Literal
import Dataflow.Yaml.Cursor

/-!
# Scalars in a YAML text

The text of a scalar in each of its styles. In plain and quoted scalars a run of blanks is folded: a
single line break becomes a space, and of several the first is dropped. In block scalars the lines
keep their breaks (literal) or are folded where no line is indented further (folded).
-/

namespace Dataflow.Yaml

/-! ## Runs of blanks -/

/-- Blanks between the words of a scalar: the spaces if there is no line break, otherwise the first
break and those after it. -/
structure Gap where
  spaces : List Char
  isBroken : Bool
  firstBreak : List Char
  laterBreaks : List Char

namespace Gap

/-- No blanks. -/
def none : Gap :=
  ⟨[], false, [], []⟩

/-- A line break that is escaped and leaves nothing behind. -/
def escaped : Gap :=
  ⟨[], true, [], []⟩

/-- What a run of blanks stands for. -/
def fold (g : Gap) : List Char :=
  if g.isBroken then
    if g.firstBreak = ['\n'] then
      if g.laterBreaks.isEmpty then [' '] else g.laterBreaks
    else g.firstBreak ++ g.laterBreaks
  else g.spaces

end Gap

/-- Passes over blanks. After a line break no tab may stand before the column `margin`. -/
def takeGap (margin : Nat) (g : Gap) (c : Cursor) : Option (Gap × Cursor) :=
  match h : c.rest with
  | [] => some (g, c)
  | x :: _ =>
    if isGap x then
      have := Cursor.length_advance_lt h Nat.one_pos
      if g.isBroken then
        if x = '\t' ∧ c.column < margin then none else takeGap margin g (c.advance 1)
      else takeGap margin { g with spaces := g.spaces ++ [x] } (c.advance 1)
    else if hx : isBreak x then
      have := Cursor.length_takeBreak_lt h hx
      if g.isBroken then
        takeGap margin { g with laterBreaks := g.laterBreaks ++ c.takeBreak.1 } c.takeBreak.2
      else takeGap margin ⟨[], true, c.takeBreak.1, []⟩ c.takeBreak.2
    else some (g, c)
termination_by c.rest.length

/-! ## Plain scalars -/

/-- A flow indicator that ends a plain scalar within a flow collection. -/
def isFlowIndicator (c : Char) : Bool :=
  c == ',' || c == '[' || c == ']' || c == '{' || c == '}'

/-- The word of a plain scalar at the front of a text. It ends at a blank, at a colon before a blank
and, within a flow collection, at a flow indicator; a colon right before an indicator is refused
there. -/
def plainWord (inFlow : Bool) : List Char → Option (List Char)
  | [] => some []
  | c :: r =>
    if isBlank c then some []
    else if inFlow && c == ':' && (r.head?.map fun d ↦ isFlowIndicator d || d == '?').getD false
      then none
    else if (c == ':' && atBlank r) || (inFlow && isFlowIndicator c) then some []
    else (plainWord inFlow r).map (c :: ·)

/-- Reads a plain scalar after `gap`, where `text` has been read before: the text, and whether it was
followed by a line break. -/
def takePlain (inFlow : Bool) (margin : Nat) (text : List Char) (gap : Gap) (c : Cursor) :
    Option (List Char × Bool × Cursor) :=
  if (c.column = 0 ∧ atDocumentMark c.rest) ∨ c.rest.head? = some '#' then
    some (text, gap.isBroken, c)
  else do
    let word ← plainWord inFlow c.rest
    if word.isEmpty then return (text, gap.isBroken, c)
    let text := text ++ gap.fold ++ word
    let c' := c.advance word.length
    match c'.rest with
    | [] => return (text, false, c')
    | x :: _ =>
      if isBlank x then
        let (gap, c'') ← takeGap margin .none c'
        if !inFlow && c''.column < margin then return (text, gap.isBroken, c'')
        else if c''.rest.length < c.rest.length then takePlain inFlow margin text gap c''
        else none
      else return (text, false, c')
termination_by c.rest.length

/-! ## Quoted scalars -/

/-- The character that an escape of one letter stands for. -/
def simpleEscape? (c : Char) : Option Char :=
  match c with
  | '0' => some '\x00'
  | 'a' => some '\x07'
  | 'b' => some '\x08'
  | 't' | '\t' => some '\t'
  | 'n' => some '\n'
  | 'v' => some '\x0b'
  | 'f' => some '\x0c'
  | 'r' => some '\r'
  | 'e' => some '\x1b'
  | ' ' => some ' '
  | '"' => some '"'
  | '/' => some '/'
  | '\\' => some '\\'
  | 'N' => some '\u0085'
  | '_' => some '\u00a0'
  | 'L' => some '\u2028'
  | 'P' => some '\u2029'
  | _ => none

/-- How many digits an escape by number has. -/
def escapeDigits? (c : Char) : Option Nat :=
  match c with
  | 'x' => some 2
  | 'u' => some 4
  | 'U' => some 8
  | _ => none

/-- The character with a number, given by hexadecimal digits. -/
def charOfHex? (ds : List Char) : Option Char := do
  let n ← ds.foldlM (fun n d ↦ do return n * 16 + (← Json.hexValue? d)) 0
  if h : n.isValidChar then return Char.ofNatAux n h else none

/-- Passes over the characters of a double-quoted scalar up to a blank or the closing quote: the text,
last character first, and whether it ended with an escaped line break. -/
def takeDouble (text : List Char) (c : Cursor) : Option (List Char × Bool × Cursor) :=
  match h : c.rest with
  | [] => some (text, false, c)
  | '\\' :: e :: r =>
    if isBreak e then some (text, true, (c.advance 1).skipBreak)
    else match simpleEscape? e with
      | some x =>
        have := Cursor.length_advance_lt (n := 2) h (by decide)
        takeDouble (x :: text) (c.advance 2)
      | none => do
        let n ← escapeDigits? e
        if r.length < n then none
        else
          let x ← charOfHex? (r.take n)
          have := Cursor.length_advance_lt (n := 2 + n) h (Nat.add_pos_left Nat.two_pos n)
          takeDouble (x :: text) (c.advance (2 + n))
  | x :: _ =>
    if x = '\\' then none
    else if x = '"' ∨ isBlank x then some (text, false, c)
    else
      have := Cursor.length_advance_lt h Nat.one_pos
      takeDouble (x :: text) (c.advance 1)
termination_by c.rest.length

/-- Passes over the characters of a single-quoted scalar up to a blank or the closing quote: the text,
last character first. A quote written twice stands for one. -/
def takeSingle (text : List Char) (c : Cursor) : List Char × Cursor :=
  match h : c.rest with
  | [] => (text, c)
  | '\'' :: '\'' :: _ =>
    have := Cursor.length_advance_lt (n := 2) h (by decide)
    takeSingle ('\'' :: text) (c.advance 2)
  | x :: _ =>
    if x = '\'' ∨ isBlank x then (text, c)
    else
      have := Cursor.length_advance_lt h Nat.one_pos
      takeSingle (x :: text) (c.advance 1)
termination_by c.rest.length

/-- Passes over characters up to a blank or the quote `q`. -/
def takeQuotedWord (q : Char) (c : Cursor) : Option (List Char × Bool × Cursor) :=
  if q = '"' then
    (takeDouble [] c).map fun (text, broken, c') ↦ (text.reverse, broken, c')
  else
    let (text, c') := takeSingle [] c
    some (text.reverse, false, c')

/-- Reads a quoted scalar up to and with its closing quote, where `text` has been read before. The
marks between documents may not stand at the beginning of one of its lines. -/
def takeQuoted (q : Char) (text : List Char) (c : Cursor) : Option (List Char × Cursor) :=
  if c.column = 0 ∧ atDocumentMark c.rest then none
  else do
    let (word, broken, c') ← takeQuotedWord q c
    let text := text ++ word
    match c'.rest with
    | [] => none
    | x :: _ =>
      if x = q then return (text, c'.advance 1)
      else
        let (gap, c'') ← takeGap 0 (if broken then .escaped else .none) c'
        if c''.rest.length < c.rest.length then takeQuoted q (text ++ gap.fold) c'' else none
termination_by c.rest.length

/-! ## Block scalars -/

/-- What becomes of the line breaks at the end of a block scalar. -/
inductive Chomping where
  | strip | clip | keep
deriving DecidableEq, Repr

/-- The chomping that an indicator asks for. -/
def Chomping.ofChar? : Char → Option Chomping
  | '+' => some .keep
  | '-' => some .strip
  | _ => none

/-- An indentation indicator, which is a digit other than zero. -/
def indentation? (c : Char) : Option Nat :=
  if c.isDigit && c != '0' then some (c.toNat - 0x30) else none

/-- The indicators after the one that begins a block scalar, in either order: the chomping, the
indentation, and how many characters they take. -/
def blockHeader : List Char → Option (Chomping × Option Nat × Nat)
  | c :: r =>
    match Chomping.ofChar? c with
    | some chomping =>
      match r with
      | d :: _ =>
        if d.isDigit then (indentation? d).map fun n ↦ (chomping, some n, 2)
        else some (chomping, none, 1)
      | [] => some (chomping, none, 1)
    | none =>
      if c.isDigit then
        (indentation? c).map fun n ↦
          match r.head?.bind Chomping.ofChar? with
          | some chomping => (chomping, some n, 2)
          | none => (.clip, some n, 1)
      else some (.clip, none, 0)
  | [] => some (.clip, none, 0)

/-- Passes over the indentation of a line: spaces, up to the column `indent` if it is known (not
zero). -/
def skipIndentation (indent : Nat) (c : Cursor) : Cursor :=
  let spaces := (c.rest.takeWhile (· == ' ')).length
  c.advance (if indent = 0 then spaces else min spaces (indent - c.column))

theorem length_skipIndentation_le (indent : Nat) (c : Cursor) :
    (skipIndentation indent c).rest.length ≤ c.rest.length := by
  rw [skipIndentation, Cursor.length_advance]
  omega

/-- Passes over empty lines and the indentation of the line after them: the line breaks, and the
greatest column that was reached. A tab may not stand in the indentation. -/
def takeEmptyLines (indent widest : Nat) (breaks : List Char) (c : Cursor) :
    Option (List Char × Nat × Cursor) :=
  let c' := skipIndentation indent c
  let widest := max widest c'.column
  match h : c'.rest with
  | [] => some (breaks, widest, c')
  | x :: _ =>
    if x = '\t' ∧ (indent = 0 ∨ c'.column < indent) then none
    else if hx : isBreak x then
      have : c'.takeBreak.2.rest.length < c.rest.length :=
        Nat.lt_of_lt_of_le (Cursor.length_takeBreak_lt h hx) (length_skipIndentation_le indent c)
      takeEmptyLines indent widest (breaks ++ c'.takeBreak.1) c'.takeBreak.2
    else some (breaks, widest, c')
termination_by c.rest.length

/-- The lines of a block scalar that have been read. -/
structure BlockText where
  text : List Char
  /-- The break at the end of the last line. -/
  lastBreak : List Char
  /-- The breaks of the empty lines after it. -/
  emptyLines : List Char
  /-- Whether the last line began with a blank. -/
  isIndented : Bool

/-- Adds a line, given what has to be known about it: whether it begins with a blank. -/
def BlockText.join (b : BlockText) (isLiteral isIndented : Bool) : List Char :=
  if !isLiteral && b.lastBreak == ['\n'] && !b.isIndented && !isIndented then
    if b.emptyLines.isEmpty then b.text ++ [' '] else b.text ++ b.emptyLines
  else b.text ++ b.lastBreak ++ b.emptyLines

/-- Reads the lines of a block scalar whose first column is `indent`. -/
def takeBlockLines (isLiteral : Bool) (indent : Nat) (b : BlockText) (c : Cursor) :
    Option (BlockText × Cursor) :=
  match c.rest with
  | [] => some (b, c)
  | x :: _ =>
    if c.column = indent then do
      let line := c.rest.takeWhile (!isBreak ·)
      let (lastBreak, c') := (c.advance line.length).takeBreak
      let (emptyLines, _, c'') ← takeEmptyLines indent 0 [] c'
      let text := b.join isLiteral (isGap x) ++ line
      if c''.rest.length < c.rest.length then
        takeBlockLines isLiteral indent ⟨text, lastBreak, emptyLines, isGap x⟩ c''
      else none
    else some (b, c)
termination_by c.rest.length

/-- Reads a block scalar after the indicator that begins it. Its lines stand at the column `margin` or
further right. -/
def takeBlock (isLiteral : Bool) (margin : Nat) (c : Cursor) : Option (List Char × Cursor) := do
  let (chomping, indentation, n) ← blockHeader c.rest
  let c := ((c.advance n).skipWhile isGap).skipComment
  if !atBreak c.rest then none
  else
    let given := (indentation.map fun n ↦ margin - 1 + n).getD 0
    let (emptyLines, widest, c) ← takeEmptyLines given 0 [] c.skipBreak
    let indent := if given = 0 then max (max widest margin) 1 else given
    let (b, c) ← takeBlockLines isLiteral indent ⟨[], [], emptyLines, false⟩ c
    return (b.text ++ (if chomping = .strip then [] else b.lastBreak) ++
      (if chomping = .keep then b.emptyLines else []), c)

end Dataflow.Yaml
