/-!
# Characters and places in a YAML text

The character classes of YAML, and a cursor: what is left of a text together with the place that has
been reached. Columns count characters, and indices count the bytes of their UTF-8 form.
-/

namespace Dataflow.Yaml

/-! ## Character classes -/

/-- A space or a tab. -/
def isGap (c : Char) : Bool :=
  c == ' ' || c == '\t'

/-- The characters that end a line. -/
def isBreak (c : Char) : Bool :=
  c == '\r' || c == '\n' || c == '\u0085' || c == '\u2028' || c == '\u2029'

/-- A space, a tab or a line break. -/
def isBlank (c : Char) : Bool :=
  isGap c || isBreak c

/-- The characters of the names of anchors, tag handles and directives. -/
def isNameChar (c : Char) : Bool :=
  c.isAlphanum || c == '_' || c == '-'

/-- The characters that a YAML text may contain. -/
def isAllowed (c : Char) : Bool :=
  c == '\t' || c == '\n' || c == '\r' || (0x20 ≤ c.toNat && c.toNat ≤ 0x7E) ||
  c.toNat == 0x85 || (0xA0 ≤ c.toNat && c.toNat ≤ 0xD7FF) ||
  (0xE000 ≤ c.toNat && c.toNat ≤ 0xFFFD) || 0x10000 ≤ c.toNat

/-- Whether a text begins with a blank or is at its end. -/
def atBlank : List Char → Bool
  | [] => true
  | c :: _ => isBlank c

/-- Whether a text begins with a line break or is at its end. -/
def atBreak : List Char → Bool
  | [] => true
  | c :: _ => isBreak c

/-- Whether a text begins with three dashes or three points that stand for themselves. -/
def atDocumentMark : List Char → Bool
  | '-' :: '-' :: '-' :: r => atBlank r
  | '.' :: '.' :: '.' :: r => atBlank r
  | _ => false

/-! ## Cursors -/

/-- The number of bytes that characters take in UTF-8. -/
def byteCount (s : List Char) : Nat :=
  s.foldl (fun n c ↦ n + c.utf8Size) 0

/-- What is left of a text, and the place it begins at. -/
structure Cursor where
  rest : List Char
  index : Nat
  line : Nat
  column : Nat

namespace Cursor

/-- The beginning of a text. -/
def start (s : List Char) : Cursor :=
  ⟨s, 0, 0, 0⟩

/-- Passes over characters of the line. -/
def advance (c : Cursor) (n : Nat) : Cursor :=
  ⟨c.rest.drop n, c.index + byteCount (c.rest.take n), c.line, c.column + n⟩

/-- Passes over the characters of a class, none of which is a line break. -/
def skipWhile (c : Cursor) (p : Char → Bool) : Cursor :=
  c.advance (c.rest.takeWhile p).length

/-- Passes over a byte order mark at the beginning of a line. It takes a column like any character. -/
def skipByteOrderMark (c : Cursor) : Cursor :=
  if c.column = 0 ∧ c.rest.head? = some '\ufeff' then c.advance 1 else c

/-- Passes over a comment, up to the end of its line. -/
def skipComment (c : Cursor) : Cursor :=
  if c.rest.head? = some '#' then c.skipWhile (!isBreak ·) else c

/-- Passes over a line break, if there is one, and gives it in its normal form: all breaks are line
feeds, save the separators of lines and paragraphs. -/
def takeBreak (c : Cursor) : List Char × Cursor :=
  match c.rest with
  | '\r' :: '\n' :: r => (['\n'], ⟨r, c.index + 2, c.line + 1, 0⟩)
  | x :: r =>
    if x = '\u2028' ∨ x = '\u2029' then ([x], ⟨r, c.index + x.utf8Size, c.line + 1, 0⟩)
    else if isBreak x then (['\n'], ⟨r, c.index + x.utf8Size, c.line + 1, 0⟩)
    else ([], c)
  | [] => ([], c)

/-- Passes over a line break, if there is one. -/
def skipBreak (c : Cursor) : Cursor :=
  c.takeBreak.2

theorem length_advance (c : Cursor) (n : Nat) :
    (c.advance n).rest.length = c.rest.length - n := by
  simp [advance]

theorem length_advance_lt {c : Cursor} {n : Nat} {x : Char} {r : List Char}
    (h : c.rest = x :: r) (hn : 0 < n) : (c.advance n).rest.length < c.rest.length := by
  rw [length_advance, h, List.length_cons]
  omega

theorem length_takeBreak_lt {c : Cursor} {x : Char} {r : List Char} (h : c.rest = x :: r)
    (hx : isBreak x) : c.takeBreak.2.rest.length < c.rest.length := by
  unfold takeBreak
  split
  · rename_i h'
    simp only [h', List.length_cons]
    omega
  · rename_i x' r' _ h'
    rw [h] at h'
    obtain ⟨rfl, rfl⟩ := List.cons.inj h'
    rw [h]
    split
    · simp
    · simp
  · rename_i h'
    rw [h] at h'
    cases h'

theorem length_skipWhile_le (c : Cursor) (p : Char → Bool) :
    (c.skipWhile p).rest.length ≤ c.rest.length := by
  rw [skipWhile, length_advance]
  omega

theorem length_skipByteOrderMark_le (c : Cursor) :
    c.skipByteOrderMark.rest.length ≤ c.rest.length := by
  unfold skipByteOrderMark
  split
  · rw [length_advance]
    exact Nat.sub_le _ _
  · exact Nat.le_refl _

theorem length_skipComment_le (c : Cursor) : c.skipComment.rest.length ≤ c.rest.length := by
  unfold skipComment
  split
  · exact length_skipWhile_le _ _
  · exact Nat.le_refl _

end Cursor

end Dataflow.Yaml
