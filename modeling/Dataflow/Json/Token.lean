import Dataflow.Json.Literal

/-!
# JSON tokens

The lexical layer: white space is dropped, and every other character belongs to one token.
-/

namespace Dataflow.Json

/-- A word that is a document of its own. -/
inductive Word where
  | null | false | true
deriving DecidableEq, Repr

/-- A lexical unit of a JSON text. -/
inductive Token where
  | openArr | closeArr | openObj | closeObj | comma | colon
  | word (w : Word)
  | num (numeral : List Char)
  | str (body : List Char)
deriving DecidableEq, Repr

/-- The space that may stand between tokens. -/
def isSpace (c : Char) : Bool :=
  c == ' ' || c == '\t' || c == '\n' || c == '\r'

/-- The characters of which numerals are made. -/
def isNumeralChar (c : Char) : Bool :=
  c.isDigit || c == '-' || c == '+' || c == '.' || c == 'e' || c == 'E'

/-- Splits at the quote that closes a string: the body and the text after the quote. -/
def closeString : List Char → Option (List Char × List Char)
  | [] => none
  | [c] => if c = '"' then some ([], []) else none
  | c :: d :: r =>
    if c = '"' then some ([], d :: r)
    else if c = '\\' then (closeString r).map fun (b, rest) ↦ (c :: d :: b, rest)
    else (closeString (d :: r)).map fun (b, rest) ↦ (c :: b, rest)

theorem length_closeString_lt {s b rest : List Char} (h : closeString s = some (b, rest)) :
    rest.length < s.length := by
  fun_induction closeString s generalizing b rest with
  | case1 => simp at h
  | case2 =>
    simp only [Option.some.injEq, Prod.mk.injEq] at h
    simp [← h.2]
  | case3 => simp at h
  | case4 d r =>
    simp only [Option.some.injEq, Prod.mk.injEq] at h
    simp [← h.2]
  | case5 d r _ ih =>
    simp only [Option.map_eq_some_iff, Prod.mk.injEq, Prod.exists] at h
    obtain ⟨b', rest', hb, _, rfl⟩ := h
    have := ih hb
    simp only [List.length_cons]
    omega
  | case6 c d r _ _ ih =>
    simp only [Option.map_eq_some_iff, Prod.mk.injEq, Prod.exists] at h
    obtain ⟨b', rest', hb, _, rfl⟩ := h
    have := ih hb
    simp only [List.length_cons] at *
    omega

/-- The token of a single character. -/
def punctuation? (c : Char) : Option Token :=
  if c = '[' then some .openArr
  else if c = ']' then some .closeArr
  else if c = '{' then some .openObj
  else if c = '}' then some .closeObj
  else if c = ',' then some .comma
  else if c = ':' then some .colon
  else none

/-- The word at the front of a text, and the rest. -/
def word? : List Char → Option (Word × List Char)
  | 'n' :: 'u' :: 'l' :: 'l' :: r => some (.null, r)
  | 't' :: 'r' :: 'u' :: 'e' :: r => some (.true, r)
  | 'f' :: 'a' :: 'l' :: 's' :: 'e' :: r => some (.false, r)
  | _ => none

theorem length_word?_lt {s rest : List Char} {w : Word} (h : word? s = some (w, rest)) :
    rest.length < s.length := by
  unfold word? at h
  split at h <;> simp only [Option.some.injEq, Prod.mk.injEq, reduceCtorEq] at h <;>
    (obtain ⟨_, rfl⟩ := h; simp only [List.length_cons]; omega)

/-- The token at the front of a text that does not begin with space, and the rest. -/
def token? : List Char → Option (Token × List Char)
  | [] => none
  | c :: r =>
    if c = '"' then
      (closeString r).bind fun (b, rest) ↦ if isBody b then some (.str b, rest) else none
    else if isNumeralChar c then
      let n := c :: r.takeWhile isNumeralChar
      if isNumeral n then some (.num n, r.dropWhile isNumeralChar) else none
    else match punctuation? c with
      | some t => some (t, r)
      | none => (word? (c :: r)).map fun (w, rest) ↦ (.word w, rest)

theorem length_token?_lt {s rest : List Char} {t : Token} (h : token? s = some (t, rest)) :
    rest.length < s.length := by
  cases s with
  | nil => simp [token?] at h
  | cons c r =>
    simp only [token?] at h
    split at h
    · simp only [Option.bind_eq_some_iff, Prod.exists] at h
      obtain ⟨b, rest', hb, h⟩ := h
      split at h <;> simp only [Option.some.injEq, Prod.mk.injEq, reduceCtorEq] at h
      have := length_closeString_lt hb
      simp only [List.length_cons, ← h.2]
      omega
    · split at h
      · split at h <;> simp only [Option.some.injEq, Prod.mk.injEq, reduceCtorEq] at h
        have := (List.dropWhile_sublist (p := isNumeralChar) (l := r)).length_le
        simp only [List.length_cons, ← h.2]
        omega
      · split at h
        · simp only [Option.some.injEq, Prod.mk.injEq] at h
          simp [← h.2]
        · simp only [Option.map_eq_some_iff, Prod.mk.injEq, Prod.exists] at h
          obtain ⟨w, rest', hw, _, rfl⟩ := h
          exact length_word?_lt hw

/-- The tokens of a text. -/
def tokens (s : List Char) : Option (List Token) :=
  match s with
  | [] => some []
  | c :: r =>
    if isSpace c then tokens r
    else match h : token? (c :: r) with
      | none => none
      | some (t, rest) => do
        have : rest.length ≤ r.length := Nat.le_of_lt_succ (length_token?_lt h)
        return t :: (← tokens rest)
termination_by s.length

end Dataflow.Json
