import Dataflow.Error
import Dataflow.Text.Blank

/-!
# Function specs

A function spec names a loader, a storer or the reader of a stream's output, together with the
arguments it is built with: `Name`, `Name()`, `Name('a')`, `Name('a', "b")`. Within an argument a
backslash escapes the enclosing quote or another backslash and stands for itself otherwise.

`FunctionSpec.parse` reads that form and `FunctionSpec.render` writes it.
-/

namespace Dataflow

/-- A name with its arguments. -/
structure FunctionSpec where
  name : String
  args : List String
deriving DecidableEq, Repr, Inhabited

namespace FunctionSpec

/-! ## Quoted arguments -/

/-- Reads an argument up to the quote `q` that closes it; the second part is the text after that
quote. Without such a quote there is no argument. -/
def unquote (q : Char) : List Char → Option (List Char × List Char)
  | [] => none
  | [c] => if c = q then some ([], []) else none
  | c :: d :: r =>
    if c = q then some ([], d :: r)
    else if c = '\\' ∧ (d = q ∨ d = '\\') then
      (unquote q r).map fun (arg, rest) ↦ (d :: arg, rest)
    else (unquote q (d :: r)).map fun (arg, rest) ↦ (c :: arg, rest)

theorem length_unquote_lt {q : Char} {s arg rest : List Char}
    (h : unquote q s = some (arg, rest)) : rest.length < s.length := by
  fun_induction unquote q s generalizing arg rest with
  | case1 => simp at h
  | case2 =>
    simp only [Option.some.injEq, Prod.mk.injEq] at h
    simp [← h.2]
  | case3 => simp at h
  | case4 d r =>
    simp only [Option.some.injEq, Prod.mk.injEq] at h
    simp [← h.2]
  | case5 c d r _ _ ih =>
    simp only [Option.map_eq_some_iff, Prod.mk.injEq, Prod.exists] at h
    obtain ⟨a, b, hab, _, rfl⟩ := h
    have := ih hab
    simp only [List.length_cons]
    omega
  | case6 c d r _ _ ih =>
    simp only [Option.map_eq_some_iff, Prod.mk.injEq, Prod.exists] at h
    obtain ⟨a, b, hab, _, rfl⟩ := h
    have := ih hab
    simp only [List.length_cons] at *
    omega

/-- Writes the inside of an argument between quotes `q`: a quote is escaped, and so is a backslash
that would otherwise be read together with what follows it. -/
def escape (q : Char) : List Char → List Char
  | [] => []
  | [c] => if c = q ∨ c = '\\' then ['\\', c] else [c]
  | c :: d :: r =>
    if c = q ∨ (c = '\\' ∧ (d = q ∨ d = '\\')) then '\\' :: c :: escape q (d :: r)
    else c :: escape q (d :: r)

/-- The quote for an argument: single, unless the argument holds single quotes and no double
ones. -/
def quoteFor (arg : List Char) : Char :=
  if arg.contains '\'' && !arg.contains '"' then '"' else '\''

/-- An argument between quotes. -/
def quoted (arg : List Char) : List Char :=
  let q := quoteFor arg
  q :: (escape q arg ++ [q])

/-! ## Reading -/

/-- Reads the arguments between the parentheses: quoted, separated by commas, with blanks around
each and at most one comma after the last. -/
def readArgs (s : List Char) : Except SpecFault (List String) :=
  match hs : Text.skipBlanks s with
  | [] => .ok []
  | q :: body =>
    if q = '\'' ∨ q = '"' then
      match hq : unquote q body with
      | none => .error .unterminatedArgument
      | some (arg, rest) =>
        match hr : Text.skipBlanks rest with
        | [] => .ok [String.ofList arg]
        | ',' :: more => do
          have : more.length < s.length := by
            have h₁ := Text.length_skipBlanks_le s
            have h₂ := Text.length_skipBlanks_le rest
            have h₃ := length_unquote_lt hq
            rw [hs] at h₁
            rw [hr] at h₂
            simp only [List.length_cons] at h₁ h₂
            omega
          let args ← readArgs more
          return String.ofList arg :: args
        | c :: _ => .error (.unexpected c)
    else .error .unquotedArgument
termination_by s.length

/-- Whether a text can name a function: it is not empty and has no blanks and no closing
parenthesis. -/
def isName (s : List Char) : Bool :=
  !s.isEmpty && s.all fun c ↦ !(Text.isBlank c || c == ')')

/-- Splits a trimmed text into the name and the arguments. -/
def readParts (s : List Char) : Except SpecFault (List Char × List String) :=
  match s.dropWhile (· ≠ '(') with
  | [] => .ok (s, [])
  | _ :: inner =>
    match inner.getLast? with
    | some ')' => do
      let args ← readArgs inner.dropLast
      return (Text.trim (s.takeWhile (· ≠ '(')), args)
    | _ => .error .unterminated

/-- Reads a function spec. Faults of the arguments come before a fault of the name. -/
def read (s : List Char) : Except SpecFault FunctionSpec := do
  let (name, args) ← readParts s
  if isName name then return ⟨String.ofList name, args⟩ else .error .invalidName

/-- Reads a function spec with blanks around it. -/
def parse (text : String) : Except Error FunctionSpec :=
  let s := Text.trim text.toList
  (read s).mapError fun fault ↦ .functionSpec fault (String.ofList s)

/-- A text that is no function spec is a fault of the configuration. -/
theorem category_of_parse_eq_error {text : String} {e : Error} (h : parse text = .error e) :
    e.category = .config := by
  rw [parse] at h
  cases hr : read (Text.trim text.toList) with
  | ok f =>
    rw [hr] at h
    cases h
  | error fault =>
    rw [hr] at h
    cases h
    rfl

/-! ## Writing -/

/-- The arguments, with a comma and a space between them. -/
def writeArgs : List String → List Char
  | [] => []
  | [arg] => quoted arg.toList
  | arg :: args => quoted arg.toList ++ ',' :: ' ' :: writeArgs args

/-- The written form: the bare name when there are no arguments. -/
def write (f : FunctionSpec) : List Char :=
  if f.args.isEmpty then f.name.toList else f.name.toList ++ '(' :: (writeArgs f.args ++ [')'])

/-- The written form as a string. -/
def render (f : FunctionSpec) : String :=
  String.ofList f.write

instance : ToString FunctionSpec :=
  ⟨render⟩

end FunctionSpec

end Dataflow
