import Dataflow.Json.Basic
import Dataflow.Json.Literal
import Dataflow.Text.Decimal

/-!
# Writing JSON

Two layouts: `write` puts no space between tokens, and `writeIndented` puts every item and member on
a line of its own, two spaces deeper than what holds it. `sortKeys` orders the members of every
object by their keys.
-/

namespace Dataflow.Json

/-! ## Values -/

/-- A text as a JSON string. -/
def ofString (s : String) : Json :=
  .str (encode s.toList)

/-- A number as a JSON number. -/
def ofNat (n : Nat) : Json :=
  .num (Text.Decimal.digits n)

/-- A value that may be absent; nothing is written as null. -/
def ofOption {α : Type} (f : α → Json) : Option α → Json
  | none => .null
  | some a => f a

/-- A list of values. -/
def ofList {α : Type} (f : α → Json) (l : List α) : Json :=
  .arr (l.map f)

/-- An object with the given names for its members. -/
def record (members : List (String × Json)) : Json :=
  .obj (members.map fun (k, j) ↦ (encode k.toList, j))

/-! ## Compact layout -/

/-- A string body between quotes. -/
def quoted (body : List Char) : List Char :=
  '"' :: (body ++ ['"'])

mutual

/-- The text of a document without any space. -/
def write : Json → List Char
  | null => ['n', 'u', 'l', 'l']
  | bool false => ['f', 'a', 'l', 's', 'e']
  | bool true => ['t', 'r', 'u', 'e']
  | num n => n
  | str b => quoted b
  | arr [] => ['[', ']']
  | arr (j :: js) => '[' :: (write j ++ writeItems js ++ [']'])
  | obj [] => ['{', '}']
  | obj ((k, j) :: ms) => '{' :: (quoted k ++ ':' :: write j ++ writeMembers ms ++ ['}'])

/-- The items after the first, each after a comma. -/
def writeItems : List Json → List Char
  | [] => []
  | j :: js => ',' :: (write j ++ writeItems js)

/-- The members after the first, each after a comma. -/
def writeMembers : List (List Char × Json) → List Char
  | [] => []
  | (k, j) :: ms => ',' :: (quoted k ++ ':' :: write j ++ writeMembers ms)

end

/-- The text of a document without any space, as a string. -/
def render (j : Json) : String :=
  String.ofList j.write

/-! ## Indented layout -/

/-- A new line at an indentation level. -/
def newline (level : Nat) : List Char :=
  '\n' :: List.replicate (2 * level) ' '

mutual

/-- The text of a document with a line for every item and member. -/
def writeIndented (level : Nat) : Json → List Char
  | arr [] => ['[', ']']
  | arr (j :: js) =>
    '[' :: (newline (level + 1) ++ writeIndented (level + 1) j ++
      writeIndentedItems (level + 1) js ++ newline level ++ [']'])
  | obj [] => ['{', '}']
  | obj ((k, j) :: ms) =>
    '{' :: (newline (level + 1) ++ quoted k ++ ':' :: ' ' :: writeIndented (level + 1) j ++
      writeIndentedMembers (level + 1) ms ++ newline level ++ ['}'])
  | null => write null
  | bool b => write (bool b)
  | num n => write (num n)
  | str b => write (str b)

/-- The items after the first, each on its line. -/
def writeIndentedItems (level : Nat) : List Json → List Char
  | [] => []
  | j :: js => ',' :: (newline level ++ writeIndented level j ++ writeIndentedItems level js)

/-- The members after the first, each on its line. -/
def writeIndentedMembers (level : Nat) : List (List Char × Json) → List Char
  | [] => []
  | (k, j) :: ms =>
    ',' :: (newline level ++ quoted k ++ ':' :: ' ' :: writeIndented level j ++
      writeIndentedMembers level ms)

end

/-- The text of a document with indentation, as a string. -/
def renderIndented (j : Json) : String :=
  String.ofList (j.writeIndented 0)

/-! ## Order of members -/

/-- Puts a member at its place in a list that is in the order of its keys. -/
def insertMember (m : List Char × Json) : List (List Char × Json) → List (List Char × Json)
  | [] => [m]
  | m' :: ms => if m.1 < m'.1 then m :: m' :: ms else m' :: insertMember m ms

mutual

/-- Puts the members of every object in the order of their keys. -/
def sortKeys : Json → Json
  | arr items => arr (sortKeysItems items)
  | obj members => obj (sortKeysMembers members)
  | null => null
  | bool b => bool b
  | num n => num n
  | str b => str b

/-- Orders the members within each item. -/
def sortKeysItems : List Json → List Json
  | [] => []
  | j :: js => sortKeys j :: sortKeysItems js

/-- Orders the members, and those within each value. -/
def sortKeysMembers : List (List Char × Json) → List (List Char × Json)
  | [] => []
  | (k, j) :: ms => insertMember (k, sortKeys j) (sortKeysMembers ms)

end

end Dataflow.Json
