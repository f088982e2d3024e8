/-!
# JSON trees

A JSON document as a tree whose literals are kept as they were written: a number is its numeral
and a string is its body, the text between the quotes with the escapes in place. So reading a text
and writing the tree again changes nothing but the space between the tokens.
-/

namespace Dataflow

/-- A JSON document with its literals as written. -/
inductive Json where
  | null
  | bool (b : Bool)
  /-- A number, given by its numeral. -/
  | num (numeral : List Char)
  /-- A string, given by the text between its quotes. -/
  | str (body : List Char)
  | arr (items : List Json)
  /-- An object; keys are given by the text between their quotes. -/
  | obj (members : List (List Char × Json))
deriving Repr, Inhabited

namespace Json

mutual

/-- The number of nested arrays and objects. -/
def depth : Json → Nat
  | arr items => depthItems items + 1
  | obj members => depthMembers members + 1
  | _ => 0

/-- The greatest depth of the items. -/
def depthItems : List Json → Nat
  | [] => 0
  | j :: js => max (depth j) (depthItems js)

/-- The greatest depth of the members. -/
def depthMembers : List (List Char × Json) → Nat
  | [] => 0
  | (_, j) :: ms => max (depth j) (depthMembers ms)

end

end Json

end Dataflow
