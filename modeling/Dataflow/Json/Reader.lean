import Dataflow.Json.Basic
import Dataflow.Json.Token

/-!
# Reading JSON

The grammar of JSON over tokens, as a machine that takes one token at a time. Its state holds the
arrays and objects that have been opened and not closed, the innermost first.
-/

namespace Dataflow.Json

/-- An array or object that is still open. Items and members are held last first. -/
inductive Frame where
  | arr (items : List Json)
  /-- An object in which the value of `key` comes next. -/
  | obj (members : List (List Char × Json)) (key : List Char)

/-- What may come next. -/
inductive Reader where
  /-- A value. -/
  | value (stack : List Frame)
  /-- The first item of an array, or its end. -/
  | firstItem (stack : List Frame)
  /-- The first key of an object, or its end. -/
  | firstKey (stack : List Frame)
  /-- A further key of an object. -/
  | key (members : List (List Char × Json)) (stack : List Frame)
  /-- The colon after a key. -/
  | colon (members : List (List Char × Json)) (key : List Char) (stack : List Frame)
  /-- What may follow the value `j`. -/
  | done (j : Json) (stack : List Frame)

/-- The document of a word. -/
def Word.toJson : Word → Json
  | null => .null
  | false => .bool .false
  | true => .bool .true

namespace Reader

/-- Takes a token where a value must begin. -/
def beginValue (stack : List Frame) : Token → Option Reader
  | .word w => some (done w.toJson stack)
  | .num n => some (done (.num n) stack)
  | .str b => some (done (.str b) stack)
  | .openArr => some (firstItem stack)
  | .openObj => some (firstKey stack)
  | _ => none

/-- Takes a token after a value. -/
def afterValue (j : Json) : List Frame → Token → Option Reader
  | .arr items :: stack, .comma => some (value (.arr (j :: items) :: stack))
  | .arr items :: stack, .closeArr => some (done (.arr (j :: items).reverse) stack)
  | .obj members k :: stack, .comma => some (key ((k, j) :: members) stack)
  | .obj members k :: stack, .closeObj => some (done (.obj ((k, j) :: members).reverse) stack)
  | _, _ => none

/-- Takes one token. -/
def step : Reader → Token → Option Reader
  | value stack, t => beginValue stack t
  | firstItem stack, .closeArr => some (done (.arr []) stack)
  | firstItem stack, t => beginValue (.arr [] :: stack) t
  | firstKey stack, .closeObj => some (done (.obj []) stack)
  | firstKey stack, .str b => some (colon [] b stack)
  | firstKey _, _ => none
  | key members stack, .str b => some (colon members b stack)
  | key _ _, _ => none
  | colon members k stack, .colon => some (value (.obj members k :: stack))
  | colon _ _ _, _ => none
  | done j stack, t => afterValue j stack t

/-- The document that has been read when nothing is open. -/
def result : Reader → Option Json
  | done j [] => some j
  | _ => none

end Reader

/-- Reads a document from its tokens. -/
def ofTokens (ts : List Token) : Option Json := do
  (← ts.foldlM Reader.step (.value [])).result

/-- Reads a document. -/
def read (s : List Char) : Option Json := do
  ofTokens (← tokens s)

/-- Reads a document from a string. -/
def parse (text : String) : Option Json :=
  read text.toList

end Dataflow.Json
