import Dataflow.Text.Blank

/-!
# Types of fields

The types a field can have, their names, and the spellings under which they are read.
-/

namespace Dataflow

/-- The type of a field. A `bytearray` is a payload that nobody has interpreted yet. -/
inductive DataType where
  | bytearray | boolean | int | long | float | double | chararray | datetime
  | biginteger | bigdecimal | tuple | bag | map
deriving DecidableEq, Repr

namespace DataType

/-- Every type, in the order of declaration. -/
def all : List DataType :=
  [.bytearray, .boolean, .int, .long, .float, .double, .chararray, .datetime,
    .biginteger, .bigdecimal, .tuple, .bag, .map]

theorem mem_all (t : DataType) : t ∈ all := by
  cases t <;> decide

/-- A payload nobody has interpreted: it is never cast. -/
def isOpaque (t : DataType) : Bool :=
  t = .bytearray

/-- A type whose fields may describe their members. -/
def isComplex (t : DataType) : Bool :=
  t = .tuple || t = .bag

/-- The name of a type. -/
def name : DataType → String
  | bytearray => "bytearray"
  | boolean => "boolean"
  | int => "int"
  | long => "long"
  | float => "float"
  | double => "double"
  | chararray => "chararray"
  | datetime => "datetime"
  | biginteger => "biginteger"
  | bigdecimal => "bigdecimal"
  | tuple => "tuple"
  | bag => "bag"
  | map => "map"

instance : ToString DataType :=
  ⟨name⟩

/-- Other names under which a type is read. -/
def synonyms : DataType → List String
  | bytearray => ["bytes"]
  | boolean => ["bool"]
  | int => ["int32"]
  | long => ["int64"]
  | float => ["float32"]
  | double => ["float64"]
  | chararray => ["string", "utf8"]
  | _ => []

/-- The type with a given name. -/
def ofName? (text : String) : Option DataType :=
  all.find? (fun t ↦ t.name = text)

/-- The type with a given name or synonym. -/
def ofSpelling? (text : String) : Option DataType :=
  all.find? (fun t ↦ t.name = text || t.synonyms.contains text)

/-- A spelling in its plain form: without blanks at the ends, its ASCII letters in lower case. -/
def normalize (text : String) : String :=
  String.ofList ((Text.trim text.toList).map Char.toLower)

@[simp] theorem ofName?_name (t : DataType) : ofName? t.name = some t := by
  cases t <;> decide

end DataType

end Dataflow
