import Dataflow.Error

/-!
# Fields and schemas

A field has an optional name, a type and, when it is a tuple or a bag, possibly the fields of its
members. A schema is an ordered list of fields.

Two comparisons matter: equality, which sees names, and `sameShape`, which does not. An absent
list of members differs from an empty one in both.
-/

namespace Dataflow

/-- Reads a type, in any of its spellings. -/
def DataType.parse (text : String) : Except Error DataType :=
  match ofSpelling? (normalize text) with
  | some t => .ok t
  | none => .error (.unknownType (normalize text))

/-- A column, or a member of a tuple or bag. -/
structure Field where
  name : Option String
  type : DataType
  members : Option (List Field)
deriving Repr

namespace Field

/-- A named field without members. -/
def named (name : String) (type : DataType) : Field :=
  ⟨some name, type, none⟩

/-- A field without a name and without members. -/
def anonymous (type : DataType) : Field :=
  ⟨none, type, none⟩

/-- A named tuple or bag with the given members. -/
def nested (name : String) (type : DataType) (members : List Field) : Except Error Field :=
  if type.isComplex then .ok ⟨some name, type, some members⟩ else .error (.notNestable type)

/-! ## Equality -/

mutual

private def decEqField : (f g : Field) → Decidable (f = g)
  | ⟨a, t, none⟩, ⟨a', t', none⟩ =>
    if h : a = a' ∧ t = t' then isTrue (by simp [h]) else isFalse (by simpa using h)
  | ⟨a, t, some ms⟩, ⟨a', t', some ms'⟩ =>
    match decEqFields ms ms' with
    | isTrue hm =>
      if h : a = a' ∧ t = t' then isTrue (by simp [h, hm])
      else isFalse (by simpa [hm] using h)
    | isFalse hm => isFalse (by simp [hm])
  | ⟨_, _, none⟩, ⟨_, _, some _⟩ => isFalse (by simp)
  | ⟨_, _, some _⟩, ⟨_, _, none⟩ => isFalse (by simp)

private def decEqFields : (fs gs : List Field) → Decidable (fs = gs)
  | [], [] => isTrue rfl
  | f :: fs, g :: gs =>
    match decEqField f g, decEqFields fs gs with
    | isTrue hf, isTrue hfs => isTrue (by rw [hf, hfs])
    | isFalse hf, _ => isFalse (by simp [hf])
    | _, isFalse hfs => isFalse (by simp [hfs])
  | [], _ :: _ => isFalse (by simp)
  | _ :: _, [] => isFalse (by simp)

end

instance : DecidableEq Field :=
  decEqField

/-! ## Shape -/

mutual

/-- Equality of types and, at every depth, of the types of the members. Aliases are ignored. -/
def sameShape : Field → Field → Bool
  | ⟨_, t, none⟩, ⟨_, t', none⟩ => t = t'
  | ⟨_, t, some ms⟩, ⟨_, t', some ms'⟩ => t = t' && sameShapes ms ms'
  | _, _ => false

/-- Fields of the same shape, one by one. -/
def sameShapes : List Field → List Field → Bool
  | [], [] => true
  | f :: fs, g :: gs => sameShape f g && sameShapes fs gs
  | _, _ => false

end

/-! ## Text -/

/-- A list in parentheses. -/
def parenthesized (parts : List String) : String :=
  "(" ++ String.intercalate ", " parts ++ ")"

/-- The name with a colon, when there is one. -/
def label : Option String → String
  | none => ""
  | some name => name ++ ":"

mutual

/-- The written form of a field: `name:type`, followed by its members in parentheses. -/
def render : Field → String
  | ⟨name, type, none⟩ => label name ++ type.name
  | ⟨name, type, some members⟩ =>
    label name ++ type.name ++ parenthesized (renderEach members)

/-- The written forms of fields. -/
def renderEach : List Field → List String
  | [] => []
  | f :: fs => render f :: renderEach fs

end

instance : ToString Field :=
  ⟨render⟩

end Field

/-- An ordered list of fields. -/
structure Schema where
  fields : List Field
deriving DecidableEq, Repr, Inhabited

namespace Schema

/-- The number of fields. -/
def size (s : Schema) : Nat :=
  s.fields.length

/-- Whether there are no fields. -/
def isEmpty (s : Schema) : Bool :=
  s.fields.isEmpty

/-- The field at a position. -/
def field? (s : Schema) (i : Nat) : Option Field :=
  s.fields[i]?

/-- The position of the first field with a name. -/
def indexOf? (s : Schema) (name : String) : Option Nat :=
  s.fields.findIdx? (fun f ↦ f.name = some name)

/-- Fields of the same shape in the same order. -/
def sameShape (s s' : Schema) : Bool :=
  Field.sameShapes s.fields s'.fields

/-- The written form: the fields in parentheses. -/
def render (s : Schema) : String :=
  Field.parenthesized (s.fields.map Field.render)

instance : ToString Schema :=
  ⟨render⟩

end Schema

end Dataflow
