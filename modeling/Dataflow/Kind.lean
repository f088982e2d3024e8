/-!
# Kinds of operators
-/

namespace Dataflow

/-- The kind of an operator, without its data. -/
inductive Kind where
  | load | stream | filter | forEach | join | store
deriving DecidableEq, Repr

namespace Kind

/-- Every kind, in the order of declaration. -/
def all : List Kind :=
  [.load, .stream, .filter, .forEach, .join, .store]

/-- The kinds that read data from outside the plan. -/
def isIngest (k : Kind) : Bool :=
  k = .load || k = .stream

/-- The name of a kind in messages and listings. -/
def name : Kind → String
  | load => "Load"
  | stream => "Stream"
  | filter => "Filter"
  | forEach => "ForEach"
  | join => "Join"
  | store => "Store"

instance : ToString Kind :=
  ⟨name⟩

theorem toString_eq (k : Kind) : toString k = k.name := rfl

/-- The name of a kind in documents. -/
def keyword : Kind → String
  | load => "load"
  | stream => "stream"
  | filter => "filter"
  | forEach => "foreach"
  | join => "join"
  | store => "store"

/-- The kind with a given name in documents. -/
def ofKeyword? (text : String) : Option Kind :=
  all.find? (fun k ↦ k.keyword = text)

@[simp] theorem ofKeyword?_keyword (k : Kind) : ofKeyword? k.keyword = some k := by
  cases k <;> decide

end Kind

end Dataflow
