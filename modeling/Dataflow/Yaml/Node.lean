import Dataflow.Yaml.Token

/-!
# YAML nodes

A document is a tree of scalars, sequences and mappings. A node may carry an anchor, and an alias
stands for the node that carries its anchor. Anchors are names (`ν`) as a document writes them, and
numbers once it is known which alias means which node.
-/

namespace Dataflow.Yaml

/-- What may stand in front of a node. -/
structure Properties (ν : Type) where
  anchor : Option ν
  tag : Option (List Char)

/-- A node of a document, whose anchors are values of `ν`. -/
inductive Node (ν : Type) where
  | scalar (properties : Properties ν) (style : Style) (text : List Char)
  | seq (properties : Properties ν) (items : List (Node ν))
  | map (properties : Properties ν) (entries : List (Node ν × Node ν))
  | aliasOf (target : ν)

namespace Node

variable {ν : Type}

/-- A node that is not written at all. -/
def empty : Node ν :=
  scalar ⟨none, none⟩ .plain []

instance : Inhabited (Node ν) :=
  ⟨empty⟩

mutual

/-- The size of a node: scalars and aliases count once, and collections at either end. -/
def size : Node ν → Nat
  | scalar .. | aliasOf _ => 1
  | seq _ items => sizeItems items + 2
  | map _ entries => sizeEntries entries + 2

/-- The size of the items of a sequence. -/
def sizeItems : List (Node ν) → Nat
  | [] => 0
  | v :: vs => size v + sizeItems vs

/-- The size of the entries of a mapping. -/
def sizeEntries : List (Node ν × Node ν) → Nat
  | [] => 0
  | (k, v) :: es => size k + size v + sizeEntries es

end

end Node

end Dataflow.Yaml
