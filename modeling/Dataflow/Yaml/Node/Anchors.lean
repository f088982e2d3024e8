import Dataflow.Yaml.Node

/-!
# Anchors and aliases

An anchor gets as its number how many different names have been given before it, so a name that is
given again gets a new number, which the next new name will share. An alias gets the number that its
name has at that place; it stands for the last node of the document with this number.
-/

namespace Dataflow.Yaml

/-- The names that have been given, with their numbers. -/
abbrev AnchorNames :=
  List (List Char × Nat)

/-- Gives a name its number. -/
def AnchorNames.add (names : AnchorNames) (name : List Char) : AnchorNames :=
  (name, names.length) :: names.filter (fun e ↦ e.1 ≠ name)

/-- Gives the name of an anchor its number. -/
def Properties.number (p : Properties (List Char)) : StateT AnchorNames Option (Properties Nat) := do
  match p.anchor with
  | none => return ⟨none, p.tag⟩
  | some name =>
    let names ← get
    set (names.add name)
    return ⟨some names.length, p.tag⟩

namespace Node

mutual

/-- Replaces names by numbers, in the order of the text. An alias has to name an anchor before it. -/
def number : Node (List Char) → StateT AnchorNames Option (Node Nat)
  | scalar p style text => do return scalar (← p.number) style text
  | seq p items => do
    let p ← p.number
    return seq p (← numberItems items)
  | map p entries => do
    let p ← p.number
    return map p (← numberEntries entries)
  | aliasOf name => do
    let target ← (← get).lookup name
    return aliasOf target

/-- Replaces names by numbers in the items of a sequence. -/
def numberItems : List (Node (List Char)) → StateT AnchorNames Option (List (Node Nat))
  | [] => return []
  | v :: vs => do
    let v ← number v
    return v :: (← numberItems vs)

/-- Replaces names by numbers in the entries of a mapping. -/
def numberEntries :
    List (Node (List Char) × Node (List Char)) →
      StateT AnchorNames Option (List (Node Nat × Node Nat))
  | [] => return []
  | (k, v) :: es => do
    let k ← number k
    let v ← number v
    return (k, v) :: (← numberEntries es)

end

/-- The anchor of a node, with the node. -/
def ownAnchor (v : Node Nat) (p : Properties Nat) : List (Nat × Node Nat) :=
  match p.anchor with
  | none => []
  | some n => [(n, v)]

mutual

/-- The nodes that carry anchors, in the order of the text. -/
def anchored : Node Nat → List (Nat × Node Nat)
  | scalar p style text => ownAnchor (scalar p style text) p
  | seq p items => ownAnchor (seq p items) p ++ anchoredItems items
  | map p entries => ownAnchor (map p entries) p ++ anchoredEntries entries
  | aliasOf _ => []

/-- The nodes that carry anchors among the items of a sequence. -/
def anchoredItems : List (Node Nat) → List (Nat × Node Nat)
  | [] => []
  | v :: vs => anchored v ++ anchoredItems vs

/-- The nodes that carry anchors among the entries of a mapping. -/
def anchoredEntries : List (Node Nat × Node Nat) → List (Nat × Node Nat)
  | [] => []
  | (k, v) :: es => anchored k ++ anchored v ++ anchoredEntries es

end

end Node

/-- A document: its node, and what its aliases stand for. -/
structure Document where
  root : Node Nat
  /-- The nodes that carry anchors, last first. -/
  anchors : List (Nat × Node Nat)

/-- The document of a node whose anchors are names. -/
def Document.ofNode (v : Node (List Char)) : Option Document := do
  let (root, _) ← v.number.run []
  return ⟨root, root.anchored.reverse⟩

end Dataflow.Yaml
