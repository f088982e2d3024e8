/-!
# YAML tokens

The lexical units of YAML. Where a block collection begins and ends is told by its indentation, so
tokens for that, and for the keys of mappings, are made by the lexer and have no text of their own.
-/

namespace Dataflow.Yaml

/-- How a scalar is written. -/
inductive Style where
  | plain | singleQuoted | doubleQuoted | literal | folded
deriving DecidableEq, Repr

/-- A lexical unit of a YAML text. -/
inductive Token where
  /-- The version directive, with its numbers. -/
  | version (major minor : Nat)
  /-- A directive that gives a tag handle its meaning. -/
  | tagDirective (handle meaning : List Char)
  | documentStart | documentEnd
  | blockSeqStart | blockMapStart | blockEnd
  | flowSeqStart | flowSeqEnd | flowMapStart | flowMapEnd
  | blockEntry | flowEntry
  | key | value
  | aliasOf (name : List Char)
  | anchor (name : List Char)
  | tag (handle suffix : List Char)
  | scalar (style : Style) (text : List Char)
deriving DecidableEq, Repr

end Dataflow.Yaml
