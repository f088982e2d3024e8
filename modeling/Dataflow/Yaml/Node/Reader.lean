import Dataflow.Yaml.Node

/-!
# The nodes of a YAML text

The grammar of YAML over tokens, by recursive descent. Every function gives a part of the document
with the tokens after it; `shorter` states at each recursive call that these have become fewer.

In block mappings a sequence may stand at the column of its key, and then has no tokens for its
beginning and its end. In flow sequences a key stands for a mapping with that one entry.
-/

namespace Dataflow.Yaml

/-- What the handles of tags mean. -/
abbrev TagHandles :=
  List (List Char × List Char)

/-- The meaning of the handles that no directive has to define. -/
def defaultHandles : TagHandles :=
  [(['!'], ['!']), (['!', '!'], "tag:yaml.org,2002:".toList)]

/-- The tag that a handle and a suffix denote; without a handle it is the suffix. -/
def resolveTag (handles : TagHandles) (handle suffix : List Char) : Option (List Char) :=
  if handle.isEmpty then some suffix else (handles.lookup handle).map (· ++ suffix)

/-- A list of tokens, with the promise that it is shorter than `n`. -/
def shorter (n : Nat) (ts : List Token) : Option {ts : List Token // ts.length < n} :=
  if h : ts.length < n then some ⟨ts, h⟩ else none

/-- The anchor and the tag in front of a node, in either order. -/
def takeProperties (handles : TagHandles) :
    List Token → Option (Properties (List Char) × List Token)
  | .anchor a :: .tag h s :: ts | .tag h s :: .anchor a :: ts => do
    return (⟨some a, ← resolveTag handles h s⟩, ts)
  | .anchor a :: ts => some (⟨some a, none⟩, ts)
  | .tag h s :: ts => do return (⟨none, ← resolveTag handles h s⟩, ts)
  | ts => some (⟨none, none⟩, ts)

/-- Whether nothing stands where an item of a block sequence could be. -/
def noBlockItem (isIndentless : Bool) : List Token → Bool
  | .blockEntry :: _ | .blockEnd :: _ => true
  | .key :: _ | .value :: _ => isIndentless
  | _ => false

/-- Whether nothing stands where a key or a value of a block mapping could be. -/
def noBlockPart : List Token → Bool
  | .key :: _ | .value :: _ | .blockEnd :: _ => true
  | _ => false

/-- Whether nothing stands where a key of a flow mapping could be. -/
def noFlowKey : List Token → Bool
  | .value :: _ | .flowEntry :: _ | .flowMapEnd :: _ => true
  | _ => false

/-- Whether nothing stands where a value of a flow mapping could be. -/
def noFlowValue : List Token → Bool
  | .flowEntry :: _ | .flowMapEnd :: _ => true
  | _ => false

/-- Whether nothing stands where the key of a single entry in a flow sequence could be. -/
def noSingleKey : List Token → Bool
  | .value :: _ | .flowEntry :: _ | .flowSeqEnd :: _ => true
  | _ => false

/-- Whether nothing stands where the value of a single entry in a flow sequence could be. -/
def noSingleValue : List Token → Bool
  | .flowEntry :: _ | .flowSeqEnd :: _ => true
  | _ => false

/-- Whether anything stands in front of a node. -/
def Properties.isEmpty {ν : Type} (p : Properties ν) : Bool :=
  p.anchor.isNone && p.tag.isNone

/-- The node where only properties are written, if there are any. -/
def emptyNode (p : Properties (List Char)) (ts : List Token) :
    Option (Node (List Char) × List Token) :=
  if p.isEmpty then none else some (.scalar p .plain [], ts)

/-- What is in front of an item of a flow collection: nothing before the first and before the end, and
a comma before the others. -/
def takeSeparator (isFirst : Bool) (ts : List Token) : Option (List Token) :=
  if isFirst then some ts else match ts with
    | .flowEntry :: rest => some rest
    | .flowSeqEnd :: _ | .flowMapEnd :: _ => some ts
    | _ => none

section

variable (handles : TagHandles)

mutual

/-- Reads a node. Block collections are allowed only where `isBlock`, and sequences without a
beginning and an end only where `isIndentless`. -/
def takeNode (isBlock isIndentless : Bool) (ts : List Token) :
    Option (Node (List Char) × List Token) := do
  let (p, rest) ← takeProperties handles ts
  let ⟨rest, _⟩ ← shorter (ts.length + 1) rest
  takeContent isBlock isIndentless p rest
termination_by 8 * ts.length + 2

/-- Reads a node after its properties. -/
def takeContent (isBlock isIndentless : Bool) (p : Properties (List Char)) (ts : List Token) :
    Option (Node (List Char) × List Token) :=
  match ts with
  | .aliasOf name :: rest => if p.isEmpty then some (.aliasOf name, rest) else emptyNode p ts
  | .scalar style text :: rest => some (.scalar p style text, rest)
  | .flowSeqStart :: rest => do
    let (items, rest') ← takeFlowItems true rest
    return (.seq p items, rest')
  | .flowMapStart :: rest => do
    let (entries, rest') ← takeFlowEntries true rest
    return (.map p entries, rest')
  | .blockEntry :: rest =>
    if isIndentless then do
      let (items, rest') ← takeIndentlessItems (.blockEntry :: rest)
      return (.seq p items, rest')
    else emptyNode p ts
  | .blockSeqStart :: rest =>
    if isBlock then do
      let (items, rest') ← takeBlockItems rest
      return (.seq p items, rest')
    else emptyNode p ts
  | .blockMapStart :: rest =>
    if isBlock then do
      let (entries, rest') ← takeBlockEntries rest
      return (.map p entries, rest')
    else emptyNode p ts
  | _ => emptyNode p ts
termination_by 8 * ts.length + 1

/-- Reads the items of a block sequence and its end. -/
def takeBlockItems (ts : List Token) : Option (List (Node (List Char)) × List Token) :=
  match ts with
  | .blockEntry :: rest => do
    let (item, rest') ←
      if noBlockItem false rest then some (.empty, rest) else takeNode true false rest
    let ⟨rest', _⟩ ← shorter (rest.length + 1) rest'
    let (items, rest'') ← takeBlockItems rest'
    return (item :: items, rest'')
  | .blockEnd :: rest => some ([], rest)
  | _ => none
termination_by 8 * ts.length + 0

/-- Reads the items of a sequence at the column of its key. -/
def takeIndentlessItems (ts : List Token) : Option (List (Node (List Char)) × List Token) :=
  match ts with
  | .blockEntry :: rest => do
    let (item, rest') ←
      if noBlockItem true rest then some (.empty, rest) else takeNode true false rest
    let ⟨rest', _⟩ ← shorter (rest.length + 1) rest'
    let (items, rest'') ← takeIndentlessItems rest'
    return (item :: items, rest'')
  | _ => some ([], ts)
termination_by 8 * ts.length + 0

/-- Reads the entries of a block mapping and its end. -/
def takeBlockEntries (ts : List Token) :
    Option (List (Node (List Char) × Node (List Char)) × List Token) :=
  match ts with
  | .key :: rest => do
    let (entry, rest') ← takeBlockEntry rest
    let ⟨rest', _⟩ ← shorter (rest.length + 1) rest'
    let (entries, rest'') ← takeBlockEntries rest'
    return (entry :: entries, rest'')
  | .blockEnd :: rest => some ([], rest)
  | _ => none
termination_by 8 * ts.length + 0

/-- Reads an entry of a block mapping, after the token for its key. -/
def takeBlockEntry (ts : List Token) :
    Option ((Node (List Char) × Node (List Char)) × List Token) := do
  let (k, rest) ← if noBlockPart ts then some (.empty, ts) else takeNode true true ts
  let ⟨rest, _⟩ ← shorter (ts.length + 1) rest
  let (v, rest) ← takeBlockValue rest
  return ((k, v), rest)
termination_by 8 * ts.length + 3

/-- Reads the value after a key of a block mapping. -/
def takeBlockValue (ts : List Token) : Option (Node (List Char) × List Token) :=
  match ts with
  | .value :: rest => if noBlockPart rest then some (.empty, rest) else takeNode true true rest
  | _ => some (.empty, ts)
termination_by 8 * ts.length + 0

/-- Reads the items of a flow sequence and its end. -/
def takeFlowItems (isFirst : Bool) (ts : List Token) :
    Option (List (Node (List Char)) × List Token) := do
  let ⟨start, _⟩ ← shorter (ts.length + 1) (← takeSeparator isFirst ts)
  match start with
  | .flowSeqEnd :: rest => return ([], rest)
  | _ =>
    let (item, rest) ← takeFlowItem start
    let ⟨rest, _⟩ ← shorter ts.length rest
    let (items, rest) ← takeFlowItems false rest
    return (item :: items, rest)
termination_by 8 * ts.length + 4

/-- Reads an item of a flow sequence: a node, or a single entry of a mapping. Where the entry has no
key, the token in its place is passed over. -/
def takeFlowItem (ts : List Token) : Option (Node (List Char) × List Token) :=
  match ts with
  | .key :: rest => do
    let (k, r) ← if noSingleKey rest then some (.empty, rest.tail) else takeNode false false rest
    let ⟨r, _⟩ ← shorter (rest.length + 1) r
    let (v, r) ← takeSingleValue r
    return (.map ⟨none, none⟩ [(k, v)], r)
  | r => takeNode false false r
termination_by 8 * ts.length + 3

/-- Reads the value of a single entry in a flow sequence. -/
def takeSingleValue (ts : List Token) : Option (Node (List Char) × List Token) :=
  match ts with
  | .value :: rest =>
    if noSingleValue rest then some (.empty, rest) else takeNode false false rest
  | _ => some (.empty, ts)
termination_by 8 * ts.length + 0

/-- Reads the entries of a flow mapping and its end. -/
def takeFlowEntries (isFirst : Bool) (ts : List Token) :
    Option (List (Node (List Char) × Node (List Char)) × List Token) := do
  let ⟨start, _⟩ ← shorter (ts.length + 1) (← takeSeparator isFirst ts)
  match start with
  | .flowMapEnd :: rest => return ([], rest)
  | _ =>
    let (entry, rest) ← takeFlowEntry start
    let ⟨rest, _⟩ ← shorter ts.length rest
    let (entries, rest) ← takeFlowEntries false rest
    return (entry :: entries, rest)
termination_by 8 * ts.length + 4

/-- Reads an entry of a flow mapping: a key with its value, or a node that has no value. -/
def takeFlowEntry (ts : List Token) :
    Option ((Node (List Char) × Node (List Char)) × List Token) :=
  match ts with
  | .key :: rest => do
    let (k, r) ← if noFlowKey rest then some (.empty, rest) else takeNode false false rest
    let ⟨r, _⟩ ← shorter (rest.length + 1) r
    let (v, r) ← takeFlowValue r
    return ((k, v), r)
  | r => do
    let (k, r) ← takeNode false false r
    return ((k, .empty), r)
termination_by 8 * ts.length + 3

/-- Reads the value after a key of a flow mapping. -/
def takeFlowValue (ts : List Token) : Option (Node (List Char) × List Token) :=
  match ts with
  | .value :: rest =>
    if noFlowValue rest then some (.empty, rest) else takeNode false false rest
  | _ => some (.empty, ts)
termination_by 8 * ts.length + 0

end

end

/-! ## Documents -/

/-- The handles that the directives of a document define, added to those there are. There may be one
version directive, for version 1.1 or 1.2, and one directive for each handle. -/
def takeDirectives (hasVersion : Bool) (handles : TagHandles) :
    List Token → Option (TagHandles × List Token)
  | .version major minor :: ts =>
    if hasVersion || major != 1 || (minor != 1 && minor != 2) then none
    else takeDirectives true handles ts
  | .tagDirective handle meaning :: ts =>
    if (handles.lookup handle).isSome then none
    else takeDirectives hasVersion (handles ++ [(handle, meaning)]) ts
  | ts => some (handles, ts)

/-- Whether nothing stands where the node of a document could be. -/
def noDocumentNode : List Token → Bool
  | [] | .version .. :: _ | .tagDirective .. :: _ | .documentStart :: _ | .documentEnd :: _ => true
  | _ => false

/-- Reads the node of the first document. -/
def takeDocument : List Token → Option (Node (List Char) × List Token)
  | [] => none
  | ts@(.version .. :: _) | ts@(.tagDirective .. :: _) | ts@(.documentStart :: _) => do
    let (handles, rest) ← takeDirectives false [] ts
    match rest with
    | .documentStart :: rest =>
      if noDocumentNode rest then return (Node.empty, rest)
      else takeNode (handles ++ defaultHandles) true false rest
    | _ => none
  | ts => takeNode defaultHandles true false ts

/-- Reads a text that consists of one document. -/
def Node.ofTokens (ts : List Token) : Option (Node (List Char)) := do
  let (node, rest) ← takeDocument ts
  if rest.all (· = .documentEnd) then return node else none

end Dataflow.Yaml
