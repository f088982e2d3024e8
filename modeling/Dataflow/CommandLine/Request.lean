import Dataflow.Text.Decimal

/-!
# The arguments of the command line

A request is a verb with its options. Arguments are read from left to right and the first fault ends
the reading; asking for help ends it too. Options that take a value take it from the same argument or
from the next one, which then may not look like an option.
-/

namespace Dataflow.CommandLine

/-- What a request is about. -/
inductive Verb where
  | validate | explain | optimize
deriving DecidableEq, Repr

/-- The word for a verb. -/
def Verb.name : Verb → String
  | validate => "validate"
  | explain => "explain"
  | optimize => "optimize"

/-- The verb of a word. -/
def Verb.ofName? (s : String) : Option Verb :=
  [validate, explain, optimize].find? (fun v ↦ v.name = s)

/-- The options of a request, as far as they have been given. -/
structure Options where
  pipeline : Option String
  json : Bool
  maxIterations : Option UInt64
  disabled : List String
deriving Repr

/-- No options. -/
def Options.none : Options :=
  ⟨.none, false, .none, []⟩

/-- What the command line asks for. -/
inductive Request where
  | version
  /-- How the program, or one of its verbs, is used. -/
  | help (verb : Option Verb)
  | run (verb : Verb) (pipeline : String) (options : Options)
deriving Repr

/-! ## Options -/

/-- An option that takes a value. -/
inductive ValueOption where
  | pipeline | maxIterations | disable
deriving DecidableEq, Repr

/-- An option, by its name. -/
inductive Flag where
  | help
  | json
  | value (o : ValueOption)
deriving DecidableEq, Repr

/-- The option with a long name. -/
def Flag.ofLongName? (verb : Verb) (name : String) : Option Flag :=
  if name = "help" then some .help
  else if name = "pipeline" then some (.value .pipeline)
  else if verb ≠ .optimize then .none
  else if name = "json" then some .json
  else if name = "max-iterations" then some (.value .maxIterations)
  else if name = "disable" then some (.value .disable)
  else .none

/-- The option with a short name. -/
def Flag.ofShortName? (c : Char) : Option Flag :=
  if c = 'h' then some .help else if c = 'p' then some (.value .pipeline) else .none

/-- Gives an option a value. Only names of rules may be given more than once, and the place of the
pipeline may not be empty. -/
def Options.give (o : Options) (option : ValueOption) (v : String) : Option Options :=
  match option with
  | .pipeline => if o.pipeline.isSome || v.isEmpty then .none else some { o with pipeline := v }
  | .maxIterations =>
    if o.maxIterations.isSome then .none
    else (Text.Decimal.signedWord? v.toList).map fun n ↦ { o with maxIterations := some n }
  | .disable => some { o with disabled := o.disabled ++ [v] }

/-- Asks for JSON, at most once. -/
def Options.giveJson (o : Options) : Option Options :=
  if o.json then .none else some { o with json := true }

/-! ## Arguments -/

/-- An argument by its form. -/
inductive Argument where
  /-- Two dashes: no options come after them. -/
  | endOfOptions
  /-- A long option, perhaps with a value after an equals sign. -/
  | long (name : String) (value : Option String)
  /-- A short option, with what comes after its letter. -/
  | short (name : Char) (tail : List Char)
  | operand (s : String)

/-- The form of an argument. -/
def Argument.ofString (s : String) : Argument :=
  match s.toList with
  | ['-', '-'] => .endOfOptions
  | '-' :: '-' :: r =>
    let name := String.ofList (r.takeWhile (· ≠ '='))
    match r.dropWhile (· ≠ '=') with
    | [] => .long name .none
    | _ :: v => .long name (some (String.ofList v))
  | '-' :: c :: r => .short c r
  | _ => .operand s

/-- Whether an argument cannot be the value of the option before it. A single dash can. -/
def looksLikeOption (s : String) : Bool :=
  match s.toList with
  | '-' :: _ :: _ => true
  | _ => false

/-- The value that comes with a short option; an equals sign in front is dropped. -/
def attachedValue : List Char → Option String
  | [] => .none
  | '=' :: v => some (String.ofList v)
  | v => some (String.ofList v)

/-- The request when all arguments have been read. -/
def Options.toRequest (o : Options) (verb : Verb) : Option Request :=
  o.pipeline.map fun p ↦ .run verb p o

/-- Reads the arguments after a verb. -/
def parseOptions (verb : Verb) (o : Options) : List String → Option Request
  | [] => o.toRequest verb
  | s :: rest =>
    let giveValue (option : ValueOption) : Option String → Option Request
      | some v => do parseOptions verb (← o.give option v) rest
      | .none =>
        match rest with
        | [] => .none
        | v :: rest =>
          if looksLikeOption v then .none
          else do parseOptions verb (← o.give option v) rest
    match Argument.ofString s with
    | .endOfOptions => if rest.isEmpty then o.toRequest verb else .none
    | .operand _ => .none
    | .long name value =>
      match Flag.ofLongName? verb name with
      | .none => .none
      | some .help => if value.isSome then .none else some (.help verb)
      | some .json =>
        if value.isSome then .none else do parseOptions verb (← o.giveJson) rest
      | some (.value option) => giveValue option value
    | .short name tail =>
      match Flag.ofShortName? name with
      | some .help => some (.help verb)
      | some (.value option) => giveValue option (attachedValue tail)
      | _ => .none

/-- Reads the words after `help`. -/
def parseHelp : List String → Option Request
  | [] => some (.help .none)
  | [s] => if s = "help" then some (.help .none) else (Verb.ofName? s).map fun v ↦ .help (some v)
  | _ => .none

/-- Reads the arguments of the program. -/
def parse : List String → Option Request
  | [] => .none
  | s :: rest =>
    match Argument.ofString s with
    | .long "version" .none | .short 'V' _ => some .version
    | .long "help" .none | .short 'h' _ => some (.help .none)
    | .operand "help" => parseHelp rest
    | .operand name => do parseOptions (← Verb.ofName? name) .none rest
    | _ => .none

end Dataflow.CommandLine
