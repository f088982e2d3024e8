import Dataflow.CommandLine.Request
import Dataflow.Explain
import Dataflow.Optimizer.Json
import Dataflow.Pipeline.Yaml

/-!
# Carrying out requests

What the program prints and the code with which it ends, as a function of the request, of the content
of the pipeline file and of the environment.
-/

namespace Dataflow.CommandLine

/-- Why a file could not be read. -/
inductive FileFault where
  | missing
  | notADirectory
  | isADirectory
  | nameTooLong
  | notText
  | other (message : String)
deriving DecidableEq, Repr

/-- The message of a file fault. -/
def FileFault.message : FileFault → String
  | missing => "No such file or directory (os error 2)"
  | notADirectory => "Not a directory (os error 20)"
  | isADirectory => "Is a directory (os error 21)"
  | nameTooLong => "File name too long (os error 36)"
  | notText => "stream did not contain valid UTF-8"
  | other message => message

/-- The text of a file with a given content. -/
def textOfBytes (bytes : ByteArray) : Except FileFault String :=
  match String.fromUTF8? bytes with
  | some s => .ok s
  | none => .error .notText

/-- What a run of the program leaves behind. -/
structure Outcome where
  exitCode : UInt32
  stdout : String
  stderr : String
deriving DecidableEq, Repr

/-- A run that ends well. -/
def Outcome.success (stdout : String) : Outcome :=
  ⟨0, stdout, ""⟩

/-- A run that fails after it has printed something. -/
def Outcome.failure (stdout heading message : String) : Outcome :=
  ⟨1, stdout, s!"{heading}: {message}\n"⟩

/-! ## Texts -/

/-- The name and the version of the program. -/
def versionText : String :=
  "flowplan 0.1.0\n"

/-- How the program is used. -/
def usage : Option Verb → String
  | none =>
    "Logical-plan rewriter for dataflow pipelines\n\nUsage: flowplan <COMMAND>\n\nCommands:\n" ++
    "  validate  Validate a pipeline YAML file (syntax and wiring check)\n" ++
    "  explain   Print the logical plan before and after the rewrite rules run\n" ++
    "  optimize  Run the rewrite rules to a fixed point and print the result\n" ++
    "  help      Print this message or the help of the given subcommand(s)\n\nOptions:\n" ++
    "  -h, --help     Print help\n  -V, --version  Print version\n"
  | some .validate =>
    "Validate a pipeline YAML file (syntax and wiring check)\n\n" ++
    "Usage: flowplan validate --pipeline <PIPELINE>\n\nOptions:\n" ++
    "  -p, --pipeline <PIPELINE>  Path to the pipeline YAML file\n" ++
    "  -h, --help                 Print help\n"
  | some .explain =>
    "Print the logical plan before and after the rewrite rules run\n\n" ++
    "Usage: flowplan explain --pipeline <PIPELINE>\n\nOptions:\n" ++
    "  -p, --pipeline <PIPELINE>  Path to the pipeline YAML file\n" ++
    "  -h, --help                 Print help\n"
  | some .optimize =>
    "Run the rewrite rules to a fixed point and print the result\n\n" ++
    "Usage: flowplan optimize [OPTIONS] --pipeline <PIPELINE>\n\nOptions:\n" ++
    "  -p, --pipeline <PIPELINE>              Path to the pipeline YAML file\n" ++
    "      --json                             " ++
    "Emit the rewritten plan and the application log as JSON\n" ++
    "      --max-iterations <MAX_ITERATIONS>  Driver iteration cap (overrides config)\n" ++
    "      --disable <DISABLE>                " ++
    "Rule to skip; may be repeated (overrides config)\n" ++
    "  -h, --help                             Print help\n"

/-- A heading with a line under it, before a listing. -/
def listing (title : String) (p : LogicalPlan) : String :=
  let underline := String.ofList (List.replicate title.length '=')
  s!"{title}\n{underline}\n{p.explain}"

/-- The line of an application. -/
def applicationLine (a : Application) : String :=
  s!"  {a.rule} on {a.node}\n"

/-- The lines about what a run has done. -/
def summaryText (s : Summary) : String :=
  let note := if s.reachedFixedPoint then "" else " (iteration cap reached)"
  s!"Rules applied: {s.applications.length} in {s.iterations} iteration(s){note}\n" ++
    String.join (s.applications.map applicationLine)

/-- A plan and a summary as indented JSON, with the members in the order of their names. -/
def resultJson (p : LogicalPlan) (s : Summary) : String :=
  (Json.record [("summary", s.toJson), ("plan", LogicalPlan.toJson p)]).sortKeys.renderIndented

/-! ## Requests -/

/-- The layer of settings that the options set. An empty list of rules sets nothing. -/
def Options.overrides (o : Options) : Overrides where
  maxIterations := o.maxIterations
  disabledRules := if o.disabled.isEmpty then .none else some o.disabled

/-- The settings of a run: the environment, under the document, under the options. -/
def settings (environment : String → Option String) (document : Overrides) (o : Options) :
    Settings :=
  ((Settings.ofEnvironment environment).override document).override o.overrides

/-- Why there is no plan to work on. -/
inductive InputFault where
  | file (fault : FileFault)
  | pipeline (error : PipelineError)

/-- The message of an input fault. -/
def InputFault.message : InputFault → String
  | file fault => fault.message
  | pipeline error => error.message

/-- The plan and the settings in the content of a file. -/
def readInput (content : Except FileFault String) :
    Except InputFault (LogicalPlan × Overrides) := do
  let text ← content.mapError .file
  (Pipeline.planOfYaml text).mapError .pipeline

/-- Says whether a file describes a plan. -/
def validate (content : Except FileFault String) : Outcome :=
  match readInput content with
  | .ok _ => .success "✓ Pipeline is valid\n"
  | .error e => .failure "" "Validation failed" e.message

/-- Lists a plan before and after the rules have run. -/
def explain (environment : String → Option String) (content : Except FileFault String) :
    Outcome :=
  match readInput content with
  | .error e => .failure "" "Error" e.message
  | .ok (plan, document) =>
    let before := listing "Logical Plan" plan ++ "\n"
    let optimizer := Optimizer.withDefaultRules (settings environment document .none)
    match optimizer.optimize plan with
    | (.error e, _) => .failure before "Error" e.message
    | (.ok _, after) => .success (before ++ listing "Optimized Plan" after)

/-- Runs the rules and prints the plan that they leave. -/
def optimize (environment : String → Option String) (content : Except FileFault String)
    (o : Options) : Outcome :=
  match readInput content with
  | .error e => .failure "" "Error" e.message
  | .ok (plan, document) =>
    let optimizer := Optimizer.withDefaultRules (settings environment document o)
    match optimizer.optimize plan with
    | (.error e, _) => .failure "" "Error" e.message
    | (.ok summary, after) =>
      if o.json then .success (resultJson after summary ++ "\n")
      else .success (listing "Optimized Plan" after ++ "\n" ++ summaryText summary)

/-- The file that a request reads. -/
def Request.file? : Request → Option String
  | .run _ pipeline _ => some pipeline
  | _ => none

/-- Carries out a request. -/
def Request.perform (environment : String → Option String) (content : Except FileFault String) :
    Request → Outcome
  | .version => .success versionText
  | .help verb => .success (usage verb)
  | .run .validate _ _ => validate content
  | .run .explain _ _ => explain environment content
  | .run .optimize _ o => optimize environment content o

/-- The outcome when the arguments make no request. -/
def Outcome.usageError : Outcome :=
  ⟨2, "", "error: invalid arguments\n\nFor more information, try '--help'.\n"⟩

end Dataflow.CommandLine
