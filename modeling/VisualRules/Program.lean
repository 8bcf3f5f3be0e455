import VisualRules.CommandLine.Reading
import VisualRules.Rule.Report
import VisualRules.Rule.Schema
import VisualRules.Settings.File
import VisualRules.Settings.Listen

/-!
# The program

What a command line leads to: an exit code, what is printed and what is complained about. A service
is brought up to the point where it would wait for its first request. All that the program needs of
the machine is asked for through `Machine`.
-/

namespace VisualRules.Program

/-- What the program needs of the machine. Where something fails, the machine gives the reason. -/
structure Machine (m : Type → Type) where
  lookupEnv : String → m (Option String)
  /-- Whether there is anything at a path. -/
  isThere : String → m Bool
  readText : String → m (Except String String)
  /-- Makes a directory and those around it. -/
  makeDirectory : String → m (Except String Unit)
  /-- Takes an address and a port to listen at. -/
  listen : ListenAddress → UInt16 → m (Except String Unit)

/-- How the program ends. -/
structure Outcome where
  code : Nat := 0
  output : String := ""
  complaint : String := ""
deriving DecidableEq, Repr, Inhabited

/-- Puts four spaces in front of each line. -/
def indented (text : String) : String :=
  "\n".intercalate ((text.splitOn "\n").map ("    " ++ ·))

/-- A failure with its causes, outermost first. -/
def Outcome.failed (causes : List String) : Outcome where
  code := 1
  complaint := match causes with
    | [] => ""
    | [message] => "Error: " ++ message ++ "\n"
    | message :: causes =>
      "Error: " ++ message ++ "\n\nCaused by:\n" ++
        String.join (causes.map fun c => indented c ++ "\n")

/-- What is printed when help is asked for. -/
def helpText : String :=
  "Turns monitoring intents and reference media into validated rule graphs\n\n" ++
  "Usage: rulesmith-proxy [OPTIONS] <COMMAND>\n\n" ++
  "Commands:\n" ++
  "  serve     Run the HTTP service\n" ++
  "  validate  Validate a rule JSON file and print its expressions\n" ++
  "  schema    Print the JSON Schema sent to the model\n" ++
  "  help      Print this message or the help of the given subcommand(s)\n\n" ++
  "Options:\n" ++
  "  -v, --verbose  Enable verbose logging\n" ++
  "  -h, --help     Print help\n" ++
  "  -V, --version  Print version\n"

/-- A command line that is not carried out. -/
def Outcome.stopped : CommandLine.Stop → Outcome
  | .help => { output := helpText }
  | .version text => { output := text }
  | _ => { code := 2, complaint := helpText }

/-- Runs a step and goes on with what it gives, or fails for the reason it gives. -/
def andThen {m : Type → Type} [Monad m] {α : Type} (step : m (Except String α))
    (next : α → m Outcome) : m Outcome := do
  match ← step with
  | .ok x => next x
  | .error reason => return .failed [reason]

/-- Brings the service up: settings, address, upload directory and port, in this order. -/
def serve {m : Type → Type} [Monad m] (machine : Machine m) (config : String)
    (overrides : Overrides) : m Outcome := do
  let file : m (Except String (Option String)) := do
    if ← machine.isThere config then return some <$> (← machine.readText config)
    else return .ok none
  andThen file fun text => do
    match Settings.load text overrides with
    | .error fault => return .failed [fault.message]
    | .ok settings =>
      match ListenAddress.ofText? settings.server.listen with
      | none => return .failed ["invalid socket address syntax"]
      | some address =>
        andThen (machine.makeDirectory settings.uploads.directory) fun _ =>
          andThen (machine.listen address settings.server.port) fun _ => return {}

/-- Carries out a command line. -/
def run {m : Type → Type} [Monad m] (machine : Machine m) (words : List String) : m Outcome := do
  let names := CommandLine.Setting.all.filterMap (·.envName?)
  let values ← names.mapM fun name => do return (name, ← machine.lookupEnv name)
  match CommandLine.read (fun name => (values.lookup name).join) words with
  | .error stop => return .stopped stop
  | .ok invocation =>
    match invocation.command with
    | .schema => return { output := RuleSchema.responseFormat.prettyText ++ "\n" }
    | .validate path =>
      match reportOn path (← machine.readText path) with
      | .ok report => return { output := report ++ "\n" }
      | .error refusal => return .failed refusal.causes
    | .serve config overrides => serve machine config overrides

end VisualRules.Program
