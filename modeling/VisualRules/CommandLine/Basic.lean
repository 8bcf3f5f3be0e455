import VisualRules.Settings.Basic

/-!
# Commands

What the program can be told to do, the options of each command, and the ways in which a command
line can fail to tell it.
-/

namespace VisualRules.CommandLine

/-- The name of the program and its version. -/
def programName : String := "rulesmith-proxy"

def programVersion : String := "0.1.0"

/-- What the program is to do. -/
inductive Command
  /-- Answer requests, with settings from a file and from options. -/
  | serve (config : String) (overrides : Overrides)
  /-- Report on the rule document in a file. -/
  | validate (path : String)
  /-- Print the schema of rule documents. -/
  | schema
deriving DecidableEq, Repr, Inhabited

/-- A command, and whether its doings are to be logged in detail. -/
structure Invocation where
  verbose : Bool
  command : Command
deriving DecidableEq, Repr, Inhabited

/-- The command lines with options of their own: that of the program, and one for each command. -/
inductive Level
  | program
  | serve
  | validate
  | schema
deriving DecidableEq, Repr, Inhabited

/-- The commands by name. -/
def Level.commands : List (String × Level) :=
  [("serve", .serve), ("validate", .validate), ("schema", .schema)]

/-- The word that asks for help on a command. -/
def helpCommand : String := "help"

/-- What is printed when a version is asked for. -/
def Level.versionText (l : Level) : String :=
  let name := match l with
    | .program => programName
    | .serve => programName ++ "-serve"
    | .validate => programName ++ "-validate"
    | .schema => programName ++ "-schema"
  name ++ " " ++ programVersion ++ "\n"

/-- Options that take a value. -/
inductive Setting
  | config
  | listen
  | port
  | baseUrl
  | apiKey
  | model
  | uploadDir
  | timeoutSeconds
deriving DecidableEq, Repr, Inhabited

/-- All options of the service. -/
def Setting.all : List Setting :=
  [.config, .listen, .port, .baseUrl, .apiKey, .model, .uploadDir, .timeoutSeconds]

/-- The word for an option, which follows two dashes. -/
def Setting.long : Setting → String
  | .config => "config"
  | .listen => "listen"
  | .port => "port"
  | .baseUrl => "base-url"
  | .apiKey => "api-key"
  | .model => "model"
  | .uploadDir => "upload-dir"
  | .timeoutSeconds => "timeout-secs"

/-- The letter for an option, which follows one dash. -/
def Setting.short? : Setting → Option Char
  | .config => some 'c'
  | .listen => some 'l'
  | .port => some 'P'
  | .model => some 'm'
  | _ => none

/-- The variable that gives an option its value where the command line does not. -/
def Setting.envName? : Setting → Option String
  | .baseUrl => some "OPENAI_BASE_URL"
  | .apiKey => some "OPENAI_API_KEY"
  | .model => some "OPENAI_MODEL"
  | _ => none

/-- What a word of a command line can name besides a value. -/
inductive Switch
  | verbose
  | help
  | version
  | setting (s : Setting)
deriving DecidableEq, Repr, Inhabited

/-- The options that every level knows. -/
def Switch.common : List (String × Char × Switch) :=
  [("verbose", 'v', .verbose), ("help", 'h', .help), ("version", 'V', .version)]

/-- The option with a long name. -/
def Level.long? (l : Level) (name : String) : Option Switch :=
  match Switch.common.find? (·.1 = name) with
  | some (_, _, s) => some s
  | none =>
    if l = .serve then (Setting.all.find? (·.long = name)).map .setting else none

/-- The option with a letter. -/
def Level.short? (l : Level) (letter : Char) : Option Switch :=
  match Switch.common.find? (·.2.1 = letter) with
  | some (_, _, s) => some s
  | none =>
    if l = .serve then (Setting.all.find? (·.short? = some letter)).map .setting else none

/-- Why a command line is not carried out. Help and a version are no faults, but end it too. -/
inductive Stop
  | unknownArgument
  | unknownCommand
  /-- An option without its value, or an empty path. -/
  | missingValue
  | malformedValue
  /-- A value with an option that takes none. -/
  | needlessValue
  | repeatedOption
  | missingArgument
  | missingCommand
  /-- Nothing was given at all. -/
  | nothingGiven
  | help
  | version (text : String)
deriving DecidableEq, Repr, Inhabited

end VisualRules.CommandLine
