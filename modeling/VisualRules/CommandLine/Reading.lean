import VisualRules.CommandLine.Basic

/-!
# Reading a command line

Words are read from left to right. An option may have its value attached or in the next word; it is
set only when something follows that settles it, so that an unknown word is reported before a
malformed value in front of it. Behind two dashes every word is an argument.
-/

namespace VisualRules.CommandLine

/-- What waits for a value. -/
inductive Slot
  | setting (s : Setting)
  | path
deriving DecidableEq, Repr

/-- What has been given so far. -/
structure Given where
  verbose : Bool := false
  path : Option String := none
  config : Option String := none
  overrides : Overrides := {}

/-! ## Values -/

/-- The number that decimal digits write; there has to be one. -/
def digits? (cs : List Char) : Option Nat :=
  if cs.isEmpty || !cs.all Char.isDigit then none
  else some (cs.foldl (fun n d => n * 10 + (d.toNat - '0'.toNat)) 0)

/-- A number with a sign, or without. -/
def integer? (text : String) : Option Int :=
  match text.toList with
  | '-' :: ds => (digits? ds).map fun n => -(n : Int)
  | '+' :: ds => (digits? ds).map fun n => (n : Int)
  | ds => (digits? ds).map fun n => (n : Int)

/-- The number of a port. -/
def port? (text : String) : Option UInt16 := do
  let n ← integer? text
  if 0 ≤ n && n ≤ 65535 then return .ofNat n.toNat else none

/-- A number of seconds, which has no minus sign. -/
def seconds? (text : String) : Option UInt64 := do
  if text.startsWith "-" then none
  let n ← integer? text
  if n < UInt64.size then return .ofNat n.toNat else none

/-- Sets what has not been set before. -/
def once {α : Type} (old : Option α) (new : Except Stop α) : Except Stop (Option α) :=
  if old.isSome then .error .repeatedOption else some <$> new

/-- A path, which is not empty. -/
def nonEmpty (text : String) : Except Stop String :=
  if text.isEmpty then .error .missingValue else .ok text

/-- A value, or the refusal of its text. -/
def wellFormed {α : Type} (value : Option α) : Except Stop α :=
  match value with
  | some x => .ok x
  | none => .error .malformedValue

/-- Gives a slot its value. -/
def Given.put (g : Given) (slot : Slot) (text : String) : Except Stop Given := do
  let o := g.overrides
  match slot with
  | .path => return { g with path := ← once g.path (nonEmpty text) }
  | .setting .config => return { g with config := ← once g.config (.ok text) }
  | .setting .listen =>
    return { g with overrides := { o with listen := ← once o.listen (.ok text) } }
  | .setting .port =>
    return { g with overrides := { o with port := ← once o.port (wellFormed (port? text)) } }
  | .setting .baseUrl =>
    return { g with overrides := { o with baseUrl := ← once o.baseUrl (.ok text) } }
  | .setting .apiKey =>
    return { g with overrides := { o with apiKey := ← once o.apiKey (.ok text) } }
  | .setting .model =>
    return { g with overrides := { o with model := ← once o.model (.ok text) } }
  | .setting .uploadDir =>
    return { g with overrides := { o with directory := ← once o.directory (nonEmpty text) } }
  | .setting .timeoutSeconds =>
    let seconds ← once o.timeoutSeconds (wellFormed (seconds? text))
    return { g with overrides := { o with timeoutSeconds := seconds } }

/-! ## Words -/

/-- A command line that is being read. -/
structure State where
  given : Given := {}
  /-- What is still to be set, and its value if it has come. -/
  pending : Option (Slot × Option String) := none
  /-- Whether a path has been taken. -/
  hasPath : Bool := false
  /-- Whether two dashes have come. -/
  isPlain : Bool := false

/-- Sets what is still to be set. -/
def State.settle (s : State) : Except Stop State :=
  match s.pending with
  | none => .ok s
  | some (_, none) => .error .missingValue
  | some (slot, some text) => do
    return { s with given := ← s.given.put slot text, pending := none }

/-- Turns on an option that takes no value. -/
def State.turnOn (s : State) (l : Level) (switch : Switch) : Except Stop State := do
  let s ← s.settle
  match switch with
  | .verbose =>
    if s.given.verbose then throw .repeatedOption
    return { s with given := { s.given with verbose := true } }
  | .help => throw .help
  | .version => throw (.version l.versionText)
  | .setting x => return { s with pending := some (.setting x, none) }

/-- Gives an option the value that is attached to it. -/
def State.attach (s : State) (x : Setting) (text : String) : Except Stop State := do
  let s ← s.settle
  return { s with given := ← s.given.put (.setting x) text }

/-- Letters behind one dash. What follows the letter of an option that takes a value is the value,
with or without a sign of equality. -/
def State.letters (l : Level) : List Char → State → Except Stop State
  | [], s => .ok s
  | c :: cs, s => do
    match l.short? c with
    | none => throw .unknownArgument
    | some (.setting x) =>
      match cs with
      | [] => s.turnOn l (.setting x)
      | '=' :: value => s.attach x (String.ofList value)
      | value => s.attach x (String.ofList value)
    | some switch => State.letters l cs (← s.turnOn l switch)

/-- A long name behind two dashes, with its value behind a sign of equality or in the next word. -/
def State.name (l : Level) (cs : List Char) (s : State) : Except Stop State := do
  let name := cs.takeWhile (· ≠ '=')
  let value := match cs.dropWhile (· ≠ '=') with
    | '=' :: value => some (String.ofList value)
    | _ => none
  match l.long? (String.ofList name), value with
  | none, _ => throw .unknownArgument
  | some (.setting x), some text => s.attach x text
  | some _, some _ => throw .needlessValue
  | some switch, none => s.turnOn l switch

/-- Whether a word is that of a command. -/
def isCommand (word : String) : Bool :=
  word = helpCommand || (Level.commands.lookup word).isSome

/-- A word that is no option: the path of a document where one is wanted. -/
def State.argument (l : Level) (word : String) (s : State) : Except Stop State := do
  if l = .validate && !s.hasPath then
    let s ← s.settle
    return { s with pending := some (.path, some word), hasPath := true }
  if l = .program && !(s.isPlain && isCommand word) then throw .unknownCommand
  throw .unknownArgument

/-- A word in front of two dashes. -/
def State.word (l : Level) (word : String) (s : State) : Except Stop State :=
  match word.toList with
  | ['-', '-'] => .ok { s with isPlain := true }
  | '-' :: '-' :: cs => s.name l cs
  | '-' :: c :: cs => s.letters l (c :: cs)
  | _ =>
    match s.pending with
    | some (slot, none) => .ok { s with pending := some (slot, some word) }
    | _ => s.argument l word

/-- Reads words up to their end. -/
def State.words (l : Level) : List String → State → Except Stop State
  | [], s => s.settle
  | w :: ws, s => do
    let s ← if s.isPlain then s.argument l w else s.word l w
    State.words l ws s

/-- Reads the words in front of a command: what they give, the command and the words behind it. -/
def State.front : List String → State → Except Stop (State × Option (String × List String))
  | [], s => do return (← s.settle, none)
  | w :: ws, s => do
    if !s.isPlain && isCommand w then return (s, some (w, ws))
    let s ← if s.isPlain then s.argument .program w else s.word .program w
    State.front ws s

/-! ## Commands -/

/-- What is given, with variables where the command line gives nothing. -/
def Given.orVariables (g : Given) (env : String → Option String) : Overrides :=
  let fromEnv := fun (s : Setting) => s.envName?.bind env
  { g.overrides with
    baseUrl := g.overrides.baseUrl.or (fromEnv .baseUrl)
    apiKey := g.overrides.apiKey.or (fromEnv .apiKey)
    model := g.overrides.model.or (fromEnv .model) }

/-- The words behind a request for help name a command. -/
def helpOn : List String → Stop
  | [] => .help
  | [word] => if isCommand word then .help else .unknownCommand
  | _ => .unknownCommand

/-- The command that words of its level give. -/
def commandOf (env : String → Option String) : Level → Given → Except Stop Command
  | .serve, g => .ok (.serve (g.config.getD "rulesmith.yaml") (g.orVariables env))
  | .validate, g =>
    match g.path with
    | some path => .ok (.validate path)
    | none => .error .missingArgument
  | .schema, _ => .ok .schema
  | .program, _ => .error .missingCommand

/-- Reads a command line, without the name of the program. -/
def read (env : String → Option String) (words : List String) : Except Stop Invocation := do
  match ← State.front words {} with
  | (s, none) => throw (if s.given.verbose then .missingCommand else .nothingGiven)
  | (s, some (word, rest)) =>
    match Level.commands.lookup word with
    | none => throw (helpOn rest)
    | some level =>
      let inner ← State.words level rest {}
      let command ← commandOf env level inner.given
      return ⟨s.given.verbose || inner.given.verbose, command⟩

end VisualRules.CommandLine
