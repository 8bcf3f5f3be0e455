import VisualRules.Endpoint
import VisualRules.Model.Completion

/-!
# Settings

What the service runs with: where it listens, which model it calls and how it keeps uploads. Each
setting has a default. Settings are usable only if the model may be called at its base address.
-/

namespace VisualRules

/-- Where the service listens, and the pages that may call it. -/
structure ServerSettings where
  listen : String := "0.0.0.0"
  port : UInt16 := 8000
  origins : List String := ["http://127.0.0.1:5173", "http://localhost:5173"]
deriving DecidableEq, Repr, Inhabited

/-- The model and how it is called. -/
structure ModelSettings where
  baseUrl : String := "https://api.openai.com/v1"
  apiKey : Option String := none
  model : String := "gpt-4o"
  temperature : Float32 := Sampling.defaultTemperature
  frequencyPenalty : Float32 := Sampling.defaultFrequencyPenalty
  timeoutSeconds : UInt64 := 120
  /-- Whether the model may run on a host of the own network, without encryption. -/
  allowsLocal : Bool := false
deriving Inhabited

/-- How uploads are kept. -/
structure UploadSettings where
  directory : String := "uploaded_files"
  /-- The largest request that is read, files included. -/
  maxRequestBytes : UInt64 := 209715200
  /-- Whether files stay when their request has been answered. -/
  retains : Bool := true
deriving DecidableEq, Repr, Inhabited

/-- All settings. -/
structure Settings where
  server : ServerSettings := {}
  model : ModelSettings := {}
  uploads : UploadSettings := {}
deriving Inhabited

/-- Why settings cannot be used. -/
inductive SettingsFault
  | malformedFile
  | endpoint (baseUrl : String) (fault : EndpointFault)
  | noTimeout
  | blankModel
deriving Repr

/-- The text of a fault. -/
def SettingsFault.message : SettingsFault → String
  | .malformedFile => "malformed configuration"
  | .endpoint baseUrl fault => "Invalid model base_url '" ++ baseUrl ++ "': " ++ fault.message
  | .noTimeout => "model.timeout_secs must be greater than 0"
  | .blankModel => "model.model must not be empty"

namespace ModelSettings

/-- The policy for the address of the model. -/
def policy (m : ModelSettings) : EndpointPolicy :=
  if m.allowsLocal then .forLocal else {}

/-- The address that requests to the model go to. -/
def completionsUrl (m : ModelSettings) : String :=
  let base := (m.baseUrl.toList.reverse.dropWhile (· = '/')).reverse
  String.ofList base ++ "/chat/completions"

/-- What the model is asked with. -/
def sampling (m : ModelSettings) : Sampling :=
  ⟨m.model, m.temperature, m.frequencyPenalty⟩

end ModelSettings

/-- Refuses settings that the service cannot run with. -/
def Settings.check (s : Settings) (form : Url.NameForm := .ascii) : Except SettingsFault Unit := do
  match Endpoint.check s.model.baseUrl s.model.policy form with
  | .ok _ => pure ()
  | .error fault => throw (.endpoint s.model.baseUrl fault)
  if s.model.timeoutSeconds = 0 then throw .noTimeout
  if Text.isBlank s.model.model then throw .blankModel

/-- Settings given on the command line or in the environment, over those of a file. -/
structure Overrides where
  listen : Option String := none
  port : Option UInt16 := none
  baseUrl : Option String := none
  apiKey : Option String := none
  model : Option String := none
  directory : Option String := none
  timeoutSeconds : Option UInt64 := none
deriving DecidableEq, Repr, Inhabited

/-- Settings with what is given put in place. An empty key does not count as given. -/
def Settings.override (s : Settings) (o : Overrides) : Settings where
  server := { s.server with
    listen := o.listen.getD s.server.listen
    port := o.port.getD s.server.port }
  model := { s.model with
    baseUrl := o.baseUrl.getD s.model.baseUrl
    apiKey := (o.apiKey.filter (!·.isEmpty)).or s.model.apiKey
    model := o.model.getD s.model.model
    timeoutSeconds := o.timeoutSeconds.getD s.model.timeoutSeconds }
  uploads := { s.uploads with directory := o.directory.getD s.uploads.directory }

end VisualRules
