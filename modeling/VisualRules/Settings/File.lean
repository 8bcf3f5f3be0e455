import VisualRules.Settings.Basic
import VisualRules.Yaml.Field

/-!
# The settings file

Settings as a YAML document of three sections. What is not given has its default, and what is not
known is passed over.
-/

namespace VisualRules

open Yaml (Document fieldOr)

/-- The section on the server. -/
def ServerSettings.ofNode? (d : Document) (x : Yaml.Node) : Option ServerSettings := do
  let fields ← d.record? ["listen", "port", "cors_origins"] x
  let default : ServerSettings := {}
  return {
    listen := ← fieldOr fields "listen" Yaml.Node.text? default.listen
    port := ← fieldOr fields "port" Yaml.Node.word16? default.port
    origins := ← fieldOr fields "cors_origins" d.texts? default.origins }

/-- The section on the model. -/
def ModelSettings.ofNode? (d : Document) (x : Yaml.Node) : Option ModelSettings := do
  let fields ← d.record? ["base_url", "api_key", "model", "temperature", "frequency_penalty",
    "timeout_secs", "allow_local_endpoint"] x
  let default : ModelSettings := {}
  return {
    baseUrl := ← fieldOr fields "base_url" Yaml.Node.text? default.baseUrl
    apiKey := ← fieldOr fields "api_key" Yaml.Node.optionalText? default.apiKey
    model := ← fieldOr fields "model" Yaml.Node.text? default.model
    temperature := ← fieldOr fields "temperature" Yaml.Node.single? default.temperature
    frequencyPenalty :=
      ← fieldOr fields "frequency_penalty" Yaml.Node.single? default.frequencyPenalty
    timeoutSeconds := ← fieldOr fields "timeout_secs" Yaml.Node.word64? default.timeoutSeconds
    allowsLocal := ← fieldOr fields "allow_local_endpoint" Yaml.Node.truth? default.allowsLocal }

/-- The section on uploads. -/
def UploadSettings.ofNode? (d : Document) (x : Yaml.Node) : Option UploadSettings := do
  let fields ← d.record? ["dir", "max_request_bytes", "retain"] x
  let default : UploadSettings := {}
  return {
    directory := ← fieldOr fields "dir" Yaml.Node.text? default.directory
    maxRequestBytes :=
      ← fieldOr fields "max_request_bytes" Yaml.Node.word64? default.maxRequestBytes
    retains := ← fieldOr fields "retain" Yaml.Node.truth? default.retains }

namespace Settings

/-- The settings of a document; one without content has the defaults. -/
def ofDocument? (d : Document) : Option Settings := do
  let root ← d.resolve (d.root.getD .missing)
  let fields ← d.record? ["server", "model", "uploads"] root
  return {
    server := ← fieldOr fields "server" (ServerSettings.ofNode? d) {}
    model := ← fieldOr fields "model" (ModelSettings.ofNode? d) {}
    uploads := ← fieldOr fields "uploads" (UploadSettings.ofNode? d) {} }

/-- The settings of a file. -/
def ofText (text : String) : Except SettingsFault Settings :=
  match (Document.ofText? text).bind ofDocument? with
  | some s => .ok s
  | none => .error .malformedFile

/-- The settings that the service starts with: those of a file, if there is one, with what is given
elsewhere put in place. -/
def load (file : Option String) (o : Overrides) (form : Url.NameForm := .ascii) :
    Except SettingsFault Settings := do
  let s ← match file with
    | some text => ofText text
    | none => pure {}
  let s := s.override o
  s.check form
  return s

end Settings

end VisualRules
