import VisualRules.Json.Encoded
import VisualRules.Rule.Encoding
import VisualRules.Rule.Schema
import VisualRules.Service.Generation
import VisualRules.Service.Intake

/-!
# The service

Rules are generated from forms and checked again from documents. A response is a rule that passed
all checks, or an error. Files of a request are removed again unless they are to be retained.
-/

namespace VisualRules

open Json (Reader Value)

/-- The state of the service. -/
structure Service where
  settings : Settings := {}
  uploads : UploadStore := .empty
  counters : Counters := []

instance : Inhabited Service := ⟨{}⟩

/-- A request that has been answered. -/
structure Handled where
  response : Response
  service : Service
  /-- The prompts that the generator was given, in order. -/
  asked : List Prompt := []

namespace Service

/-- Counts once more. -/
def count (s : Service) (c : Counter) : Service :=
  { s with counters := s.counters.add c }

/-- A response that changes nothing. -/
def answered (s : Service) (r : Response) : Handled :=
  { response := r, service := s }

/-! ## Rules from forms -/

/-- The most bytes of a request that are read. -/
def limit (s : Service) : Nat :=
  s.settings.uploads.maxRequestBytes.toNat

/-- The form in a body that may not be longer than the limit. -/
def form (s : Service) (boundary : String) (body : Bytes) : Form :=
  if s.limit < body.length then .broken .tooLarge else .ofBytes boundary body

/-- The rule for what has been taken in of a form. -/
def generate (g : Generator) (i : Intake) : Generation RequestFailure Rule := do
  let request ← Generation.ofExcept i.request
  let (media, skipped) := Upload.references i.store i.uploads
  Generation.count (List.replicate skipped .skippedMedia)
  let media ← Generation.ofExcept (media.mapError .failed)
  (g.rule request media).mapError .failed

/-- The response to the wish for a rule. -/
def generated : Except RequestFailure Rule → Response
  | .ok rule => .json 200 rule.toValue
  | .error f => f.response

/-- Answers a form with a rule. Nothing is stored while the generator is not ready. -/
def generateRule (s : Service) (g : Generator) (form : Form) : Handled :=
  let s := s.count (.requests .generateRule)
  match g.ready with
  | .error f => s.answered (RequestFailure.failed f).response
  | .ok () =>
    let (received, intake) := Intake.receive form { store := s.uploads }
    let generation := do
      Generation.ofExcept received
      generate g intake
    let uploads :=
      if s.settings.uploads.retains then intake.store else intake.store.removeAll intake.uploads
    { response := generated generation.result
      service := { s with uploads, counters := s.counters.addAll generation.counted }
      asked := generation.asked }

/-! ## Rules from documents -/

/-- The candidate in the body of a request. What follows the document is ignored. -/
def submitted (s : Service) (r : Request) : Except RequestFailure Candidate :=
  let mediaType := (r.header? "content-type").bind MediaType.ofText?
  if !mediaType.any MediaType.isJson then
    .error (.badRequest "Expected request with `Content-Type: application/json`")
  else if s.limit < r.body.length then
    .error (.badRequest "Failed to buffer the request body: length limit exceeded")
  else
    (Reader.front candidateRecord.read (Json.encodedChars r.body)).mapError fun refusal =>
      if refusal.fault.isLayout then .badRequest "Failed to parse the request body as JSON"
      else
        .badRequest ("Failed to deserialize the JSON body into the target type: " ++
          refusal.placedMessage)

/-- A rule and its expressions. -/
def report (rule : Rule) : Value :=
  .object
    [("rule", rule.toValue), ("expressions", .list (rule.expressions.map Expression.toValue))]

/-- The response to a document. -/
def validated (candidate : Except RequestFailure Candidate) : Response :=
  match candidate with
  | .error f => f.response
  | .ok c =>
    match c.validate with
    | .error d => (RequestFailure.failed (.invalidRule d)).response
    | .ok rule => .json 200 (report rule)

/-- Answers a document with its rule and its expressions. -/
def validateRule (s : Service) (r : Request) : Handled :=
  (s.count (.requests .validateRule)).answered (validated (s.submitted r))

end Service

end VisualRules
