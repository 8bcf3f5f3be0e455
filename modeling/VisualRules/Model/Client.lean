import VisualRules.Settings.Basic
import VisualRules.Text.Truncated

/-!
# The model client

One prompt is one request to the model, and one delivery tells what came of it. The status of a
reply counts before its body: only a reply that reports success is read as a completion.
-/

namespace VisualRules

/-- A request to the model. -/
structure ModelRequest where
  url : String
  authorization : String
  body : Json.Value
deriving Repr, Inhabited

/-- A reply of the model endpoint. -/
structure ModelReply where
  status : Nat
  body : String
deriving DecidableEq, Repr, Inhabited

/-- What came of a request. -/
inductive Delivery
  | replied (reply : ModelReply)
  | timedOut
  | broken (reason : String)
deriving DecidableEq, Repr

namespace ModelReply

/-- The status of a request that came too soon after others. -/
def tooManyRequests : Nat := 429

/-- The most bytes of an error body that are kept. -/
def longestErrorBody : Nat := 2048

/-- Whether the endpoint reports success. -/
def isSuccess (r : ModelReply) : Bool :=
  200 ≤ r.status && r.status ≤ 299

/-- The candidate in a reply. -/
def candidate (r : ModelReply) : Except ModelFailure Candidate :=
  if r.status = tooManyRequests then .error .rateLimited
  else if !r.isSuccess then .error (.status r.status (Text.truncated longestErrorBody r.body))
  else Candidate.ofCompletion r.body

end ModelReply

/-- What is needed to call the model. -/
structure ModelClient where
  url : String
  /-- Without a key the model cannot be called. -/
  key : Option String
  sampling : Sampling
  timeoutNanos : Nat

namespace ModelClient

/-- The client for settings; a blank key counts as none. -/
def ofSettings (m : ModelSettings) : ModelClient where
  url := m.completionsUrl
  key := m.apiKey.filter (!Text.isBlank ·)
  sampling := m.sampling
  timeoutNanos := m.timeoutSeconds.toNat * 1000000000

/-- The failure of a client without a key. -/
def missingKey : Failure :=
  .configuration "model API key is not configured; set OPENAI_API_KEY"

/-- Whether the model can be called. -/
def ready (c : ModelClient) : Except Failure Unit :=
  match c.key with
  | some _ => .ok ()
  | none => .error missingKey

/-- The request for a prompt. -/
def request (c : ModelClient) (key : String) (p : Prompt) : ModelRequest where
  url := c.url
  authorization := "Bearer " ++ key
  body := c.sampling.requestBody p

/-- The candidate in a delivery. -/
def received (c : ModelClient) : Delivery → Except ModelFailure Candidate
  | .replied reply => reply.candidate
  | .timedOut => .error (.timeout c.timeoutNanos)
  | .broken reason => .error (.transport reason)

/-- The candidate for a prompt; `deliver` carries a request to the model. -/
def generate (c : ModelClient) (deliver : ModelRequest → Delivery) (p : Prompt) :
    Except Failure Candidate :=
  match c.key with
  | none => .error missingKey
  | some key => (c.received (deliver (c.request key p))).mapError .model

end ModelClient

end VisualRules
