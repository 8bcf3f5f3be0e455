import VisualRules.Http.Form
import VisualRules.Http.Message
import VisualRules.Upload.Store

/-!
# Failures of requests

A request fails because it cannot be read or because no rule came of it. Either way the response is
one error object that says what happened and whether to try again; it never holds part of a rule.
-/

namespace VisualRules

open Json (Value)

/-- Why a request failed. -/
inductive RequestFailure
  | badRequest (reason : String)
  /-- The body was refused while it was read. -/
  | rejected (code : Nat) (reason : String)
  | failed (failure : Failure)
deriving DecidableEq, Repr

/-- The status for a failure on the way to a rule. -/
def Failure.status : Failure → Nat
  | .configuration _ => 503
  | .unsupportedMedia .. => 400
  | .invalidRule _ => 422
  | .model (.timeout _) => 504
  | .model _ => 502
  | .io _ | .serialization _ | .internal _ => 500

/-- What programs are told of a failure besides its kind. -/
def Failure.details : Failure → List (String × Value)
  | .invalidRule d =>
    ("rule", .integer d.check.number) ::
      match d.subject? with
      | some id => [("subject", .string id)]
      | none => []
  | .model f => [("upstream", .string f.label)]
  | _ => []

namespace RequestFailure

/-- The failure of a request whose file could not be stored. -/
def ofUpload : UploadFailure → RequestFailure
  | .io reason => .failed (.io reason)
  | .stream _ reason => .badRequest reason

/-- The failure of a request whose form cannot be read on. -/
def ofForm (f : FormFault) : RequestFailure :=
  .rejected f.status f.message

/-- The status of the response. -/
def status : RequestFailure → Nat
  | .badRequest _ => 400
  | .rejected code _ => code
  | .failed f => f.status

/-- The members of an error object. -/
def members (kind message : String) (retryable : Bool) : List (String × Value) :=
  [("kind", .string kind), ("message", .string message), ("retryable", .boolean retryable)]

/-- The error object. -/
def toValue : RequestFailure → Value
  | .badRequest reason | .rejected _ reason => .object (members "bad_request" reason false)
  | .failed f => .object (members f.kind.name f.message f.isRetryable ++ f.details)

/-- The response to a request that failed. -/
def response (f : RequestFailure) : Response :=
  .json f.status (.object [("error", f.toValue)])

end RequestFailure

end VisualRules
