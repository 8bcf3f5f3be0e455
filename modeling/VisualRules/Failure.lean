import VisualRules.Rule.Defect
import VisualRules.Text.Duration

/-!
# Failures

What can go wrong between a request and its rule. A failure has a kind for programs, a message for
people, and only a failure of the model call may pass when the same request is repeated.
-/

namespace VisualRules

/-- How a call of the model failed. -/
inductive ModelFailure
  | timeout (nanos : Nat)
  | transport (reason : String)
  | rateLimited
  | status (code : Nat) (body : String)
  | refused (reason : String)
  | malformedOutput (reason : String)
deriving DecidableEq, Repr

namespace ModelFailure

/-- The short name of a failure, for counters and error bodies. -/
def label : ModelFailure → String
  | .timeout _ => "timeout"
  | .transport _ => "transport"
  | .rateLimited => "rate_limited"
  | .status .. => "status"
  | .refused _ => "refused"
  | .malformedOutput _ => "malformed_output"

/-- The text of a failure. -/
def message : ModelFailure → String
  | .timeout nanos => "model call timed out after " ++ Text.durationText nanos
  | .transport reason => "transport failure: " ++ reason
  | .rateLimited => "model endpoint rate limited the request"
  | .status code body => "model endpoint returned status " ++ toString code ++ ": " ++ body
  | .refused reason => "model refused to answer: " ++ reason
  | .malformedOutput reason => "model output does not match the rule schema: " ++ reason

end ModelFailure

/-- Why a request got no rule. -/
inductive Failure
  | configuration (reason : String)
  | unsupportedMedia (fileName contentType : String)
  | invalidRule (defect : Defect)
  | model (failure : ModelFailure)
  | io (reason : String)
  | serialization (reason : String)
  | internal (reason : String)
deriving DecidableEq, Repr

namespace Failure

/-- The kinds of failure that a program can tell apart. -/
inductive Kind
  | configuration
  | unsupportedMedia
  | validation
  | model
  | internal
deriving DecidableEq, Repr

/-- The written name of a kind. -/
def Kind.name : Kind → String
  | .configuration => "configuration"
  | .unsupportedMedia => "unsupported_media"
  | .validation => "validation"
  | .model => "upstream"
  | .internal => "internal"

/-- The kind of a failure. -/
def kind : Failure → Kind
  | .configuration _ => .configuration
  | .unsupportedMedia .. => .unsupportedMedia
  | .invalidRule _ => .validation
  | .model _ => .model
  | .io _ | .serialization _ | .internal _ => .internal

/-- Whether the same request may succeed another time. -/
def isRetryable : Failure → Bool
  | .model _ => true
  | _ => false

/-- The text of a failure. -/
def message : Failure → String
  | .configuration reason => "configuration error: " ++ reason
  | .unsupportedMedia fileName contentType =>
    "unsupported media type '" ++ contentType ++ "' for file '" ++ fileName ++ "'"
  | .invalidRule defect => "validation error: " ++ defect.message
  | .model failure => "upstream error: " ++ failure.message
  | .io reason => "io error: " ++ reason
  | .serialization reason => "serialization error: " ++ reason
  | .internal reason => "internal error: " ++ reason

end Failure

end VisualRules
