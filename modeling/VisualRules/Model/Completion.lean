import VisualRules.Decimal.Shortest
import VisualRules.Failure
import VisualRules.Model.Prompt
import VisualRules.Rule.Decoding
import VisualRules.Rule.Schema

/-!
# Completions

What is asked of the model and how its answer is read. The answer is the first choice of a
completion; a refusal goes before content, and the content is the text from its first opening to
its last closing brace, so that prose or a fence around the document does no harm.
-/

namespace VisualRules

open Json (Field Record Reader Value)

/-! ## Requests -/

/-- The model to ask and how it samples. -/
structure Sampling where
  model : String
  temperature : Float32
  frequencyPenalty : Float32

/-- The temperature unless another one is set. -/
def Sampling.defaultTemperature : Float32 := 0.3

/-- The frequency penalty unless another one is set. -/
def Sampling.defaultFrequencyPenalty : Float32 := 0.1

/-- A 32-bit number in a request. -/
def float32Value (x : Float32) : Value :=
  Value.ofDecimal? (Decimal.ofFloat32? x)

/-- The body of a request for a completion. -/
def Sampling.requestBody (s : Sampling) (p : Prompt) : Value :=
  .object
    [ ("model", .string s.model),
      ("messages", .list
        [.object [("role", .string "user"), ("content", .list p.parts)]]),
      ("temperature", float32Value s.temperature),
      ("frequency_penalty", float32Value s.frequencyPenalty),
      ("response_format", RuleSchema.responseFormat) ]

/-! ## Answers -/

/-- What the model said. -/
structure Answer where
  content : Option String
  refusal : Option String
deriving DecidableEq, Repr

/-- One of the alternatives that the model offers. -/
structure Choice where
  answer : Answer
  finishReason : Option String
deriving DecidableEq, Repr

/-- What has been read of an answer. -/
structure AnswerDraft where
  content : Option (Option String) := none
  refusal : Option (Option String) := none

/-- An answer; both texts may be absent. -/
def answerRecord : Record AnswerDraft Answer where
  title := "AssistantMessage"
  blank := {}
  fields :=
    [ .slot "content" (·.content) (fun d x => { d with content := some x })
        (Reader.optional Reader.string),
      { Field.slot "refusal" (·.refusal) (fun d x => { d with refusal := some x })
          (Reader.optional Reader.string) with
        mayEnd := true } ]
  finish d := .ok ⟨d.content.join, d.refusal.join⟩

/-- What has been read of a choice. -/
structure ChoiceDraft where
  answer : Option Answer := none
  finishReason : Option (Option String) := none

/-- A choice. -/
def choiceRecord : Record ChoiceDraft Choice where
  title := "Choice"
  blank := {}
  fields :=
    [ .slot "message" (·.answer) (fun d x => { d with answer := some x }) answerRecord.read,
      .slot "finish_reason" (·.finishReason) (fun d x => { d with finishReason := some x })
        (Reader.optional Reader.string) ]
  finish d :=
    match d.answer with
    | none => .error "message"
    | some answer => .ok ⟨answer, d.finishReason.join⟩

/-- The choices of a completion, alone in their record. -/
def completionRecord : Record (Option (List Choice)) (List Choice) where
  title := "ChatCompletionResponse"
  blank := none
  fields := [ .slot "choices" id (fun _ x => some x) (Reader.list choiceRecord.read) ]
  finish d :=
    match d with
    | none => .error "choices"
    | some choices => .ok choices

/-- The text from the first opening brace to the last closing one. -/
def braced? (cs : List Char) : Option (List Char) :=
  match cs.dropWhile (· ≠ '{') with
  | [] => none
  | start =>
    match start.reverse.dropWhile (· ≠ '}') with
    | [] => none
    | ending => some ending.reverse

/-- The candidate in a content. -/
def Candidate.ofContent (content : String) : Except ModelFailure Candidate :=
  match braced? content.toList with
  | none => .error (.malformedOutput "no JSON object in model output")
  | some document =>
    (Reader.whole candidateRecord.read document).mapError fun r =>
      .malformedOutput ("Failed to parse rule: " ++ r.message)

/-- The candidate in the first choice. -/
def Choice.candidate (c : Choice) : Except ModelFailure Candidate :=
  match c.answer.refusal.filter (!·.isEmpty) with
  | some reason => .error (.refused reason)
  | none =>
    match c.answer.content.filter (!Text.isBlank ·) with
    | some content => Candidate.ofContent content
    | none =>
      .error (.malformedOutput ("completion has no content (finish_reason: " ++
        c.finishReason.getD "unknown" ++ ")"))

/-- The candidate in a completion. -/
def Candidate.ofCompletion (body : String) : Except ModelFailure Candidate :=
  match Reader.whole completionRecord.read body.toList with
  | .error r => .error (.malformedOutput ("Failed to parse completion: " ++ r.message))
  | .ok [] => .error (.malformedOutput "completion has no choices")
  | .ok (choice :: _) => choice.candidate

end VisualRules
