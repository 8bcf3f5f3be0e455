import VisualRules.Model.Client
import VisualRules.Service.Counter

/-!
# Generating a rule

From a request and its media to a rule: one prompt, one candidate, and the checks. A candidate that
a check refuses never becomes an answer.
-/

namespace VisualRules

/-- What makes candidates out of prompts. -/
structure Generator where
  /-- Whether there is any use in asking. -/
  ready : Except Failure Unit
  /-- The candidate for a prompt, and what is counted on the way. -/
  generate : Prompt → Except Failure Candidate × List Counter

/-- The generator that asks a model; `deliver` carries a request to it. -/
def ModelClient.generator (c : ModelClient) (deliver : ModelRequest → Delivery) : Generator where
  ready := c.ready
  generate p :=
    let r := c.generate deliver p
    (r, Counter.ofGenerated r)

/-- How a step on the way to a rule came out. -/
structure Generation (ε α : Type) where
  result : Except ε α
  counted : List Counter := []
  /-- The prompts that the generator was given, in order. -/
  asked : List Prompt := []

namespace Generation

variable {ε δ α β : Type}

/-- A result for which nothing is counted and nobody is asked. -/
def ofExcept (result : Except ε α) : Generation ε α :=
  { result }

/-- Counts on the way. -/
def count (counted : List Counter) : Generation ε Unit :=
  { result := .ok (), counted }

/-- Takes the next step with the result of this one, unless it is a failure. -/
def andThen (g : Generation ε α) (next : α → Generation ε β) : Generation ε β :=
  match g.result with
  | .error e => ⟨.error e, g.counted, g.asked⟩
  | .ok a =>
    let rest := next a
    ⟨rest.result, g.counted ++ rest.counted, g.asked ++ rest.asked⟩

instance : Monad (Generation ε) where
  pure a := .ofExcept (.ok a)
  bind := andThen

/-- Changes the failure. -/
def mapError (f : ε → δ) (g : Generation ε α) : Generation δ α :=
  { g with result := g.result.mapError f }

end Generation

namespace Generator

/-- Gives the generator a prompt. -/
def ask (g : Generator) (p : Prompt) : Generation Failure Candidate :=
  let (result, counted) := g.generate p
  ⟨result, counted, [p]⟩

/-- Checks a candidate; a refusal is counted. -/
def checked (c : Candidate) : Generation Failure Rule :=
  match c.validate with
  | .ok rule => .ofExcept (.ok rule)
  | .error d => { result := .error (.invalidRule d), counted := [.invalidRules d.check] }

/-- The rule for a request with its media. -/
def rule (g : Generator) (request : RuleRequest) (media : List MediaReference) :
    Generation Failure Rule := do
  Generation.ofExcept g.ready
  let c ← g.ask (Prompt.assemble request media)
  checked c

end Generator

end VisualRules
