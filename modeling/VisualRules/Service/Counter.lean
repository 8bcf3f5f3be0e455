import VisualRules.Failure

/-!
# Counters

What the service counts since it started, and the lines that report it. A counter is reported once
it has counted something.
-/

namespace VisualRules

/-- The tasks that the service does on request. -/
inductive ServiceTask
  | generateRule
  | validateRule
deriving DecidableEq, Repr

/-- The written name of a task. -/
def ServiceTask.name : ServiceTask → String
  | .generateRule => "generate-rule"
  | .validateRule => "validate-rule"

/-- What is counted. -/
inductive Counter
  | requests (task : ServiceTask)
  /-- Candidates that a check refused. -/
  | invalidRules (check : Check)
  /-- Calls of the model that failed, by the label of the failure. -/
  | modelFailures (label : String)
  /-- Files that are neither image nor video. -/
  | skippedMedia
deriving DecidableEq, Repr

namespace Counter

/-- A label of a counter and its value, as reported. -/
def labelText (label value : String) : String :=
  "\x7b" ++ label ++ "=\"" ++ value ++ "\"\x7d"

/-- The reported name of a counter. -/
def text : Counter → String
  | .requests task => "rulesmith_requests_total" ++ labelText "endpoint" task.name
  | .invalidRules check =>
    "rulesmith_validation_failures_total" ++ labelText "rule" (toString check.number)
  | .modelFailures label => "rulesmith_upstream_errors_total" ++ labelText "kind" label
  | .skippedMedia => "rulesmith_media_skipped_total"

/-- What is counted when a candidate was wanted of the model. -/
def ofGenerated {α : Type} : Except Failure α → List Counter
  | .error (.model f) => [.modelFailures f.label]
  | _ => []

end Counter

/-- The counters that have counted something, each with its count. -/
abbrev Counters := List (Counter × Nat)

namespace Counters

/-- Counts once more. -/
def add (c : Counter) : Counters → Counters
  | [] => [(c, 1)]
  | (d, n) :: rest => if c = d then (d, n + 1) :: rest else (d, n) :: add c rest

/-- Counts several times. -/
def addAll (cs : Counters) (new : List Counter) : Counters :=
  new.foldl (fun cs c => cs.add c) cs

/-- The count of a counter. -/
def count (cs : Counters) (c : Counter) : Nat :=
  (cs.lookup c).getD 0

/-- The report, one line a counter, in the order of their texts. -/
def lines (cs : Counters) : List String :=
  (cs.map fun (c, n) => c.text ++ " " ++ toString n).mergeSort (· ≤ ·)

end Counters

end VisualRules
