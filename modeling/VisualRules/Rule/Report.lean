import VisualRules.Rule.Decoding
import VisualRules.Rule.Expression

/-!
# Reports

A report describes a rule document for people: the objects to look for, one line for each
expression, the duration and the alert. A document that holds no rule is explained by the causes
of the refusal, outermost first.
-/

namespace VisualRules

namespace Rule

/-- The line on the duration. -/
def durationLine : Threshold → String
  | .inConditions => "Sustained for: see conditions"
  | .seconds count _ _ => "Sustained for: " ++ toString count ++ "s"

/-- The report on a rule; the last line has no end of its own. -/
def report (r : Rule) : String :=
  "Targets: " ++ ", ".intercalate r.targetObjects ++ "\n" ++
  (r.expressions.foldl (fun out e => out ++ "Trigger: " ++ e.text ++ "\n") "") ++
  durationLine r.logic.threshold ++ "\n" ++
  "Alert: " ++ r.alertMessage

end Rule

/-- Why there is no report on a document. -/
inductive ReportRefusal
  /-- The file cannot be read. -/
  | unreadable (path : String) (reason : String)
  | noDocument (path : String) (refusal : Json.Refusal)
  | invalid (defect : Defect)

/-- The causes of a refusal, outermost first. -/
def ReportRefusal.causes : ReportRefusal → List String
  | .unreadable path reason => ["Failed to read " ++ path, reason]
  | .noDocument path refusal => [path ++ " is not a rule document", refusal.message]
  | .invalid defect => ["Invalid rule (" ++ defect.check.text ++ "): " ++ defect.message]

/-- The report on a document, which is given with its path or with the reason why it cannot be
read. -/
def reportOn (path : String) (content : Except String String) : Except ReportRefusal String := do
  let text ← content.mapError (.unreadable path)
  let candidate ← (Candidate.ofText text).mapError (.noDocument path)
  let rule ← candidate.validate.mapError .invalid
  return rule.report

end VisualRules
