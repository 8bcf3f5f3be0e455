import VisualRules.Proofs.Json.Writing
import VisualRules.Proofs.Rule.Document
import VisualRules.Proofs.Validation.RoundTrip
import VisualRules.Rule.Encoding

/-!
# Written candidates and rules

What is written for a candidate is a text of a document that holds the candidate. So
it is read back as the same candidate, whatever its strings hold and however many
entries its lists have, and what is written for a rule is read back as the rule.
-/

namespace VisualRules

open Json (Tree Value)

/-! ## What the document of a written value holds -/

namespace Json

theorem int64?_ofInt (n : Int64) : Tree.int64? (.number (.ofInt n.toInt)) = some n := by
  have hint : (Numeral.ofInt n.toInt).IsInt64 := by
    refine ⟨⟨rfl, rfl⟩, ?_, ?_⟩ <;> rw [Numeral.integer_ofInt]
    · exact n.le_toInt
    · exact Int.le_of_lt_add_one n.toInt_lt
  have hzero : ¬ (Numeral.ofInt n.toInt).IsMinusZero := by
    rintro ⟨hnegative, hinteger⟩
    rw [Numeral.integer_ofInt] at hinteger
    simp [Numeral.ofInt, hinteger] at hnegative
  rw [int64?_of_isInt64 hint hzero, Numeral.integer_ofInt, Int64.ofInt_toInt]

/-- A list holds what its entries hold. -/
theorem list?_entriesOf {α : Type} {decode : Tree → Option α} {toValue : α → Value}
    (h : ∀ a, decode (.ofValue (toValue a)) = some a) (as : List α) :
    Tree.list? decode (.list (Tree.entriesOf (as.map toValue))) = some as := by
  rw [Tree.entriesOf_eq_map, List.map_map, Tree.list?]
  induction as with
  | nil => rfl
  | cons a as ih => simp [h, ih]

end Json

theorem NodeType.lookup_name (t : NodeType) : NodeType.names.lookup t.name = some t := by
  cases t <;> decide

theorem OperatorTag.lookup_name (t : OperatorTag) :
    OperatorTag.names.lookup t.name = some t := by
  cases t <;> decide

theorem CandidateNode.held_toValue (n : CandidateNode) :
    Tree.record? nodeOf? (.ofValue n.toValue) = some n := by
  simp [CandidateNode.toValue, Tree.ofValue, Tree.membersOf, Tree.record?, nodeOf?, payloadOf?,
    Tree.field?, Tree.string?, Tree.choice?, NodeType.lookup_name, OperatorTag.lookup_name]

theorem Edge.held_toValue (e : Edge) : Tree.record? edgeOf? (.ofValue e.toValue) = some e := by
  simp [Edge.toValue, Tree.ofValue, Tree.membersOf, Tree.record?, edgeOf?, Tree.field?,
    Tree.string?]

theorem CandidateLogic.held_toValue (g : CandidateLogic) :
    Tree.record? logicOf? (.ofValue g.toValue) = some g := by
  simp [CandidateLogic.toValue, Tree.ofValue, Tree.membersOf, Tree.record?, logicOf?,
    Tree.field?, Json.list?_entriesOf CandidateNode.held_toValue,
    Json.list?_entriesOf Edge.held_toValue, Json.int64?_ofInt]

namespace Candidate

theorem held_targets (targets : List String) :
    Tree.record? targetsOf? (.ofValue (.object [("target_objects", .strings targets)])) =
      some targets := by
  have hlist : Tree.list? Tree.string? (.list (Tree.entriesOf (targets.map .string))) =
      some targets := Json.list?_entriesOf (fun _ => rfl) _
  simp [Tree.ofValue, Tree.membersOf, Value.strings, Tree.record?, targetsOf?, Tree.field?, hlist]

/-- The document of what is written for a candidate holds the candidate. -/
theorem held_toValue (c : Candidate) :
    Tree.record? candidateOf? (.ofValue c.toValue) = some c := by
  have halert : Tree.string? (.ofValue (.string c.alertMessage)) = some c.alertMessage := rfl
  rw [Candidate.toValue, Tree.ofValue]
  show candidateOf? (Tree.membersOf _) = _
  simp [Tree.membersOf, candidateOf?, Tree.field?, held_targets, CandidateLogic.held_toValue,
    halert]

/-! ## Its texts -/

theorem spelled_toValue (c : Candidate) (s : Value.Setting) :
    (Tree.ofValue c.toValue).Spelled (c.toValue.write s) := by
  have hedges : ∀ e ∈ c.logic.edges, e.toValue.IntegersOnly := by
    simp [Edge.toValue, Value.IntegersOnly, Value.MembersIntegersOnly]
  have hnodes : ∀ n ∈ c.logic.nodes, n.toValue.IntegersOnly := by
    simp [CandidateNode.toValue, Value.IntegersOnly, Value.MembersIntegersOnly]
  have hintegers : c.toValue.IntegersOnly := by
    simpa [Candidate.toValue, CandidateLogic.toValue, Value.strings, Value.IntegersOnly,
      Value.MembersIntegersOnly, Value.entriesIntegersOnly_iff] using ⟨hnodes, hedges⟩
  exact ⟨[], _, [], Json.gap_nil, Value.spells_write s _ hintegers, Json.gap_nil, by simp⟩

theorem ofText_write (c : Candidate) (s : Value.Setting) :
    Candidate.ofText (String.ofList (c.toValue.write s)) = .ok c :=
  ofText_of_spelled c.held_toValue (by simpa using c.spelled_toValue s)

end Candidate

/-! ## Reading back -/

/-- A candidate is read back from what is written for it, without white space and with
one entry a line, and so is each rule that validation gives. -/
theorem read_back_written :
    (∀ (c : Candidate) (s : Value.Setting),
      Candidate.ofText (String.ofList (c.toValue.write s)) = .ok c) ∧
    ∀ (c : Candidate) (r : Rule) (s : Value.Setting), c.validate = .ok r →
      Rule.ofText (String.ofList (r.toValue.write s)) = .ok r := by
  refine ⟨Candidate.ofText_write, fun c r s h => ?_⟩
  -- The rule is written as the candidate that it was made from, which is valid again.
  have hwritten : r.toCandidate = c := (Candidate.passes_of_validate h).2
  rw [Rule.toValue, hwritten]
  exact Rule.ofText_of_spelled c.held_toValue h (by simpa using c.spelled_toValue s)

/-- A rule whose texts need escapes: quotes, backslashes, controls, a line separator and
characters beyond 16 bits. -/
def escapedRule : Rule where
  targetObjects := ["\"person\"", "C:\\helmet\\", "\u0001\t\n\u001f\u007f"]
  logic :=
    { nodes := [⟨"\u2028", .content "no 🦺\r\n"⟩]
      edges := []
      threshold := .inConditions }
  alertMessage := "\u0000Trage einen „Schutzhelm“/\\u0041"

theorem validate_escapedRule : escapedRule.toCandidate.validate = .ok escapedRule := by
  have htargets : Validation.checkTargets escapedRule.targetObjects = .ok () := rfl
  have hids : Validation.checkNodeIds escapedRule.toCandidate.logic.nodes = .ok () := by
    simp [Validation.checkNodeIds, Validation.nodeIdDefect?, Validation.unless?, escapedRule,
      Rule.toCandidate, Node.toCandidate, CandidateNode.content]
  have hlogic : Validation.checkLogicNodes escapedRule.toCandidate.logic.nodes = .ok () := rfl
  have hnodes : escapedRule.toCandidate.logic.nodes.mapM Validation.settleNode
      = .ok escapedRule.logic.nodes := rfl
  have hedges : Validation.resolveEdges escapedRule.logic.nodes escapedRule.toCandidate.logic.edges
      = .ok [] := by
    simp [Validation.resolveEdges, Validation.firstRepeated?, Validation.unless?, escapedRule,
      Rule.toCandidate]
  rw [Candidate.validate, Validation.validate]
  show (Validation.checkTargets escapedRule.targetObjects >>= _) = _
  simp only [htargets, hids, hlogic, hnodes, hedges, bind, Except.bind]
  rfl

theorem read_back_escapedRule :
    escapedRule.toCandidate.validate = .ok escapedRule ∧
      Rule.ofText escapedRule.toValue.text = .ok escapedRule :=
  ⟨validate_escapedRule, read_back_written.2 _ _ .compact validate_escapedRule⟩

end VisualRules
