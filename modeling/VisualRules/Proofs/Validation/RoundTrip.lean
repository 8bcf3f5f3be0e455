import VisualRules.Proofs.Validation.WellFormed

/-!
# Validation and back

A rule is written as the candidate that it was made from, so that validating
loses and invents nothing: what was written can be validated again, and it is
the only candidate that gives the rule.
-/

namespace VisualRules

theorem Rule.toCandidate_of_validate {c : Candidate} {r : Rule} (h : c.validate = .ok r) :
    r.toCandidate = c ∧ r.toCandidate.validate = .ok r ∧
      ∀ c', c'.validate = .ok r → c' = c := by
  have hwritten : r.toCandidate = c := (Candidate.passes_of_validate h).2
  refine ⟨hwritten, ?_, ?_⟩
  · rw [hwritten]
    exact h
  · intro c' h'
    rw [← (Candidate.passes_of_validate h').2, hwritten]

/-! ## Texts with white space around them -/

/-- All texts have white space around them, ids differ in it alone, and the
duration is the longest one. -/
def spacedCandidate : Candidate where
  targetObjects := [" person ", "\thelmet"]
  logic :=
    { nodes := [.logic " " .or, .content "  " " no helmet ", .content "c" "no helmet\n"]
      edges := [⟨"", " ", "c"⟩, ⟨" ", " ", "  "⟩]
      thresholdSeconds := 4294967295 }
  alertMessage := " wear it "

def spacedRule : Rule where
  targetObjects := [" person ", "\thelmet"]
  logic :=
    { nodes := [⟨" ", .logic .or⟩, ⟨"  ", .content " no helmet "⟩,
        ⟨"c", .content "no helmet\n"⟩]
      edges := [⟨"", " ", "c"⟩, ⟨" ", " ", "  "⟩]
      threshold := .seconds 4294967295 (by decide) (by decide) }
  alertMessage := " wear it "

theorem validate_spacedCandidate : spacedCandidate.validate = .ok spacedRule := by
  have htargets : Validation.checkTargets spacedCandidate.targetObjects = .ok () := rfl
  have hids : Validation.checkNodeIds spacedCandidate.logic.nodes = .ok () := by
    simp [Validation.checkNodeIds, Validation.nodeIdDefect?, Validation.unless?,
      spacedCandidate, CandidateNode.logic, CandidateNode.content]
  have hlogic : Validation.checkLogicNodes spacedCandidate.logic.nodes = .ok () := rfl
  have hnodes : spacedCandidate.logic.nodes.mapM Validation.settleNode
      = .ok spacedRule.logic.nodes := rfl
  have hedges : Validation.resolveEdges spacedRule.logic.nodes spacedCandidate.logic.edges
      = .ok [(0, 2), (0, 1)] := by
    simp [Validation.resolveEdges, Validation.firstRepeated?, Validation.unless?,
      Validation.resolve, TriggerLogic.places, spacedRule, spacedCandidate,
      Std.HashMap.getElem_insert]
    rfl
  rw [Candidate.validate, Validation.validate, htargets, hids, hlogic, hnodes]
  show (Validation.resolveEdges spacedRule.logic.nodes spacedCandidate.logic.edges >>= _) = _
  rw [hedges]
  rfl

theorem toCandidate_spacedRule : spacedCandidate.validate = .ok spacedRule ∧
    spacedRule.toCandidate = spacedCandidate ∧
    spacedRule.toCandidate.validate = .ok spacedRule ∧
    ∀ c', c'.validate = .ok spacedRule → c' = spacedCandidate :=
  ⟨validate_spacedCandidate, Rule.toCandidate_of_validate validate_spacedCandidate⟩

end VisualRules
