import Mathlib.Algebra.BigOperators.Ring.List
import VisualRules.Proofs.Rendering.Counting

/-!
# The size of a rendering

Counting tokens is a weighing in which each token weighs one: a node is one token,
and its group two more for each of its live operands. As each live logic node has
one group in all expressions together, an edge is paid for once, and the number of
tokens is settled by the live edges and the live roots, however many paths lead
through the graph.
-/

namespace VisualRules

namespace TriggerLogic

variable {g : TriggerLogic} {es : List Expression}

open Classical in
/-- The edges whose target is a condition, or leads to one. -/
noncomputable def liveEdges (g : TriggerLogic) : List Edge :=
  g.edges.filter fun e => decide (g.LiveId e.target)

theorem mem_liveEdges {e : Edge} : e ∈ g.liveEdges ↔ e ∈ g.edges ∧ g.LiveId e.target := by
  classical
  rw [liveEdges, List.mem_filter, decide_eq_true_eq]

/-! ## Tokens of a group -/

/-- A node has as many live operands as live edges start at it. -/
theorem WellFormed.length_liveChildren (h : g.WellFormed) (n : Node) :
    (g.liveChildren n).length = g.liveEdges.countP fun e => e.source == n.id := by
  classical
  have hoperands := h.countP_liveChildren n fun _ => true
  simp only [List.countP_true, Bool.true_and] at hoperands
  rw [hoperands, liveEdges, List.countP_filter]

/-- The number of tokens is a weighing. -/
theorem WellFormed.weighs_one (h : g.WellFormed) :
    g.Weighs (fun _ => 1) (fun _ => 1)
      (fun a => 2 * g.liveEdges.countP fun e => e.source == a) where
  condition := by
    intro n hn label kind
    rfl
  reference := by
    intro n hn op kind
    rfl
  group := by
    intro n hn op kind hoperands
    have hpos : 0 < (g.liveChildren n).length := List.length_pos_iff.mpr hoperands
    have hsum : ((g.liveChildren n).map fun _ => 1).sum = (g.liveChildren n).length := by
      rw [List.map_const', List.sum_replicate_nat, Nat.mul_one]
    rw [hsum, ← h.length_liveChildren n]
    omega

/-! ## Tokens of a graph -/

/-- Each live edge starts at one live logic node. -/
theorem WellFormed.sum_liveEdges (h : g.WellFormed) :
    (g.liveLogicNodes.map fun n => g.liveEdges.countP fun e => e.source == n.id).sum
      = g.liveEdges.length := by
  have hsources : ∀ e ∈ g.liveEdges, true = true → e.source ∈ g.liveLogicNodes.map Node.id := by
    intro e he _
    obtain ⟨hmem, hlive⟩ := mem_liveEdges.mp he
    exact h.source_mem_liveLogicNodes hmem hlive
  have hsum := sum_countP_of_nodup h.nodup_liveLogicNodes Edge.source (fun _ => true) hsources
  rw [List.map_map, List.countP_true] at hsum
  simp only [Bool.and_true] at hsum
  exact hsum

/-- **How many tokens a rendering has.** -/
theorem Linearised.length_tokens (hes : g.Linearised es) (h : g.WellFormed) :
    (es.map fun e => e.tokens.length).sum = 2 * g.liveEdges.length + g.liveRoots.length := by
  have hweight := hes.sum_weight h h.weighs_one
  have hroots : (g.liveRoots.map fun _ => 1).sum = g.liveRoots.length := by
    rw [List.map_const', List.sum_replicate_nat, Nat.mul_one]
  have htokens : ((es.flatMap Expression.tokens).map fun _ => 1).sum
      = (es.map fun e => e.tokens.length).sum := by
    rw [List.map_const', List.sum_replicate_nat, Nat.mul_one, List.length_flatMap]
  rw [htokens, hroots, List.sum_map_mul_left, h.sum_liveEdges] at hweight
  rw [hweight]
  omega

theorem length_liveEdges_le (g : TriggerLogic) : g.liveEdges.length ≤ g.edges.length :=
  List.length_filter_le _ _

theorem length_liveRoots_le (g : TriggerLogic) : g.liveRoots.length ≤ g.nodes.length := by
  calc g.liveRoots.length
      ≤ g.roots.length := List.length_filter_le _ _
    _ ≤ g.nodes.length := List.length_filter_le _ _

end TriggerLogic

/-! ## The whole rule -/

namespace Rule

variable {c : Candidate} {r : Rule}

/-- **The size of a rendering is linear in the graph.** All expressions of a rule have
two tokens together for each edge to a node that is a condition or leads to one, and
one for each root of this kind. -/
theorem length_tokens_of_validate (h : c.validate = .ok r) :
    (r.expressions.map fun e => e.tokens.length).sum
        = 2 * r.logic.liveEdges.length + r.logic.liveRoots.length
      ∧ (r.expressions.map fun e => e.tokens.length).sum
        ≤ 2 * r.logic.edges.length + r.logic.nodes.length := by
  have hwell := wellFormed_of_validate h
  have hes : r.logic.Linearised r.expressions := hwell.linearised_expressions
  have hlength := hes.length_tokens hwell
  have hedges := r.logic.length_liveEdges_le
  have hroots := r.logic.length_liveRoots_le
  constructor
  · exact hlength
  · rw [hlength]
    omega

/-- A gate below two roots and a condition below two edges are written once for each
edge. -/
theorem length_tokens_sharedRule : sharedRule.toCandidate.validate = .ok sharedRule
    ∧ (sharedRule.expressions.map fun e => e.tokens.length).sum
      = 2 * sharedRule.logic.liveEdges.length + sharedRule.logic.liveRoots.length
    ∧ (sharedRule.expressions.map fun e => e.tokens.length).sum
      ≤ 2 * sharedRule.logic.edges.length + sharedRule.logic.nodes.length :=
  ⟨validate_sharedRule, length_tokens_of_validate validate_sharedRule⟩

end Rule

end VisualRules
