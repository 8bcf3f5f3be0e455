import VisualRules.Proofs.Validation.Shape

/-!
# Which candidates are rules

The checks are made in the order of their numbers. A candidate becomes a rule
exactly when it satisfies all eight conditions, and the rule is written as the
candidate was. A candidate that does not is turned down for the first
condition that it fails, with a true report.
-/

namespace VisualRules

open Relation

theorem Check.number_injective : Check.number.Injective := by
  intro a b h
  cases a <;> cases b <;> first | rfl | cases h

namespace Candidate

variable {c : Candidate} {d : Defect}

/-! ## Conditions as freedom from faults -/

theorem passes_uniqueNodeIds_iff :
    c.Passes .uniqueNodeIds ↔ Free CandidateNode.IdFault c.logic.nodes := by
  unfold CandidateNode.IdFault
  rw [free_or, free_iff_forall, free_repeat_iff]
  rfl

theorem passes_logicNodeShape_iff :
    c.Passes .logicNodeShape ↔ Free (fun _ => CandidateNode.LogicFault) c.logic.nodes := by
  rw [free_iff_forall]
  simp [Passes, CandidateNode.LogicFault]

theorem passes_contentNodeShape_iff : c.Passes .contentNodeShape
    ↔ Free (fun _ => CandidateNode.ContentFault) c.logic.nodes := by
  rw [free_iff_forall]
  simp [Passes, CandidateNode.ContentFault]

theorem passes_edgeReferences_iff : c.Passes .edgeReferences
    ↔ Free (fun before e => e.id ∈ before.map Edge.id) c.logic.edges
      ∧ Free (fun _ => c.logic.Dangling) c.logic.edges := by
  rw [free_repeat_iff, free_iff_forall]
  simp [Passes, CandidateLogic.Dangling]

/-! ## What a report rules out -/

theorem not_meets_of_shows {clause : ShapeClause} (h : c.Shows d)
    (hclause : d.clause? = some clause) : ¬ c.logic.Meets clause := by
  intro hmeets
  cases d with
  | noConditions =>
      cases hclause
      obtain ⟨n, hn, htype⟩ := hmeets
      exact h n hn htype
  | missingLogicNode conditions =>
      cases hclause
      obtain ⟨hall, hlt, hcount⟩ := h
      have hone := hmeets hall
      omega
  | contentNodeHasChildren edge node =>
      cases hclause
      obtain ⟨before, e, hfirst, -⟩ := h
      exact hmeets e hfirst.mem hfirst.faulty
  | cycle node =>
      cases hclause
      exact hmeets node h.2
  | detachedCondition id =>
      cases hclause
      obtain ⟨hlen, before, n, hfirst, -⟩ := h
      obtain ⟨htype, hnone⟩ := hfirst.faulty
      obtain ⟨e, he, htarget⟩ := hmeets hlen n hfirst.mem htype
      exact hnone e he htarget
  | disconnectedNode id =>
      cases hclause
      obtain ⟨hlen, before, n, hfirst, -⟩ := h
      cases hnodes : c.logic.nodes with
      | nil => simp [hnodes] at hlen
      | cons m nodes =>
          have hhead : c.logic.nodes.head? = some m := by rw [hnodes]; rfl
          have hm : m ∈ c.logic.nodes := List.mem_of_head? hhead
          exact hfirst.faulty m hhead (hmeets hlen m hm n hfirst.mem)
  | _ => cases hclause

theorem clause?_isSome_of_check (h : d.check = .graphShape) :
    ∃ clause, d.clause? = some clause := by
  cases d <;> first | exact ⟨_, rfl⟩ | cases h

theorem check_of_clause? {clause : ShapeClause} (h : d.clause? = some clause) :
    d.check = .graphShape := by
  cases d <;> first | rfl | cases h

/-- A true report keeps the candidate from passing the check that it comes
from. -/
theorem not_passes_of_shows (h : c.Shows d) : ¬ c.Passes d.check := by
  -- A defect of the graph breaks its own clause; the others break their check as a whole.
  by_cases hgraph : d.check = .graphShape
  · obtain ⟨clause, hclause⟩ := clause?_isSome_of_check hgraph
    intro hpasses
    rw [hgraph] at hpasses
    exact not_meets_of_shows h hclause (hpasses clause)
  cases d with
  | noTargetObjects => exact fun hpasses => hpasses.1 h
  | blankTargetObject index =>
      obtain ⟨before, t, hfirst, -⟩ := h
      exact fun hpasses => hpasses.2 t hfirst.mem hfirst.faulty
  | emptyNodeId _ | duplicateNodeId _ =>
      obtain ⟨before, n, hfirst, -⟩ := h
      exact fun hpasses => hfirst.not_free (passes_uniqueNodeIds_iff.mp hpasses)
  | missingLogicOperator id | labelOnLogicNode id =>
      obtain ⟨before, n, hfirst, -⟩ := h
      exact fun hpasses => hfirst.not_free (passes_logicNodeShape_iff.mp hpasses)
  | operatorOnContentNode id | emptyContentLabel id =>
      obtain ⟨before, n, hfirst, -⟩ := h
      exact fun hpasses => hfirst.not_free (passes_contentNodeShape_iff.mp hpasses)
  | duplicateEdgeId id =>
      obtain ⟨before, e, hfirst, -⟩ := h
      exact fun hpasses => hfirst.not_free (passes_edgeReferences_iff.mp hpasses).1
  | danglingEdge edge node =>
      obtain ⟨-, before, e, hfirst, -⟩ := h
      exact fun hpasses => hfirst.not_free (passes_edgeReferences_iff.mp hpasses).2
  | invalidThreshold value =>
      obtain ⟨rfl, hnot⟩ := h
      exact hnot
  | emptyAlertMessage => exact fun hpasses => hpasses h
  | _ => exact absurd rfl hgraph

/-! ## The order of the checks -/

theorem passesBefore_first (c : Candidate) : c.PassesBefore .targetObjects :=
  holdsBefore_first fun k => by cases k <;> decide

theorem PassesBefore.next {a b : Check} (h : c.PassesBefore a) (ha : c.Passes a)
    (hb : b.number = a.number + 1) : c.PassesBefore b :=
  HoldsBefore.next Check.number_injective h ha hb

theorem PassesBefore.all (h : c.PassesBefore .alertMessage)
    (hlast : c.Passes .alertMessage) : ∀ k, c.Passes k :=
  HoldsBefore.all Check.number_injective h hlast fun k => by cases k <;> decide

/-- A check before which all are passed turns a candidate down truly when it
reports truly. -/
theorem settles_rejected {α : Type} {x : Except Defect α} {good : α → Prop} {k : Check}
    (hx : Settles x good fun d => d.check = k ∧ c.Shows d)
    (hk : k ≠ .graphShape) (hbefore : c.PassesBefore k) : Settles x good c.Rejected := by
  refine hx.mono (fun _ h => h) ?_
  rintro d ⟨rfl, hshows⟩
  exact ⟨hbefore, not_passes_of_shows hshows,
    fun _ hclause => absurd (check_of_clause? hclause) hk, hshows⟩

theorem settles_rejected_shape {α : Type} {x : Except Defect α} {good : α → Prop}
    (hx : Settles x good (ShapeReport c)) (hbefore : c.PassesBefore .graphShape) :
    Settles x good c.Rejected := by
  refine hx.mono (fun _ h => h) ?_
  rintro d ⟨hcheck, hshows, hclauses⟩
  refine ⟨hcheck ▸ hbefore, not_passes_of_shows hshows, fun clause hclause => ?_, hshows⟩
  exact ⟨not_meets_of_shows hshows hclause, hclauses clause hclause⟩

/-! ## The outcome -/

theorem settles_validate (c : Candidate) :
    Settles c.validate (fun r => (∀ k, c.Passes k) ∧ r.toCandidate = c) c.Rejected := by
  -- Each check adds its condition to those that are known to hold before the next.
  have hbefore := c.passesBefore_first
  unfold validate Validation.validate
  refine (settles_rejected (Validation.settles_checkTargets c) (by decide) hbefore).bind
    fun _ htargets => ?_
  have hbefore := hbefore.next (b := .uniqueNodeIds) htargets rfl
  refine (settles_rejected (Validation.settles_checkNodeIds c) (by decide) hbefore).bind
    fun _ hids => ?_
  have hbefore := hbefore.next (b := .logicNodeShape) hids rfl
  refine (settles_rejected (Validation.settles_checkLogicNodes c) (by decide) hbefore).bind
    fun _ hlogic => ?_
  have hbefore := hbefore.next (b := .contentNodeShape) hlogic rfl
  refine (settles_rejected (Validation.settles_settleNodes hlogic) (by decide) hbefore).bind
    fun nodes hnodes => ?_
  obtain ⟨hcontent, hwritten⟩ := hnodes
  have hbefore := hbefore.next (b := .edgeReferences) hcontent rfl
  have hnodeIds : nodes.map Node.id = c.logic.ids := by
    rw [CandidateLogic.ids, ← hwritten, List.map_map]
    exact List.map_congr_left fun n _ => n.toCandidate_id.symm
  refine (settles_rejected (Validation.settles_resolveEdges hnodeIds hids.2) (by decide)
    hbefore).bind fun links hlinks => ?_
  obtain ⟨hedges, hplaced⟩ := hlinks
  have hbefore := hbefore.next (b := .graphShape) hedges rfl
  refine (settles_rejected_shape (Validation.settles_checkShape ⟨hwritten, hplaced⟩)
    hbefore).bind fun _ hshape => ?_
  have hbefore := hbefore.next (b := .temporalThreshold) hshape rfl
  refine (settles_rejected (Validation.settles_settleThreshold c) (by decide) hbefore).bind
    fun threshold hsettled => ?_
  obtain ⟨hthreshold, hseconds⟩ := hsettled
  have hbefore := hbefore.next (b := .alertMessage) hthreshold rfl
  by_cases hblank : Text.trim c.alertMessage = ""
  · rw [if_pos (Text.isBlank_iff.mpr hblank)]
    exact ⟨hbefore, fun hpasses => hpasses hblank, by rintro _ ⟨⟩, hblank⟩
  · rw [if_neg (fun h => hblank (Text.isBlank_iff.mp h))]
    refine ⟨hbefore.all hblank, ?_⟩
    rw [Rule.toCandidate, hwritten, hseconds]

/-- A candidate becomes a rule exactly when it satisfies all eight conditions:
no candidate that breaks one becomes a rule, and none that satisfies them all
is turned down. -/
theorem validate_eq_ok_iff (c : Candidate) :
    (∃ r, c.validate = .ok r) ↔ ∀ k, c.Passes k := by
  have hsettles := c.settles_validate
  constructor
  · rintro ⟨r, hr⟩
    rw [hr] at hsettles
    exact hsettles.1
  · intro hpasses
    cases hv : c.validate with
    | ok r => exact ⟨r, rfl⟩
    | error d =>
        rw [hv] at hsettles
        exact absurd (hpasses d.check) hsettles.broken

/-- A candidate that is turned down fails the condition that the defect belongs
to and no earlier one, and what the defect names is the first fault. -/
theorem rejected_of_validate {c : Candidate} {d : Defect} (h : c.validate = .error d) :
    c.Rejected d := by
  have hsettles := c.settles_validate
  rw [h] at hsettles
  exact hsettles

/-! ## Two gates that are operands of each other -/

/-- Two gates that are operands of each other, and a condition under the
second. -/
def crossed : Candidate where
  targetObjects := ["person"]
  logic :=
    { nodes := [.logic "g" .and, .logic "h" .or, .content "c" "a person falls"]
      edges := [⟨"e1", "g", "h"⟩, ⟨"e2", "h", "g"⟩, ⟨"e3", "h", "c"⟩]
      thresholdSeconds := -1 }
  alertMessage := "help"

def crossedNodes : List Node :=
  [⟨"g", .logic .and⟩, ⟨"h", .logic .or⟩, ⟨"c", .content "a person falls"⟩]

theorem checkNodeIds_crossed : Validation.checkNodeIds crossed.logic.nodes = .ok () := by
  simp [Validation.checkNodeIds, Validation.nodeIdDefect?, Validation.unless?, crossed,
    CandidateNode.logic, CandidateNode.content]

theorem resolveEdges_crossed : Validation.resolveEdges crossedNodes crossed.logic.edges
    = .ok [(0, 1), (1, 0), (1, 2)] := by
  simp [Validation.resolveEdges, Validation.firstRepeated?, Validation.unless?,
    Validation.resolve, TriggerLogic.places, crossed, crossedNodes,
    Std.HashMap.getElem_insert]
  rfl

theorem validate_crossed : crossed.validate = .error (.cycle "g") := by
  have htargets : Validation.checkTargets crossed.targetObjects = .ok () := rfl
  have hlogic : Validation.checkLogicNodes crossed.logic.nodes = .ok () := rfl
  have hnodes : crossed.logic.nodes.mapM Validation.settleNode = .ok crossedNodes := rfl
  rw [validate, Validation.validate, htargets, checkNodeIds_crossed, hlogic, hnodes]
  show (Validation.resolveEdges crossedNodes crossed.logic.edges >>= _) = _
  rw [resolveEdges_crossed]
  rfl

/-- Crossed gates are turned down for their cycle, which is named by the gate
that the search came from. -/
theorem rejected_crossed : crossed.validate = .error (.cycle "g")
    ∧ crossed.Rejected (.cycle "g") :=
  ⟨validate_crossed, rejected_of_validate validate_crossed⟩

end Candidate

/-! ## Two roots that share a gate -/

/-- Two roots that share the gate `both`; of the second, the other operand is
not live. -/
def sharedRule : Rule where
  targetObjects := ["person"]
  logic :=
    { nodes := [⟨"any", .logic .or⟩, ⟨"both", .logic .and⟩, ⟨"also", .logic .and⟩,
        ⟨"spare", .logic .or⟩, ⟨"hat", .content "no hat"⟩, ⟨"glove", .content "no glove"⟩]
      edges := [⟨"e1", "any", "both"⟩, ⟨"e2", "any", "hat"⟩, ⟨"e3", "both", "hat"⟩,
        ⟨"e4", "both", "glove"⟩, ⟨"e5", "also", "spare"⟩, ⟨"e6", "also", "both"⟩]
      threshold := .inConditions }
  alertMessage := "protect yourself"

theorem validate_sharedRule : sharedRule.toCandidate.validate = .ok sharedRule := by
  have htargets : Validation.checkTargets sharedRule.toCandidate.targetObjects = .ok () := rfl
  have hids : Validation.checkNodeIds sharedRule.toCandidate.logic.nodes = .ok () := by
    simp [Validation.checkNodeIds, Validation.nodeIdDefect?, Validation.unless?,
      Rule.toCandidate, sharedRule]
  have hlogic : Validation.checkLogicNodes sharedRule.toCandidate.logic.nodes = .ok () := rfl
  have hnodes : sharedRule.toCandidate.logic.nodes.mapM Validation.settleNode
      = .ok sharedRule.logic.nodes := rfl
  have hedges : Validation.resolveEdges sharedRule.logic.nodes sharedRule.logic.edges
      = .ok [(0, 1), (0, 4), (1, 4), (1, 5), (2, 3), (2, 1)] := by
    simp [Validation.resolveEdges, Validation.firstRepeated?, Validation.unless?,
      Validation.resolve, TriggerLogic.places, sharedRule, Std.HashMap.getElem_insert]
    rfl
  rw [Candidate.validate, Validation.validate, htargets, hids, hlogic, hnodes]
  show (Validation.resolveEdges sharedRule.logic.nodes sharedRule.logic.edges >>= _) = _
  rw [hedges]
  rfl

end VisualRules
