import VisualRules.Proofs.Graph.Survey
import VisualRules.Proofs.Rendering.Roots

/-!
# Writing comes to an end

The writing of a root works off its pending pieces under a bound. Here it is a loop
without a bound, which writes a token in each step and ends for every root of a rule.
Both loops that a rule goes through on its way to expressions, the search for live
nodes before and this one, end because the graph has no cycle.
-/

namespace VisualRules

namespace Outline

variable {o : Outline} {operands : Node → List Node} {earlier : List Token}

/-! ## The loop of one root -/

/-- Takes the next pending piece, if there is one. -/
def next (o : Outline) (s : Writing) : Option Writing :=
  match s.tasks with
  | [] => none
  | _ :: _ => some (o.step s)

theorem next_of_done {s : Writing} (h : s.tasks = []) : o.next s = none := by
  rw [next, h]

theorem next_of_pending {s : Writing} (h : s.tasks ≠ []) : o.next s = some (o.step s) := by
  cases htasks : s.tasks with
  | nil => exact absurd htasks h
  | cons task tasks => rw [next, htasks]

/-- A bounded run that leaves nothing pending is the whole loop, which has taken a step
for each token. -/
theorem endsAfter_run {n : Nat} {s : Writing} (h : (o.run n s).tasks = []) :
    ∃ k, EndsAfter o.next k s (o.run n s)
      ∧ (o.run n s).tokens.length = s.tokens.length + k := by
  induction n generalizing s with
  | zero => exact ⟨0, .here (next_of_done h), rfl⟩
  | succ n ih =>
      by_cases htasks : s.tasks = []
      · rw [run_of_done _ htasks] at h ⊢
        exact ⟨0, .here (next_of_done htasks), rfl⟩
      · rw [run_succ _ htasks] at h ⊢
        obtain ⟨k, hend, hlength⟩ := ih h
        obtain ⟨t, hwrites⟩ := o.writes_step htasks
        refine ⟨k + 1, .step (next_of_pending htasks) hend, ?_⟩
        rw [hlength, hwrites.tokens, List.length_cons]
        omega

/-! ## The loops of several roots -/

/-- The expressions of several roots, one after the other, when the loop of each live
root is left to run to its end. -/
inductive Completes (o : Outline) : Array Bool → List Nat → List Expression → Prop
  | nil {x : Array Bool} : Completes o x [] []
  | dead {x : Array Bool} {v : Nat} {vs : List Nat} {es : List Expression}
      (dead : ¬ o.LiveAt v) (rest : Completes o x vs es) :
      Completes o x (v :: vs) (⟨(o.nodeAt v).id, []⟩ :: es)
  | live {x : Array Bool} {v : Nat} {vs : List Nat} {es : List Expression} {s : Writing}
      (live : o.LiveAt v)
      (ends : EndsAfter o.next s.tokens.length ⟨x, [], [.visit v]⟩ s)
      (rest : Completes o s.expanded vs es) :
      Completes o x (v :: vs) (⟨(o.nodeAt v).id, s.tokens.reverse⟩ :: es)

theorem completes_writeRoots (ho : o.Sound) (hlists : o.Lists operands) (vs : List Nat)
    {x : Array Bool} (h : o.Rest earlier x) (hvs : ∀ v ∈ vs, v < o.nodes.size) :
    Completes o x vs (o.writeRoots o.taskBound x vs) := by
  induction vs generalizing x earlier with
  | nil => exact .nil
  | cons v vs ih =>
      have hv := hvs v (by simp)
      have hrest := (writeRoot_spec ho hlists h hv).1
      have hcompletes := ih hrest fun w hw => hvs w (by simp [hw])
      rw [writeRoots]
      by_cases hlive : o.LiveAt v
      · rw [writeRoot_of_live hlive] at hcompletes ⊢
        have hdone := ((h.start hlive hv).run ho hlists (writeWork_start_le o x v)).2.1
        obtain ⟨k, hend, hlength⟩ := endsAfter_run hdone
        rw [List.length_nil, Nat.zero_add] at hlength
        exact .live hlive (hlength ▸ hend) hcompletes
      · rw [writeRoot_of_dead hlive] at hcompletes ⊢
        exact .dead hlive hcompletes

end Outline

/-! ## From a graph to its expressions -/

namespace TriggerLogic

/-- What is to be said of the way from a graph to its expressions when no loop on it
has a bound: the live nodes are found, and the writing of each root ends with its
expression. -/
structure Completes (g : TriggerLogic) : Prop where
  surveyed : g.digraph.Surveyed fun v => (g.outline.nodeAt v).isContent
  live_iff : ∀ v, v < g.nodes.length → (g.outline.LiveAt v ↔ g.Live (g.outline.nodeAt v))
  places : (rootPlaces g.nodes.length g.resolved).map g.outline.nodeAt = g.roots
  written : g.outline.Completes (Array.replicate g.nodes.length false)
    (rootPlaces g.nodes.length g.resolved) g.expressions

theorem WellFormed.completes {g : TriggerLogic} (h : g.WellFormed) : g.Completes where
  surveyed := Digraph.surveyed_of_acyclic h.acyclic_digraph h.inRange_digraph _
  live_iff _ hv := h.liveAt_iff hv
  places := h.map_rootPlaces
  written := by
    refine Outline.completes_writeRoots h.sound_outline h.lists_outline _ (rest_outline g)
      fun v hv => ?_
    rw [size_nodes_outline]
    exact (h.mem_rootPlaces.mp hv).1

end TriggerLogic

/-- **The search for live nodes and the writing of a rule come to an end.** The search
does in every graph without cycles, for any marking of its nodes, and the writing does
for every root of a rule. -/
theorem survey_and_writing_end :
    (∀ (g : Digraph) (isMarked : Nat → Bool), g.Acyclic → g.InRange → g.Surveyed isMarked)
      ∧ ∀ (c : Candidate) (r : Rule), c.validate = .ok r → r.logic.Completes :=
  ⟨fun _ isMarked hg hrange => Digraph.surveyed_of_acyclic hg hrange isMarked,
    fun _ _ h => (Rule.wellFormed_of_validate h).completes⟩

/-- Two edges to a node that leads on to a last one, and one to a node that does not. -/
def Digraph.forked : Digraph :=
  ⟨#[[1, 1, 2], [3], [], []]⟩

theorem Digraph.acyclic_forked : forked.Acyclic :=
  cycleNode?_eq_none_iff.mp rfl

theorem Digraph.inRange_forked : forked.InRange := by
  have hall : ∀ v < 4, ∀ w ∈ forked.children v, w < 4 := by decide
  exact fun v w hstep => hall v hstep.lt_size w hstep

/-- Twelve steps tell from which nodes the last one can be reached. -/
theorem survey_and_writing_end_forked : Digraph.forked.Acyclic ∧ Digraph.forked.InRange
    ∧ EndsAfter (Digraph.Survey.next .forked (· == 3)) 12 (.initial .forked)
      ⟨#[some true, some true, some false, some true], [], []⟩
    ∧ sharedRule.toCandidate.validate = .ok sharedRule ∧ sharedRule.logic.Completes := by
  obtain ⟨hsurvey, hwriting⟩ := survey_and_writing_end
  have hforked := hsurvey .forked (· == 3) Digraph.acyclic_forked Digraph.inRange_forked
  exact ⟨Digraph.acyclic_forked, Digraph.inRange_forked, hforked.ends, validate_sharedRule,
    hwriting _ _ validate_sharedRule⟩

end VisualRules
