import VisualRules.Proofs.Graph.Cycle

/-!
# The whole search for a cycle

The search for a cycle is made from each node in turn, under a bound on its
steps. Here all its states stand in one row without a bound. Each step of the
row keeps the marks and the path in agreement and leaves less to do, so that
the row ends, and it ends with the answer of the bounded search.
-/

namespace VisualRules.Digraph

open Relation

/-- A state of the whole search: where the search that is being made stands,
and the nodes from which it has yet to be made. -/
structure Sweep where
  search : CycleSearch
  starts : List Nat

/-- What one step of the whole search leads to. -/
inductive SweepStep
  | going (s : Sweep)
  /-- The search is over, with the node that it found, if it found one. -/
  | ended (found : Option Nat)

namespace Sweep

/-- The state in which no node has been visited. -/
def initial (g : Digraph) : Sweep :=
  ⟨⟨Array.replicate g.size .unvisited, []⟩, List.range g.size⟩

/-- Takes the next step of the search that is being made. When its path is
empty, the next node is started from, unless it has been visited. -/
def step (g : Digraph) (s : Sweep) : SweepStep :=
  match s.search.step g with
  | .going search => .going ⟨search, s.starts⟩
  | .closed v => .ended (some v)
  | .finished marks =>
    match s.starts with
    | [] => .ended none
    | v :: starts =>
      if marks.getD v .done = .unvisited then .going ⟨.start g marks v, starts⟩
      else .going ⟨⟨marks, []⟩, starts⟩

/-- The state after a number of steps. A search that is over stays as it is. -/
def after (g : Digraph) : Nat → Sweep
  | 0 => initial g
  | n + 1 =>
    match (after g n).step g with
    | .going s => s
    | .ended _ => after g n

/-- What the whole search still has to do. -/
def work (g : Digraph) (s : Sweep) : Nat :=
  s.search.work g + s.starts.length

/-- What the bounded search finds when it goes on from a state. -/
def answer (g : Digraph) (s : Sweep) : Option Nat :=
  match s.search.run g g.stepBound with
  | .ok marks => cycleFrom g g.stepBound marks s.starts
  | .error v => some v

end Sweep

namespace CycleSearch

variable {g : Digraph}

/-- The marks of a search and its path agree: what is in progress is the path
that leads to where the search stands, and what is done is behind it. -/
structure Coherent (g : Digraph) (s : CycleSearch) : Prop where
  inProgress : ∀ v, s.mark v = .inProgress ↔ v ∈ s.path.map Frame.node
  nodup : (s.path.map Frame.node).Nodup
  directed : (s.path.map Frame.node).reverse.IsChain g.Step
  apart : ∀ v w, s.mark v = .done → ReflTransGen g.Step v w → s.mark w ≠ .inProgress
  closed : ∀ v w, s.mark v = .done → g.Step v w → s.mark w = .done

theorem Inv.coherent {s : CycleSearch} (h : Inv g s) : s.Coherent g where
  inProgress := h.inProgress
  nodup := h.nodup
  directed := List.isChain_reverse.mpr h.path.isChain
  apart v w hv hw := by
    rw [h.reflTransGen_done hv hw]
    decide
  closed := h.closed

/-- Any two bounds that exceed the work of a search give the same outcome. -/
theorem Inv.run_eq {n m : Nat} {s : CycleSearch} (h : Inv g s)
    (hn : work g s < n) (hm : work g s < m) :
    CycleSearch.run g n s = CycleSearch.run g m s := by
  induction n generalizing m s with
  | zero => omega
  | succ n ih =>
      obtain ⟨m, rfl⟩ : ∃ k, m = k + 1 := ⟨m - 1, by omega⟩
      have hstep := h.step
      rw [CycleSearch.run, CycleSearch.run]
      cases hs : s.step g with
      | going s' =>
          rw [hs] at hstep
          obtain ⟨hinv, hwork, -⟩ := hstep
          exact ih hinv (by omega) (by omega)
      | finished marks => rfl
      | closed v => rfl

end CycleSearch

namespace Sweep

variable {g : Digraph}

/-! ## One step -/

/-- The state of a whole search: the search that is being made is in order, and
the bound allows for what it has to do. -/
structure Inv (g : Digraph) (s : Sweep) : Prop where
  search : CycleSearch.Inv g s.search
  bounded : s.search.work g < g.stepBound

/-- What a step from a state comes to: a state in order with less to do and the
same answer, or the end with that answer. -/
def Advances (g : Digraph) (s : Sweep) : SweepStep → Prop
  | .going s' => Inv g s' ∧ s'.work g < s.work g ∧ s'.answer g = s.answer g
  | .ended found => found = s.answer g

/-- With an empty path the bounded search goes on to the other starts. -/
theorem answer_of_finished {s : Sweep} {marks : Array Mark}
    (hs : s.search.step g = .finished marks) :
    s.answer g = cycleFrom g g.stepBound marks s.starts := by
  rw [answer, stepBound, CycleSearch.run, hs]

/-- A step of the search that is being made, of which the bounded search has one
step less left for the rest. -/
theorem Inv.advances_going {s : Sweep} {search : CycleSearch} (h : Inv g s)
    (hs : s.search.step g = .going search) : Advances g s (.going ⟨search, s.starts⟩) := by
  have hstep := h.search.step
  rw [hs] at hstep
  obtain ⟨hinv, hwork, -⟩ := hstep
  have hbound : search.work g < g.stepBound := hwork.trans h.bounded
  have hrest : search.work g < g.size + g.edgeCount :=
    Nat.lt_of_lt_of_le hwork (Nat.le_of_lt_succ h.bounded)
  have hrun : s.search.run g g.stepBound = search.run g g.stepBound := by
    rw [hinv.run_eq hbound hrest, stepBound, CycleSearch.run, hs]
  refine ⟨⟨hinv, hbound⟩, Nat.add_lt_add_right hwork _, ?_⟩
  rw [answer, answer, hrun]

/-- Going on to the next start takes the start away and nothing else off the
work, as all of the node and its edges has yet to be done. -/
theorem Inv.advances_start {marks : Array Mark} {starts : List Nat}
    (h : Inv g ⟨⟨marks, []⟩, starts⟩) :
    Advances g ⟨⟨marks, []⟩, starts⟩ (step g ⟨⟨marks, []⟩, starts⟩) := by
  have hfinished : CycleSearch.step g ⟨marks, []⟩ = .finished marks := rfl
  have hanswer := answer_of_finished (s := ⟨⟨marks, []⟩, starts⟩) hfinished
  cases starts with
  | nil =>
      rw [cycleFrom] at hanswer
      exact hanswer.symm
  | cons v starts =>
      rw [cycleFrom] at hanswer
      by_cases hv : marks.getD v .done = .unvisited
      · rw [if_pos hv] at hanswer
        have hwork : CycleSearch.work g (.start g marks v) = CycleSearch.work g ⟨marks, []⟩ := by
          rw [CycleSearch.start, CycleSearch.work_enter [] h.search.size hv]
          rfl
        have hstart : CycleSearch.Inv g (.start g marks v) := h.search.enter hv rfl (.start v)
        simp only [step, hfinished, if_pos hv]
        refine ⟨⟨hstart, hwork ▸ h.bounded⟩, ?_, hanswer.symm⟩
        rw [work, work, hwork]
        exact Nat.lt_succ_self _
      · rw [if_neg hv] at hanswer
        simp only [step, hfinished, if_neg hv]
        refine ⟨⟨h.search, h.bounded⟩, Nat.lt_succ_self _, ?_⟩
        rw [hanswer]
        exact answer_of_finished hfinished

theorem Inv.step {s : Sweep} (h : Inv g s) : Advances g s (s.step g) := by
  cases hs : s.search.step g with
  | going search =>
      rw [Sweep.step, hs]
      exact h.advances_going hs
  | closed v =>
      rw [Sweep.step, hs, Advances, answer, stepBound, CycleSearch.run, hs]
  | finished marks =>
      have hpath := h.search.step
      rw [hs] at hpath
      obtain ⟨⟨marks', path⟩, starts⟩ := s
      obtain ⟨hp, rfl⟩ := hpath
      cases hp
      exact h.advances_start

/-! ## The whole row -/

theorem inv_initial (g : Digraph) : Inv g (initial g) :=
  ⟨CycleSearch.inv_unvisited g, freshWork_lt_stepBound g _⟩

theorem answer_initial (g : Digraph) : (initial g).answer g = g.cycleNode? :=
  answer_of_finished rfl

theorem work_initial_lt (g : Digraph) : (initial g).work g < g.size + g.stepBound := by
  have hlt := (inv_initial g).bounded
  rw [work, initial, List.length_range, Nat.add_comm]
  exact Nat.add_lt_add_left hlt _

/-- Each state of the row is in order, and the answer is the same from all. -/
theorem inv_after (g : Digraph) (n : Nat) :
    Inv g (after g n) ∧ (after g n).answer g = g.cycleNode? := by
  induction n with
  | zero => exact ⟨inv_initial g, answer_initial g⟩
  | succ n ih =>
      obtain ⟨hinv, hanswer⟩ := ih
      have hstep := hinv.step
      rw [after]
      cases hs : (after g n).step g with
      | going s =>
          rw [hs] at hstep
          exact ⟨hstep.1, hstep.2.2.trans hanswer⟩
      | ended found => exact ⟨hinv, hanswer⟩

/-- A row that has not ended has done one unit of work in each step. -/
theorem ended_or_work_after (g : Digraph) (n : Nat) :
    (∃ m < n, ∃ found, (after g m).step g = .ended found)
      ∨ (after g n).work g + n ≤ (initial g).work g := by
  induction n with
  | zero => exact .inr (Nat.le_refl _)
  | succ n ih =>
      rcases ih with ⟨m, hm, hended⟩ | hwork
      · exact .inl ⟨m, Nat.lt_succ_of_lt hm, hended⟩
      have hstep := (inv_after g n).1.step
      cases hs : (after g n).step g with
      | going s =>
          rw [hs] at hstep
          right
          rw [after, hs]
          have hless := hstep.2.1
          simp only
          omega
      | ended found => exact .inl ⟨n, Nat.lt_succ_self n, found, hs⟩

/-- The row ends, after no more steps than there was work. -/
theorem exists_ended (g : Digraph) : ∃ n ≤ (initial g).work g,
    (after g n).step g = .ended g.cycleNode? := by
  rcases ended_or_work_after g ((initial g).work g + 1) with ⟨m, hm, found, hs⟩ | hwork
  · obtain ⟨hinv, hanswer⟩ := inv_after g m
    have hstep := hinv.step
    rw [hs] at hstep
    refine ⟨m, Nat.le_of_lt_succ hm, ?_⟩
    rw [hs, ← hanswer, hstep]
  · omega

end Sweep

/-- **The search with three marks decides whether a graph has a cycle.** For any
graph it ends, after no more steps than twice the nodes and once the edges, and
its answer is the one of the bounded search. In each of its states the nodes in
progress are those on its path, along which edges lead from node to node, none
of them can be reached from a node that is done, and of such a node all targets
are done. It finds no node exactly when there is no cycle, and a node that it
finds lies on one. -/
theorem sweep_decides_acyclic (g : Digraph) :
    (∃ n < g.size + g.stepBound, (Sweep.after g n).step g = .ended g.cycleNode?)
      ∧ (∀ n, (Sweep.after g n).search.Coherent g)
      ∧ (g.cycleNode? = none ↔ g.Acyclic)
      ∧ ∀ v, g.cycleNode? = some v → TransGen g.Step v v := by
  refine ⟨?_, fun n => (Sweep.inv_after g n).1.search.coherent, cycleNode?_eq_none_iff,
    fun v hv => transGen_of_cycleNode? hv⟩
  obtain ⟨n, hn, hended⟩ := Sweep.exists_ended g
  exact ⟨n, Nat.lt_of_le_of_lt hn (Sweep.work_initial_lt g), hended⟩

/-- Two edges to a node that has none of its own, before an edge to a node that
leads back. -/
def looped : Digraph :=
  ⟨#[[1, 1, 2], [], [0]]⟩

/-- The search comes back to its first node when it is done with the second one,
past both edges, and stands at the third. -/
theorem sweep_decides_looped : looped.cycleNode? = some 0 ∧ TransGen looped.Step 0 0
    ∧ ¬ looped.Acyclic ∧ (Sweep.after looped 5).search.mark 1 = .done
    ∧ [0, 2].IsChain looped.Step := by
  obtain ⟨-, hcoherent, hnone, hfound⟩ := sweep_decides_acyclic looped
  have hcycle : looped.cycleNode? = some 0 := rfl
  refine ⟨hcycle, hfound 0 hcycle, fun hacyclic => ?_, rfl, (hcoherent 5).directed⟩
  rw [hnone.mpr hacyclic] at hcycle
  cases hcycle

end VisualRules.Digraph
