import VisualRules.Proofs.Graph.Path

/-!
# The search for a cycle

The marks and the path of the search for a cycle, what a step keeps of them,
and what the whole search decides: it finds a node exactly when the graph has a
cycle, and the node that it finds lies on one.
-/

namespace VisualRules.Digraph

open Relation

namespace CycleSearch

/-- The mark of a node; a number that is no node counts as done. -/
def mark (s : CycleSearch) (v : Nat) : Mark :=
  s.marks.getD v .done

/-- The state of a search for a cycle: the nodes in progress are those of the
path, and no edge leads out of the nodes that are done, on none of which a
cycle can be. -/
structure Inv (g : Digraph) (s : CycleSearch) : Prop where
  size : s.marks.size = g.size
  inProgress : ∀ v, s.mark v = .inProgress ↔ v ∈ s.path.map Frame.node
  nodup : (s.path.map Frame.node).Nodup
  path : SearchPath g (fun w => s.mark w = .done) none s.path
  closed : ∀ v w, s.mark v = .done → g.Step v w → s.mark w = .done
  acyclic : ∀ v, s.mark v = .done → ¬ TransGen g.Step v v

/-- What a search still has to do. -/
def work (g : Digraph) (s : CycleSearch) : Nat :=
  g.freshWork (fun v => s.mark v == .unvisited) + pathWork s.path

variable {g : Digraph}

theorem lt_size_of_mark_ne_done {s : CycleSearch} {v : Nat}
    (hsize : s.marks.size = g.size) (h : s.mark v ≠ .done) : v < g.size := by
  rcases Nat.lt_or_ge v g.size with hlt | hge
  · exact hlt
  · refine absurd ?_ h
    rw [mark, getD_of_size_le _ (by omega)]

theorem Inv.reflTransGen_done {s : CycleSearch} (h : Inv g s) {v w : Nat}
    (hv : s.mark v = .done) (hw : ReflTransGen g.Step v w) :
    s.mark w = .done := by
  induction hw with
  | refl => exact hv
  | tail _ hstep ih => exact h.closed _ _ ih hstep

/-! ## One step -/

/-- Leaving a node that has no more edges. -/
theorem Inv.leave {s : CycleSearch} {v : Nat} {path : List Frame}
    (h : Inv g s) (hp : s.path = ⟨v, []⟩ :: path) :
    Inv g ⟨s.marks.setIfInBounds v .done, path⟩ := by
  have hpath := h.path
  have hnodup := h.nodup
  rw [hp] at hpath hnodup
  rw [List.map_cons, List.nodup_cons] at hnodup
  have hv : s.mark v = .inProgress := (h.inProgress v).mpr (by simp [hp])
  have hlt : v < s.marks.size := by
    rw [h.size]
    exact lt_size_of_mark_ne_done h.size (by simp [hv])
  have hself : (⟨s.marks.setIfInBounds v .done, path⟩ : CycleSearch).mark v = .done :=
    getD_setIfInBounds_self _ _ hlt
  have hother : ∀ u, u ≠ v →
      (⟨s.marks.setIfInBounds v .done, path⟩ : CycleSearch).mark u = s.mark u :=
    fun u hu => getD_setIfInBounds_ne _ _ _ (Ne.symm hu)
  have hkeep : ∀ u, s.mark u = .done →
      (⟨s.marks.setIfInBounds v .done, path⟩ : CycleSearch).mark u = .done := by
    intro u hu
    rw [hother u (fun huv => by simp [huv, hv] at hu), hu]
  have hchildren : ∀ w, g.Step v w → s.mark w = .done :=
    fun w hw => hpath.settled_of_step hw
  refine ⟨by simp [h.size], fun u => ?_, hnodup.2, hpath.pop hkeep hself, ?_, ?_⟩
  · by_cases huv : u = v
    · subst huv
      constructor
      · intro hmark
        rw [hself] at hmark
        cases hmark
      · exact fun hmem => absurd hmem hnodup.1
    · rw [hother u huv, h.inProgress, hp, List.map_cons, List.mem_cons]
      simp [huv]
  · intro u w hu hw
    by_cases huv : u = v
    · subst huv
      exact hkeep w (hchildren w hw)
    · rw [hother u huv] at hu
      exact hkeep w (h.closed u w hu hw)
  · intro u hu
    by_cases huv : u = v
    · -- A cycle through `v` would go on from a node that was done before it.
      subst huv
      intro hcycle
      obtain ⟨w, hw, hback⟩ := TransGen.head'_iff.mp hcycle
      have hdone := h.reflTransGen_done (hchildren w hw) hback
      rw [hv] at hdone
      cases hdone
    · rw [hother u huv] at hu
      exact h.acyclic u hu

/-- Entering a node that has not been visited, by an edge of the innermost
node or as the first node of a path. -/
theorem Inv.enter {s : CycleSearch} {w : Nat} {path : List Frame}
    (h : Inv g s) (hw : s.mark w = .unvisited)
    (hnodes : path.map Frame.node = s.path.map Frame.node)
    (hpath : SearchPath g (fun u => s.mark u = .done) none
      (⟨w, g.children w⟩ :: path)) :
    Inv g ⟨s.marks.setIfInBounds w .inProgress, ⟨w, g.children w⟩ :: path⟩ := by
  have hlt : w < s.marks.size := by
    rw [h.size]
    exact lt_size_of_mark_ne_done h.size (by simp [hw])
  have hself : (s.marks.setIfInBounds w .inProgress).getD w .done = .inProgress :=
    getD_setIfInBounds_self _ _ hlt
  have hother : ∀ u, u ≠ w →
      (s.marks.setIfInBounds w .inProgress).getD u .done = s.mark u :=
    fun u hu => getD_setIfInBounds_ne _ _ _ (Ne.symm hu)
  have hdone : ∀ u, (s.marks.setIfInBounds w .inProgress).getD u .done = .done
      ↔ s.mark u = .done := by
    intro u
    by_cases huw : u = w
    · subst huw
      simp [hself, hw]
    · rw [hother u huw]
  refine ⟨by simp [h.size], fun u => ?_, ?_, ?_, ?_, ?_⟩
  · by_cases huw : u = w
    · subst huw
      simp [mark, hself]
    · rw [mark, hother u huw, h.inProgress, List.map_cons, List.mem_cons, hnodes]
      simp [huw]
  · rw [List.map_cons, List.nodup_cons, hnodes]
    refine ⟨fun hmem => ?_, h.nodup⟩
    rw [(h.inProgress w).mpr hmem] at hw
    cases hw
  · exact hpath.mono fun u hu => (hdone u).mpr hu
  · intro u x hu hx
    exact (hdone x).mpr (h.closed u x ((hdone u).mp hu) hx)
  · intro u hu
    exact h.acyclic u ((hdone u).mp hu)

/-- Passing over an edge that leads to a node that is done. -/
theorem Inv.pass {s : CycleSearch} {v w : Nat} {rest : List Nat} {path : List Frame}
    (h : Inv g s) (hp : s.path = ⟨v, w :: rest⟩ :: path) (hw : s.mark w = .done) :
    Inv g ⟨s.marks, ⟨v, rest⟩ :: path⟩ := by
  have hpath := h.path
  have hnodup := h.nodup
  have hin := h.inProgress
  rw [hp] at hpath hnodup hin
  exact ⟨h.size, hin, hnodup, hpath.take hw, h.closed, h.acyclic⟩

theorem work_enter {s : CycleSearch} {w : Nat} (path : List Frame)
    (hsize : s.marks.size = g.size) (hw : s.mark w = .unvisited) :
    work g ⟨s.marks.setIfInBounds w .inProgress, ⟨w, g.children w⟩ :: path⟩
      = g.freshWork (fun v => s.mark v == .unvisited) + pathWork path := by
  have hlt : w < g.size := lt_size_of_mark_ne_done hsize (by simp [hw])
  have hself : (s.marks.setIfInBounds w .inProgress).getD w .done = .inProgress :=
    getD_setIfInBounds_self _ _ (hsize ▸ hlt)
  have hfresh : g.freshWork (fun v => s.mark v == .unvisited)
      = g.freshWork (fun v =>
          (s.marks.setIfInBounds w .inProgress).getD v .done == .unvisited)
        + ((g.children w).length + 1) := by
    refine freshWork_enter hlt (by simp [hw]) (by simp [hself]) fun u hu => ?_
    rw [mark, getD_setIfInBounds_ne _ _ _ (Ne.symm hu)]
  rw [hfresh]
  simp only [work, pathWork_cons, mark]
  omega

theorem work_leave {s : CycleSearch} {v : Nat} (path : List Frame)
    (hv : s.mark v = .inProgress) :
    work g ⟨s.marks.setIfInBounds v .done, path⟩
      = g.freshWork (fun u => s.mark u == .unvisited) + pathWork path := by
  have hfresh : g.freshWork (fun u =>
      (s.marks.setIfInBounds v .done).getD u .done == .unvisited)
      = g.freshWork (fun u => s.mark u == .unvisited) := by
    refine freshWork_congr fun u _ => ?_
    rw [getD_setIfInBounds]
    split
    · rename_i huv
      rw [← huv.1, hv]
      rfl
    · rfl
  rw [← hfresh]
  rfl

/-- Marking a node as anything but unvisited unvisits none. -/
theorem visited_setIfInBounds {marks : Array Mark} {u v : Nat} {m : Mark}
    (hm : m ≠ .unvisited) (hu : marks.getD u .done ≠ .unvisited) :
    (marks.setIfInBounds v m).getD u .done ≠ .unvisited := by
  rw [getD_setIfInBounds]
  split
  · exact hm
  · exact hu

/-- What a step keeps and how far it gets: a step that goes on has less work
left and unvisits no node, the search ends with an empty path, and a path that
closes is a cycle. -/
theorem Inv.step {s : CycleSearch} (h : Inv g s) :
    match s.step g with
    | .going s' => Inv g s' ∧ work g s' < work g s
        ∧ ∀ v, s.mark v ≠ .unvisited → s'.mark v ≠ .unvisited
    | .finished marks => s.path = [] ∧ marks = s.marks
    | .closed v => TransGen g.Step v v := by
  rcases hp : s.path with _ | ⟨⟨v, rest⟩, path⟩
  · simp only [CycleSearch.step, hp]
    exact ⟨trivial, trivial⟩
  rcases rest with _ | ⟨w, rest⟩
  · have hv : s.mark v = .inProgress := (h.inProgress v).mpr (by simp [hp])
    simp only [CycleSearch.step, hp]
    refine ⟨h.leave hp, ?_, fun u hu => visited_setIfInBounds (by simp) hu⟩
    rw [work_leave path hv, work, hp, pathWork_cons]
    omega
  have hpath := h.path
  rw [hp] at hpath
  cases hw : s.marks.getD w .done with
  | inProgress =>
      -- The path leads from `w` to `v`, and the edge back to `w`.
      simp only [CycleSearch.step, hp, hw]
      have hmem : w ∈ s.path.map Frame.node := (h.inProgress w).mp hw
      rw [hp, List.map_cons, List.mem_cons] at hmem
      rcases hmem with rfl | hmem
      · exact .single hpath.step_head
      · exact (hpath.transGen_head w hmem).tail hpath.step_head
  | unvisited =>
      simp only [CycleSearch.step, hp, hw]
      refine ⟨h.enter hw (by simp [hp]) hpath.push, ?_,
        fun u hu => visited_setIfInBounds (by simp) hu⟩
      rw [work_enter _ h.size hw, work, hp]
      simp only [pathWork_cons, List.length_cons]
      omega
  | done =>
      simp only [CycleSearch.step, hp, hw]
      refine ⟨h.pass hp hw, ?_, fun u hu => hu⟩
      simp only [work, hp, pathWork_cons, List.length_cons, mark]
      omega

/-! ## Whole searches -/

/-- A search that has more steps than work ends with an empty path, or closes
its path in a cycle. -/
theorem Inv.run {n : Nat} {s : CycleSearch} (h : Inv g s) (hn : work g s < n) :
    match run g n s with
    | .ok marks => Inv g ⟨marks, []⟩
        ∧ ∀ v, s.mark v ≠ .unvisited → marks.getD v .done ≠ .unvisited
    | .error v => TransGen g.Step v v := by
  induction n generalizing s with
  | zero => omega
  | succ n ih =>
      have hstep := h.step
      rw [CycleSearch.run]
      cases hs : s.step g with
      | going s' =>
          rw [hs] at hstep
          obtain ⟨hinv, hwork, hmono⟩ := hstep
          have hrun := ih hinv (by omega)
          simp only
          cases hr : CycleSearch.run g n s' with
          | ok marks =>
              rw [hr] at hrun
              exact ⟨hrun.1, fun v hv => hrun.2 v (hmono v hv)⟩
          | error v =>
              rw [hr] at hrun
              exact hrun
      | finished marks =>
          rw [hs] at hstep
          obtain ⟨hp, rfl⟩ := hstep
          refine ⟨?_, fun v hv => hv⟩
          rw [← hp]
          exact h
      | closed v =>
          rw [hs] at hstep
          exact hstep

/-- The search from one unvisited node: it closes a path, or all nodes that
have been visited, now with the node itself, are done. -/
theorem Inv.run_start {marks : Array Mark} {v : Nat} (h : Inv g ⟨marks, []⟩)
    (hv : marks.getD v .done = .unvisited) :
    match (start g marks v).run g g.stepBound with
    | .ok marks' => Inv g ⟨marks', []⟩ ∧ ∀ u,
        marks.getD u .done ≠ .unvisited ∨ u = v → marks'.getD u .done ≠ .unvisited
    | .error w => TransGen g.Step w w := by
  have hstart : Inv g (start g marks v) := h.enter hv rfl (.start v)
  have hwork : work g (start g marks v) < g.stepBound := by
    rw [start, work_enter [] h.size hv]
    exact freshWork_lt_stepBound g _
  have hlt : v < marks.size := by
    rw [h.size]
    exact lt_size_of_mark_ne_done h.size (by simp [mark, hv])
  have hrun := hstart.run hwork
  cases hr : (start g marks v).run g g.stepBound with
  | error w =>
      rw [hr] at hrun
      exact hrun
  | ok marks' =>
      rw [hr] at hrun
      refine ⟨hrun.1, fun u hu => hrun.2 u ?_⟩
      rcases hu with hu | rfl
      · exact visited_setIfInBounds (by simp) hu
      · show (marks.setIfInBounds u .inProgress).getD u .done ≠ .unvisited
        rw [getD_setIfInBounds_self _ _ hlt]
        simp

end CycleSearch

/-- The search from a list of nodes, in a state without a path: it finds a node
on a cycle, or it leaves no node of the list unvisited. -/
theorem cycleFrom_spec {g : Digraph} (vs : List Nat) {marks : Array Mark}
    (h : CycleSearch.Inv g ⟨marks, []⟩) :
    match cycleFrom g g.stepBound marks vs with
    | some v => TransGen g.Step v v
    | none => ∃ marks', CycleSearch.Inv g ⟨marks', []⟩ ∧ ∀ v,
        marks.getD v .done ≠ .unvisited ∨ v ∈ vs → marks'.getD v .done ≠ .unvisited := by
  induction vs generalizing marks with
  | nil => exact ⟨marks, h, fun v hv => hv.resolve_right (by simp)⟩
  | cons v vs ih =>
      -- The state in which the rest of the list is searched, whether or not
      -- the search from `v` has to be made.
      have hrest : ∀ marks₁ : Array Mark, CycleSearch.Inv g ⟨marks₁, []⟩ →
          (∀ u, marks.getD u .done ≠ .unvisited ∨ u = v →
            marks₁.getD u .done ≠ .unvisited) →
          match cycleFrom g g.stepBound marks₁ vs with
          | some w => TransGen g.Step w w
          | none => ∃ marks', CycleSearch.Inv g ⟨marks', []⟩ ∧ ∀ u,
              marks.getD u .done ≠ .unvisited ∨ u ∈ v :: vs →
                marks'.getD u .done ≠ .unvisited := by
        intro marks₁ hinv hmono
        have hvs := ih hinv
        cases hc : cycleFrom g g.stepBound marks₁ vs with
        | some w =>
            rw [hc] at hvs
            exact hvs
        | none =>
            rw [hc] at hvs
            obtain ⟨marks', hinv', hmono'⟩ := hvs
            refine ⟨marks', hinv', fun u hu => ?_⟩
            rw [List.mem_cons, ← or_assoc] at hu
            exact hmono' u (hu.imp_left (hmono u))
      rw [cycleFrom]
      by_cases hv : marks.getD v .done = .unvisited
      · rw [if_pos hv]
        have hrun := h.run_start hv
        cases hr : (CycleSearch.start g marks v).run g g.stepBound with
        | error w =>
            rw [hr] at hrun
            exact hrun
        | ok marks₁ =>
            rw [hr] at hrun
            exact hrest marks₁ hrun.1 hrun.2
      · rw [if_neg hv]
        refine hrest marks h fun u hu => ?_
        rcases hu with hu | rfl
        · exact hu
        · exact hv

theorem CycleSearch.inv_unvisited (g : Digraph) :
    CycleSearch.Inv g ⟨Array.replicate g.size .unvisited, []⟩ := by
  have hmark : ∀ v, (Array.replicate g.size Mark.unvisited).getD v .done = .done
      → g.size ≤ v := by
    intro v hv
    rcases Nat.lt_or_ge v g.size with hlt | hge
    · simp [hlt] at hv
    · exact hge
  -- What is done lies outside the graph, where there are no edges.
  refine ⟨by simp, fun v => ?_, by simp, .nil, fun v w hv hw => ?_, fun v hv hc => ?_⟩
  · rw [CycleSearch.mark]
    rcases Nat.lt_or_ge v g.size with hlt | hge
    · simp [hlt]
    · simp [Nat.not_lt.mpr hge]
  · exact absurd hw.lt_size (Nat.not_lt.mpr (hmark v hv))
  · exact absurd (lt_size_of_transGen hc) (Nat.not_lt.mpr (hmark v hv))

/-- A node that the search for a cycle finds lies on a cycle. -/
theorem transGen_of_cycleNode? {g : Digraph} {v : Nat} (h : g.cycleNode? = some v) :
    TransGen g.Step v v := by
  have hspec := cycleFrom_spec (List.range g.size) (CycleSearch.inv_unvisited g)
  rw [cycleNode?] at h
  rw [h] at hspec
  exact hspec

/-- **The search for a cycle decides whether there is one.** -/
theorem cycleNode?_eq_none_iff {g : Digraph} : g.cycleNode? = none ↔ g.Acyclic := by
  constructor
  · intro h
    have hspec := cycleFrom_spec (List.range g.size) (CycleSearch.inv_unvisited g)
    rw [cycleNode?] at h
    rw [h] at hspec
    obtain ⟨marks, hinv, hall⟩ := hspec
    intro v hcycle
    refine hinv.acyclic v ?_ hcycle
    have hv : marks.getD v .done ≠ .unvisited :=
      hall v (.inr (List.mem_range.mpr (lt_size_of_transGen hcycle)))
    cases hm : marks.getD v .done with
    | unvisited => exact absurd hm hv
    | inProgress => cases (hinv.inProgress v).mp hm
    | done => exact hm
  · intro h
    cases hc : g.cycleNode? with
    | none => rfl
    | some v => exact absurd (transGen_of_cycleNode? hc) (h v)

end VisualRules.Digraph
