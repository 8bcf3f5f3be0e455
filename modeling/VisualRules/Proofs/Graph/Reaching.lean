import VisualRules.Proofs.Graph.Path

/-!
# The search for marked nodes

The search gives each node of a graph without cycles its verdict: whether the
node is marked or has a way to a marked one. It keeps no record of the nodes on
its path, and needs none: a node that comes up again below itself would close a
cycle.
-/

namespace VisualRules.Digraph

open Relation

/-- A marked node can be reached. -/
def Reaches (g : Digraph) (isMarked : Nat → Bool) (v : Nat) : Prop :=
  ∃ w, isMarked w = true ∧ ReflTransGen g.Step v w

theorem reaches_iff {g : Digraph} {isMarked : Nat → Bool} {v : Nat} :
    g.Reaches isMarked v
      ↔ isMarked v = true ∨ ∃ w, g.Step v w ∧ g.Reaches isMarked w := by
  constructor
  · rintro ⟨x, hx, hpath⟩
    rcases ReflTransGen.cases_head hpath with rfl | ⟨w, hw, hrest⟩
    · exact .inl hx
    · exact .inr ⟨w, hw, x, hx, hrest⟩
  · rintro (hv | ⟨w, hw, x, hx, hrest⟩)
    · exact ⟨v, hv, .refl⟩
    · exact ⟨x, hx, .head hw hrest⟩

/-- The state of a search for marked nodes: the verdicts are right, and there
are none yet on the nodes of the path. -/
structure ReachInv (g : Digraph) (isMarked : Nat → Bool) (known : Array Verdict)
    (path : List Frame) : Prop where
  size : known.size = g.size
  right : ∀ v b, known.getD v none = some b → (b = true ↔ g.Reaches isMarked v)
  pending : ∀ v ∈ path.map Frame.node, v < g.size ∧ known.getD v none = none
  path : SearchPath g (fun w => known.getD w none ≠ none) none path

/-- What a search for marked nodes still has to do. -/
def reachWork (g : Digraph) (known : Array Verdict) (path : List Frame) : Nat :=
  g.freshWork (fun v => known.getD v none == none && !(path.map Frame.node).contains v)
    + pathWork path

variable {g : Digraph} {isMarked : Nat → Bool} {known : Array Verdict}
  {path : List Frame}

/-- Only nodes can be without a verdict where the search asks for one. -/
theorem getD_eq_none_iff {w : Nat} : known.getD w (some false) = none
    ↔ w < known.size ∧ known.getD w none = none := by
  rcases Nat.lt_or_ge w known.size with hlt | hge
  · simp [Array.getD_eq_getD_getElem?, hlt]
  · rw [getD_of_size_le _ hge]
    simp [Nat.not_lt.mpr hge]

theorem getD_ne_none {w : Nat} (hlt : w < known.size) (h : known.getD w (some false) ≠ none) :
    known.getD w none ≠ none :=
  fun hn => h (getD_eq_none_iff.mpr ⟨hlt, hn⟩)

theorem verdictOn_iff (hr : ReachInv g isMarked known path) {v : Nat}
    (hv : ∀ w, g.Step v w → known.getD w none ≠ none) :
    g.verdictOn isMarked known v = true ↔ g.Reaches isMarked v := by
  rw [verdictOn, Bool.or_eq_true, List.any_eq_true, reaches_iff]
  refine or_congr_right (exists_congr fun w => and_congr_right fun hw => ?_)
  obtain ⟨b, hb⟩ := Option.ne_none_iff_exists'.mp (hv w hw)
  rw [hb, ← hr.right w b hb]
  simp

/-- Right verdicts on nodes from which a marked node can be reached alike are the
same. -/
theorem ReachInv.getD_eq {g g' : Digraph} {isMarked isMarked' : Nat → Bool}
    {known known' : Array Verdict} {path path' : List Frame} {v v' : Nat}
    (h : ReachInv g isMarked known path) (h' : ReachInv g' isMarked' known' path')
    (hv : known.getD v none ≠ none) (hv' : known'.getD v' none ≠ none)
    (hiff : g'.Reaches isMarked' v' ↔ g.Reaches isMarked v) :
    known'.getD v' none = known.getD v none := by
  obtain ⟨b, hb⟩ := Option.ne_none_iff_exists'.mp hv
  obtain ⟨b', hb'⟩ := Option.ne_none_iff_exists'.mp hv'
  have hsame : b' = true ↔ b = true := by
    rw [h'.right v' b' hb', h.right v b hb, hiff]
  rw [hb, hb', Bool.eq_iff_iff.mpr hsame]

/-! ## One step -/

/-- Settling a node that has no more edges. -/
theorem ReachInv.leave {v : Nat}
    (h : ReachInv g isMarked known (⟨v, []⟩ :: path)) (hg : g.Acyclic) :
    ReachInv g isMarked
      (known.setIfInBounds v (some (g.verdictOn isMarked known v))) path := by
  obtain ⟨hlt, -⟩ := h.pending v (by simp)
  have hlt' : v < known.size := by rwa [h.size]
  have habove : ∀ u ∈ path.map Frame.node, u ≠ v := by
    rintro u hu rfl
    exact hg u (h.path.transGen_head u hu)
  refine ⟨by simp [h.size], fun u b hu => ?_, fun u hu => ?_, ?_⟩
  · -- The new verdict is right because those on all operands are.
    rw [getD_setIfInBounds] at hu
    split at hu
    · rename_i huv
      rw [← huv.1, ← verdictOn_iff h fun w hw => h.path.settled_of_step hw]
      cases hu
      rfl
    · exact h.right u b hu
  · rw [getD_setIfInBounds_ne _ _ _ (Ne.symm (habove u hu))]
    exact h.pending u (List.mem_cons_of_mem _ hu)
  · refine h.path.pop (fun w hw => ?_) ?_
    · rw [getD_setIfInBounds]
      split
      · simp
      · exact hw
    · rw [getD_setIfInBounds_self _ _ hlt']
      simp

/-- Following an edge to a node without a verdict; such a node is not on the
path. -/
theorem ReachInv.enter {v w : Nat} {rest : List Nat}
    (h : ReachInv g isMarked known (⟨v, w :: rest⟩ :: path))
    (hw : known.getD w (some false) = none) :
    ReachInv g isMarked known (⟨w, g.children w⟩ :: ⟨v, rest⟩ :: path) := by
  refine ⟨h.size, h.right, fun u hu => ?_, h.path.push⟩
  rcases List.mem_cons.mp hu with rfl | hu
  · exact h.size ▸ getD_eq_none_iff.mp hw
  · exact h.pending u hu

/-- Passing over an edge to a node that has its verdict. -/
theorem ReachInv.pass {v w : Nat} {rest : List Nat}
    (h : ReachInv g isMarked known (⟨v, w :: rest⟩ :: path))
    (hw : known.getD w none ≠ none) :
    ReachInv g isMarked known (⟨v, rest⟩ :: path) :=
  ⟨h.size, h.right, h.pending, h.path.take hw⟩

theorem reachWork_leave {v : Nat} (h : ReachInv g isMarked known (⟨v, []⟩ :: path))
    (b : Bool) :
    reachWork g (known.setIfInBounds v (some b)) path + 1
      = reachWork g known (⟨v, []⟩ :: path) := by
  have hlt : v < known.size := by
    rw [h.size]
    exact (h.pending v (by simp)).1
  have hfresh : g.freshWork (fun u =>
      (known.setIfInBounds v (some b)).getD u none == none
        && !(path.map Frame.node).contains u)
      = g.freshWork (fun u => known.getD u none == none
        && !((⟨v, []⟩ :: path : List Frame).map Frame.node).contains u) := by
    refine freshWork_congr fun u _ => ?_
    by_cases huv : v = u
    · subst huv
      rw [getD_setIfInBounds_self _ _ hlt]
      simp
    · rw [getD_setIfInBounds_ne _ _ _ huv]
      simp [Ne.symm huv]
  rw [reachWork, reachWork, hfresh, pathWork_cons, List.length_nil]
  omega

theorem reachWork_enter {w : Nat} (hlt : w < g.size) (hw : known.getD w none = none)
    (hpath : w ∉ path.map Frame.node) :
    reachWork g known (⟨w, g.children w⟩ :: path) = reachWork g known path := by
  have hfresh : g.freshWork (fun u => known.getD u none == none
        && !(path.map Frame.node).contains u)
      = g.freshWork (fun u => known.getD u none == none
        && !((⟨w, g.children w⟩ :: path : List Frame).map Frame.node).contains u)
        + ((g.children w).length + 1) := by
    refine freshWork_enter hlt ?_ ?_ fun u hu => ?_
    · rw [hw]
      simpa using hpath
    · simp
    · simp [hu]
  rw [reachWork, reachWork, hfresh]
  simp only [pathWork_cons]
  omega

/-- What a step keeps, and the one unit of work that it does. No verdict is taken
back, and the innermost node of a path has one when it is left. -/
theorem ReachInv.step {f : Frame} (h : ReachInv g isMarked known (f :: path))
    (hg : g.Acyclic) (hrange : g.InRange) :
    let s := g.reachStep isMarked known (f :: path)
    ReachInv g isMarked s.1 s.2 ∧ reachWork g s.1 s.2 + 1 = reachWork g known (f :: path)
      ∧ (∀ u, known.getD u none ≠ none → s.1.getD u none ≠ none)
      ∧ ∀ u ∈ (f :: path).map Frame.node, s.1.getD u none ≠ none ∨ u ∈ s.2.map Frame.node := by
  rcases f with ⟨v, _ | ⟨w, rest⟩⟩
  · have hlt : v < known.size := by
      rw [h.size]
      exact (h.pending v (by simp)).1
    refine ⟨h.leave hg, reachWork_leave h (g.verdictOn isMarked known v), fun u hu => ?_,
      fun u hu => ?_⟩
    · rw [reachStep, getD_setIfInBounds]
      split
      · simp
      · exact hu
    · rcases List.mem_cons.mp hu with rfl | hu
      · refine .inl ?_
        rw [reachStep, getD_setIfInBounds_self _ _ hlt]
        simp
      · exact .inr hu
  have hwlt : w < known.size := by
    rw [h.size]
    exact hrange v w h.path.step_head
  cases hw : known.getD w (some false) with
  | none =>
      have hnone : known.getD w none = none := (getD_eq_none_iff.mp hw).2
      -- A node that is on the path already would lie below itself.
      have hnot : w ∉ (⟨v, rest⟩ :: path : List Frame).map Frame.node := by
        intro hmem
        rcases List.mem_cons.mp hmem with rfl | hmem
        · exact hg w (.single h.path.step_head)
        · exact hg w ((h.path.transGen_head w hmem).tail h.path.step_head)
      simp only [reachStep, hw]
      refine ⟨h.enter hw, ?_, fun u hu => hu, fun u hu => ?_⟩
      · rw [reachWork_enter (h.size ▸ hwlt) hnone hnot, reachWork, reachWork]
        simp only [pathWork_cons, List.length_cons, List.map_cons]
        omega
      · exact .inr (List.mem_cons_of_mem _ hu)
  | some b =>
      have hsome : known.getD w none ≠ none := getD_ne_none hwlt (by simp [hw])
      simp only [reachStep, hw]
      refine ⟨h.pass hsome, ?_, fun u hu => hu, fun u hu => .inr hu⟩
      rw [reachWork, reachWork]
      simp only [pathWork_cons, List.length_cons, List.map_cons]
      omega

/-! ## Whole searches -/

/-- A search that has more steps than work ends with the right verdicts, with
one for each node of its path. -/
theorem ReachInv.run {n : Nat} (h : ReachInv g isMarked known path) (hg : g.Acyclic)
    (hrange : g.InRange) (hn : reachWork g known path < n) :
    ReachInv g isMarked (g.reachRun isMarked n known path) []
      ∧ ∀ u, known.getD u none ≠ none ∨ u ∈ path.map Frame.node →
        (g.reachRun isMarked n known path).getD u none ≠ none := by
  induction n generalizing known path with
  | zero => omega
  | succ n ih =>
      cases path with
      | nil => exact ⟨h, fun u hu => hu.resolve_right (by simp)⟩
      | cons f path =>
          obtain ⟨hinv, hwork, hkeep, hpath⟩ := h.step hg hrange
          obtain ⟨hend, hall⟩ := ih hinv (by omega)
          refine ⟨hend, fun u hu => hall u ?_⟩
          rcases hu with hu | hu
          · exact .inl (hkeep u hu)
          · exact hpath u hu

/-- The search from one node without a verdict; all of the node and its edges has
yet to be done. -/
theorem ReachInv.start {v : Nat} (h : ReachInv g isMarked known [])
    (hv : known.getD v (some false) = none) :
    ReachInv g isMarked known [⟨v, g.children v⟩]
      ∧ reachWork g known [⟨v, g.children v⟩] = reachWork g known [] := by
  obtain ⟨hlt, hnone⟩ := getD_eq_none_iff.mp hv
  rw [h.size] at hlt
  refine ⟨⟨h.size, h.right, fun u hu => ?_, .start v⟩, reachWork_enter hlt hnone (by simp)⟩
  have huv : u = v := by simpa using hu
  exact huv ▸ ⟨hlt, hnone⟩

/-- The search from a list of nodes leaves none of them without a verdict. -/
theorem reach_foldl_spec (hg : g.Acyclic) (hrange : g.InRange) (vs : List Nat)
    (h : ReachInv g isMarked known []) :
    let known' := vs.foldl (fun known v =>
      if known.getD v (some false) = none then
        g.reachRun isMarked g.stepBound known [⟨v, g.children v⟩]
      else known) known
    ReachInv g isMarked known' [] ∧ ∀ u, u < g.size →
      known.getD u none ≠ none ∨ u ∈ vs → known'.getD u none ≠ none := by
  induction vs generalizing known with
  | nil => exact ⟨h, fun u _ hu => hu.resolve_right (by simp)⟩
  | cons v vs ih =>
      rw [List.foldl_cons]
      by_cases hv : known.getD v (some false) = none
      · obtain ⟨hstart, hwork⟩ := h.start hv
        have hbound : reachWork g known [⟨v, g.children v⟩] < g.stepBound := by
          rw [hwork]
          exact freshWork_lt_stepBound g _
        obtain ⟨hinv, hrun⟩ := hstart.run hg hrange hbound
        obtain ⟨hend, hall⟩ := ih hinv
        rw [if_pos hv]
        refine ⟨hend, fun u hu hmem => hall u hu ?_⟩
        rcases hmem with hmem | hmem
        · exact .inl (hrun u (.inl hmem))
        · rcases List.mem_cons.mp hmem with rfl | hmem
          · exact .inl (hrun u (.inr (by simp)))
          · exact .inr hmem
      · obtain ⟨hend, hall⟩ := ih h
        rw [if_neg hv]
        refine ⟨hend, fun u hu hmem => hall u hu ?_⟩
        rcases hmem with hmem | hmem
        · exact .inl hmem
        · rcases List.mem_cons.mp hmem with rfl | hmem
          · exact .inl (getD_ne_none (h.size ▸ hu) hv)
          · exact .inr hmem

theorem reachInv_replicate (g : Digraph) (isMarked : Nat → Bool) :
    ReachInv g isMarked (Array.replicate g.size none) [] := by
  refine ⟨by simp, fun u b hu => ?_, by simp, .nil⟩
  rw [getD_replicate_self] at hu
  cases hu

theorem reachInv_reaching (hg : g.Acyclic) (hrange : g.InRange) :
    ReachInv g isMarked (g.reaching isMarked) []
      ∧ ∀ v, v < g.size → (g.reaching isMarked).getD v none ≠ none := by
  obtain ⟨hend, hall⟩ := reach_foldl_spec hg hrange (List.range g.size)
    (reachInv_replicate g isMarked)
  exact ⟨hend, fun v hv => hall v hv (.inr (List.mem_range.mpr hv))⟩

/-- **Each node of a graph without cycles gets its right verdict.** -/
theorem reaching_getD (hg : g.Acyclic) (hrange : g.InRange) {v : Nat}
    (hv : v < g.size) :
    (g.reaching isMarked).getD v none = some true ↔ g.Reaches isMarked v := by
  obtain ⟨hend, hall⟩ := reachInv_reaching hg hrange
  obtain ⟨b, hb⟩ := Option.ne_none_iff_exists'.mp (hall v hv)
  rw [← hend.right v b hb, hb, Option.some.injEq]

end VisualRules.Digraph
