import Mathlib.Computability.StateTransition
import VisualRules.Proofs.Graph.Reaching

/-!
# The whole search for marked nodes

The search for marked nodes is made from each node in turn, under a bound on its
steps. Here it is one loop without a bound. Unlike the search for a cycle it keeps
no record of the nodes on its path, so that it ends in the graphs without cycles and
in no others. In such a graph no node comes up twice on the path, each step does one
unit of work, and the verdicts at the end are those of the bounded search. Which
verdict a node gets does not depend on the order of the nodes and the edges.
-/

namespace VisualRules

open Relation

/-! ## Loops -/

/-- A loop that starts in one state ends in another one after a number of steps. -/
inductive EndsAfter {σ : Type} (next : σ → Option σ) : Nat → σ → σ → Prop
  | here {s : σ} (done : next s = none) : EndsAfter next 0 s s
  | step {n : Nat} {s s' t : σ} (first : next s = some s')
      (rest : EndsAfter next n s' t) : EndsAfter next (n + 1) s t

namespace EndsAfter

variable {σ : Type} {next : σ → Option σ} {n : Nat} {s t : σ}

theorem mem_eval (h : EndsAfter next n s t) : t ∈ StateTransition.eval next s := by
  rw [StateTransition.mem_eval]
  induction h with
  | here done => exact ⟨.refl, done⟩
  | step first _ ih => exact ⟨.head first ih.1, ih.2⟩

theorem next_eq_none (h : EndsAfter next n s t) : next t = none :=
  (StateTransition.mem_eval.mp h.mem_eval).2

/-- A loop ends after as many steps as there is work to do, when each step does one
unit of it and nothing is left at the end. -/
theorem of_work {Inv : σ → Prop} {work : σ → Nat}
    (hnext : ∀ s s', Inv s → next s = some s' → Inv s' ∧ work s' + 1 = work s)
    (hdone : ∀ s, Inv s → next s = none → work s = 0) (hs : Inv s) :
    ∃ t, Inv t ∧ EndsAfter next (work s) s t := by
  generalize hn : work s = n
  induction n generalizing s with
  | zero =>
      cases hstep : next s with
      | none => exact ⟨s, hs, .here hstep⟩
      | some s' =>
          have hwork := (hnext s s' hs hstep).2
          omega
  | succ n ih =>
      cases hstep : next s with
      | none =>
          have hwork := hdone s hs hstep
          omega
      | some s' =>
          obtain ⟨hs', hwork⟩ := hnext s s' hs hstep
          obtain ⟨t, ht, hend⟩ := ih hs' (by omega)
          exact ⟨t, ht, .step hstep hend⟩

end EndsAfter

namespace Digraph

/-! ## The loop -/

/-- A state of the whole search: the verdicts so far, the path of the search that is
being made, and the nodes from which it has yet to be made. -/
structure Survey where
  known : Array Verdict
  path : List Frame
  starts : List Nat

namespace Survey

/-- The state in which nothing is known. -/
def initial (g : Digraph) : Survey :=
  ⟨Array.replicate g.size none, [], List.range g.size⟩

/-- Takes the next step of the search that is being made. When its path is empty, the
next node is started from, unless it has its verdict. -/
def next (g : Digraph) (isMarked : Nat → Bool) (s : Survey) : Option Survey :=
  match s.path, s.starts with
  | f :: path, starts =>
    let (known, path) := g.reachStep isMarked s.known (f :: path)
    some ⟨known, path, starts⟩
  | [], v :: starts =>
    if s.known.getD v (some false) = none then
      some ⟨s.known, [⟨v, g.children v⟩], starts⟩
    else some ⟨s.known, [], starts⟩
  | [], [] => none

/-- What the whole search still has to do. -/
def work (g : Digraph) (s : Survey) : Nat :=
  reachWork g s.known s.path + s.starts.length

/-- Each node has its verdict, is on the path or has yet to be started from. -/
def Covers (g : Digraph) (s : Survey) : Prop :=
  ∀ v, v < g.size →
    s.known.getD v none ≠ none ∨ v ∈ s.path.map Frame.node ∨ v ∈ s.starts

/-- The state of a whole search: the search that is being made is in order, and no
node is left out. -/
structure Inv (g : Digraph) (isMarked : Nat → Bool) (s : Survey) : Prop where
  search : ReachInv g isMarked s.known s.path
  covers : s.Covers g

variable {g : Digraph} {isMarked : Nat → Bool} {s s' : Survey}

/-! ## Nodes that are left -/

theorem next_of_path (known : Array Verdict) (f : Frame) (path : List Frame)
    (starts : List Nat) : next g isMarked ⟨known, f :: path, starts⟩
      = some ⟨(g.reachStep isMarked known (f :: path)).1,
        (g.reachStep isMarked known (f :: path)).2, starts⟩ := rfl

theorem next_eq_none_iff : s.next g isMarked = none ↔ s.path = [] ∧ s.starts = [] := by
  obtain ⟨known, path, starts⟩ := s
  cases path with
  | cons f path => simp [next]
  | nil =>
      cases starts with
      | nil => simp [next]
      | cons v starts =>
          simp only [next]
          split <;> simp

theorem covers_initial (g : Digraph) : (initial g).Covers g :=
  fun _ hv => .inr (.inr (List.mem_range.mpr hv))

/-- A step of the search that is being made. -/
theorem Covers.step {known known' : Array Verdict} {path path' : List Frame}
    {starts : List Nat} (h : Covers g ⟨known, path, starts⟩)
    (hstep : ∀ v, v < g.size → known.getD v none ≠ none ∨ v ∈ path.map Frame.node →
      known'.getD v none ≠ none ∨ v ∈ path'.map Frame.node) :
    Covers g ⟨known', path', starts⟩ := by
  intro v hv
  have hcovered := or_assoc.mpr (h v hv)
  exact or_assoc.mp (hcovered.imp_left (hstep v hv))

/-- Going on to the next start, with or without a search from it. -/
theorem Covers.proceed {known : Array Verdict} {v : Nat} {path : List Frame}
    {starts : List Nat} (h : Covers g ⟨known, [], v :: starts⟩)
    (hv : v < g.size → known.getD v none ≠ none ∨ v ∈ path.map Frame.node) :
    Covers g ⟨known, path, starts⟩ := by
  intro u hu
  rcases h u hu with hknown | hmem | hstart
  · exact .inl hknown
  · cases hmem
  · rcases List.mem_cons.mp hstart with rfl | hstart
    · exact (hv hu).imp_right .inl
    · exact .inr (.inr hstart)

/-- At the end all nodes have their verdicts. -/
theorem Covers.getD_ne_none (h : s.Covers g) (hs : s.next g isMarked = none) {v : Nat}
    (hv : v < g.size) : s.known.getD v none ≠ none := by
  obtain ⟨hpath, hstarts⟩ := next_eq_none_iff.mp hs
  have hcovered := h v hv
  rw [hpath, hstarts] at hcovered
  exact hcovered.resolve_right (by simp)

/-! ## One step -/

/-- A step keeps the whole search in order and does one unit of work. -/
theorem Inv.next (hg : g.Acyclic) (hrange : g.InRange) (h : Inv g isMarked s)
    (hs : s.next g isMarked = some s') :
    Inv g isMarked s' ∧ s'.work g + 1 = s.work g := by
  obtain ⟨known, path, starts⟩ := s
  cases path with
  | cons f path =>
      obtain ⟨hinv, hwork, hkeep, hpath⟩ := h.search.step hg hrange
      rw [next_of_path, Option.some.injEq] at hs
      subst hs
      refine ⟨⟨hinv, h.covers.step fun v _ hv => ?_⟩, ?_⟩
      · rcases hv with hknown | hmem
        · exact .inl (hkeep v hknown)
        · exact hpath v hmem
      · rw [work, work, ← hwork]
        exact Nat.add_right_comm _ _ _
  | nil =>
      cases starts with
      | nil => cases hs
      | cons v starts =>
          by_cases hv : known.getD v (some false) = none
          · simp only [Survey.next, if_pos hv, Option.some.injEq] at hs
            subst hs
            obtain ⟨hstart, hwork⟩ := h.search.start hv
            refine ⟨⟨hstart, h.covers.proceed fun _ => .inr (by simp)⟩, ?_⟩
            simp only [work, hwork, List.length_cons]
            omega
          · simp only [Survey.next, if_neg hv, Option.some.injEq] at hs
            subst hs
            refine ⟨⟨h.search, h.covers.proceed fun hlt => .inl ?_⟩, ?_⟩
            · exact Digraph.getD_ne_none (h.search.size ▸ hlt) hv
            · simp only [work, List.length_cons]
              omega

/-! ## The whole loop -/

theorem inv_initial (g : Digraph) (isMarked : Nat → Bool) : Inv g isMarked (initial g) :=
  ⟨reachInv_replicate g isMarked, covers_initial g⟩

theorem work_initial (g : Digraph) : (initial g).work g = 2 * g.size + g.edgeCount := by
  have hfresh : reachWork g (initial g).known [] = g.freshWork fun _ => true := by
    refine freshWork_congr fun v _ => ?_
    rw [initial, getD_replicate_self]
    rfl
  rw [work]
  show reachWork g (initial g).known [] + (List.range g.size).length = _
  rw [hfresh, freshWork_true, List.length_range]
  omega

theorem Inv.work_eq_zero (h : Inv g isMarked s) (hs : s.next g isMarked = none) :
    s.work g = 0 := by
  obtain ⟨hpath, hstarts⟩ := next_eq_none_iff.mp hs
  have hfresh : reachWork g s.known [] = g.freshWork fun _ => false := by
    refine freshWork_congr fun v hv => ?_
    obtain ⟨b, hb⟩ := Option.ne_none_iff_exists'.mp (h.covers.getD_ne_none hs hv)
    rw [hb]
    rfl
  rw [work, hpath, hstarts, hfresh, freshWork_false]
  rfl

/-- Each state that the loop comes to is in order. -/
theorem inv_of_reaches (hg : g.Acyclic) (hrange : g.InRange)
    (hs : StateTransition.Reaches (next g isMarked) (initial g) s) : Inv g isMarked s := by
  induction hs with
  | refl => exact inv_initial g isMarked
  | tail _ hstep ih => exact (ih.next hg hrange hstep).1

/-- The loop ends with the verdicts of the bounded search, after a step for each node
that is started from, one for each edge, and one for each node that is settled. -/
theorem endsAfter (hg : g.Acyclic) (hrange : g.InRange) :
    EndsAfter (next g isMarked) (2 * g.size + g.edgeCount) (initial g)
      ⟨g.reaching isMarked, [], []⟩ := by
  obtain ⟨t, hinv, hend⟩ := EndsAfter.of_work (fun _ _ h hs => h.next hg hrange hs)
    (fun _ h hs => h.work_eq_zero hs) (inv_initial g isMarked)
  rw [work_initial] at hend
  obtain ⟨hpath, hstarts⟩ := next_eq_none_iff.mp hend.next_eq_none
  obtain ⟨hreach, hall⟩ := @reachInv_reaching g isMarked hg hrange
  have hknown : t.known = g.reaching isMarked := by
    refine ext_getD none (hinv.search.size.trans hreach.size.symm) fun v hv => ?_
    rw [hinv.search.size] at hv
    exact hreach.getD_eq hinv.search (hall v hv) (hinv.covers.getD_ne_none hend.next_eq_none hv) .rfl
  obtain ⟨known, path, starts⟩ := t
  cases hpath
  cases hstarts
  cases hknown
  exact hend

end Survey

/-! ## On a cycle -/

namespace Survey

variable {g : Digraph} {isMarked : Nat → Bool} {s s' : Survey}

/-- In a graph that may have cycles, the nodes with a verdict lie off them. -/
structure OffCycles (g : Digraph) (s : Survey) : Prop where
  size : s.known.size = g.size
  nodes : ∀ v ∈ s.path.map Frame.node, v < g.size
  path : SearchPath g (fun w => s.known.getD w none ≠ none) none s.path
  covers : s.Covers g
  off : ∀ v, s.known.getD v none ≠ none → ¬ TransGen g.Step v v

namespace OffCycles

/-- Settling a node that has no more edges. On a cycle through the node the next one
would lie on it too, and has been settled before. -/
theorem leave {known : Array Verdict} {v : Nat} {path : List Frame} {starts : List Nat}
    (h : OffCycles g ⟨known, ⟨v, []⟩ :: path, starts⟩) (b : Bool) :
    OffCycles g ⟨known.setIfInBounds v (some b), path, starts⟩ := by
  have hv : v < known.size := by
    rw [h.size]
    exact h.nodes v (by simp)
  have hself : (known.setIfInBounds v (some b)).getD v none ≠ none := by
    rw [getD_setIfInBounds_self _ _ hv]
    simp
  have hkeep : ∀ u, known.getD u none ≠ none →
      (known.setIfInBounds v (some b)).getD u none ≠ none := by
    intro u hu
    by_cases huv : v = u
    · exact huv ▸ hself
    · rwa [getD_setIfInBounds_ne _ _ _ huv]
  refine ⟨by simp [h.size], fun u hu => h.nodes u (List.mem_cons_of_mem _ hu),
    h.path.pop hkeep hself, h.covers.step fun u _ hu => ?_, fun u hu => ?_⟩
  · rcases hu with hknown | hmem
    · exact .inl (hkeep u hknown)
    · rcases List.mem_cons.mp hmem with rfl | hmem
      · exact .inl hself
      · exact .inr hmem
  · by_cases huv : v = u
    · subst huv
      intro hcycle
      obtain ⟨w, hw, hback⟩ := TransGen.head'_iff.mp hcycle
      exact h.off w (h.path.settled_of_step hw) (TransGen.tail' hback hw)
    · rw [getD_setIfInBounds_ne _ _ _ huv] at hu
      exact h.off u hu

/-- Following an edge to a node without a verdict, which may be on the path. -/
theorem enter {known : Array Verdict} {v w : Nat} {rest : List Nat} {path : List Frame}
    {starts : List Nat} (h : OffCycles g ⟨known, ⟨v, w :: rest⟩ :: path, starts⟩)
    (hw : w < g.size) :
    OffCycles g ⟨known, ⟨w, g.children w⟩ :: ⟨v, rest⟩ :: path, starts⟩ := by
  refine ⟨h.size, fun u hu => ?_, h.path.push, h.covers.step fun u _ hu => ?_, h.off⟩
  · rcases List.mem_cons.mp hu with rfl | hu
    · exact hw
    · exact h.nodes u hu
  · exact hu.imp_right (List.mem_cons_of_mem _)

theorem next (hrange : g.InRange) (h : OffCycles g s) (hs : s.next g isMarked = some s') :
    OffCycles g s' := by
  obtain ⟨known, path, starts⟩ := s
  rcases path with _ | ⟨⟨v, _ | ⟨w, rest⟩⟩, path⟩
  · cases starts with
    | nil => cases hs
    | cons v starts =>
        by_cases hv : known.getD v (some false) = none
        · simp only [Survey.next, if_pos hv, Option.some.injEq] at hs
          subst hs
          refine ⟨h.size, fun u hu => ?_, .start v,
            h.covers.proceed fun _ => .inr (by simp), h.off⟩
          have huv : u = v := by simpa using hu
          exact huv ▸ h.size ▸ (getD_eq_none_iff.mp hv).1
        · simp only [Survey.next, if_neg hv, Option.some.injEq] at hs
          subst hs
          refine ⟨h.size, h.nodes, h.path, h.covers.proceed fun hlt => .inl ?_, h.off⟩
          exact getD_ne_none (h.size ▸ hlt) hv
  · rw [next_of_path, Option.some.injEq] at hs
    exact hs ▸ h.leave (g.verdictOn isMarked known v)
  · have hlt : w < g.size := hrange v w h.path.step_head
    rw [next_of_path, Option.some.injEq] at hs
    subst hs
    cases hw : known.getD w (some false) with
    | none =>
        simp only [reachStep, hw]
        exact h.enter hlt
    | some b =>
        have hsome : known.getD w none ≠ none := getD_ne_none (h.size ▸ hlt) (by simp [hw])
        simp only [reachStep, hw]
        exact ⟨h.size, h.nodes, h.path.take hsome, h.covers, h.off⟩

end OffCycles

theorem offCycles_initial (g : Digraph) : OffCycles g (initial g) := by
  have hnone : ∀ v, (initial g).known.getD v none = none := fun v => getD_replicate_self _ v _
  exact ⟨by simp [initial], by simp [initial], .nil, covers_initial g,
    fun v hv => absurd (hnone v) hv⟩

/-- **The loop ends in the graphs without cycles and in no others.** -/
theorem dom_eval_iff_acyclic (hrange : g.InRange) :
    (StateTransition.eval (next g isMarked) (initial g)).Dom ↔ g.Acyclic := by
  constructor
  · intro hdom v hcycle
    obtain ⟨t, ht⟩ := Part.dom_iff_mem.mp hdom
    obtain ⟨hreaches, hdone⟩ := StateTransition.mem_eval.mp ht
    have hoff : OffCycles g t := by
      clear ht hdone
      induction hreaches with
      | refl => exact offCycles_initial g
      | tail _ hstep ih => exact ih.next hrange hstep
    have hknown := hoff.covers.getD_ne_none hdone (lt_size_of_transGen hcycle)
    exact hoff.off v hknown hcycle
  · intro hg
    exact Part.dom_iff_mem.mpr ⟨_, (endsAfter hg hrange).mem_eval⟩

end Survey

/-! ## Order -/

/-- Another graph has the nodes of a graph in another order, and the edges of each
node in any order. -/
structure Reorders (σ : Equiv.Perm Nat) (g g' : Digraph) : Prop where
  lt_size : ∀ v, σ v < g'.size ↔ v < g.size
  children : ∀ v, (g'.children (σ v)).Perm ((g.children v).map σ)

namespace Reorders

variable {σ : Equiv.Perm Nat} {g g' : Digraph} {isMarked isMarked' : Nat → Bool} {v : Nat}

theorem step_eq (h : Reorders σ g g') : g'.Step = Relation.Map g.Step σ σ := by
  funext x y
  obtain ⟨v, rfl⟩ := σ.surjective x
  refine propext ?_
  rw [Step, (h.children v).mem_iff, List.mem_map]
  constructor
  · rintro ⟨w, hw, rfl⟩
    exact ⟨v, w, hw, rfl, rfl⟩
  · rintro ⟨v', w, hw, heq, rfl⟩
    rw [σ.injective heq] at hw
    exact ⟨w, hw, rfl⟩

theorem acyclic (h : Reorders σ g g') (hg : g.Acyclic) : g'.Acyclic := by
  rw [Acyclic, h.step_eq]
  exact (acyclic_map_iff (s := Set.univ) σ.injective.injOn (by simp)).mpr hg

theorem inRange (h : Reorders σ g g') (hrange : g.InRange) : g'.InRange := by
  intro x y hxy
  rw [h.step_eq] at hxy
  obtain ⟨v, w, hw, rfl, rfl⟩ := hxy
  exact (h.lt_size w).mpr (hrange v w hw)

theorem reflTransGen_iff (h : Reorders σ g g') {w : Nat} :
    ReflTransGen g'.Step (σ v) (σ w) ↔ ReflTransGen g.Step v w := by
  rw [h.step_eq]
  exact reflTransGen_map_iff (s := Set.univ) σ.injective.injOn (by simp) trivial trivial

theorem reaches_iff (h : Reorders σ g g') (hrange : g.InRange)
    (hmarked : ∀ v, v < g.size → isMarked' (σ v) = isMarked v) (hv : v < g.size) :
    g'.Reaches isMarked' (σ v) ↔ g.Reaches isMarked v := by
  constructor
  · rintro ⟨x, hx, hpath⟩
    obtain ⟨w, rfl⟩ := σ.surjective x
    rw [h.reflTransGen_iff] at hpath
    rw [hmarked w (hrange.lt_size hv hpath)] at hx
    exact ⟨w, hx, hpath⟩
  · rintro ⟨w, hw, hpath⟩
    rw [← hmarked w (hrange.lt_size hv hpath)] at hw
    exact ⟨σ w, hw, h.reflTransGen_iff.mpr hpath⟩

/-- A node has the same verdict in any order. -/
theorem reaching_getD_eq (h : Reorders σ g g') (hg : g.Acyclic) (hrange : g.InRange)
    (hmarked : ∀ v, v < g.size → isMarked' (σ v) = isMarked v) (v : Nat) :
    (g'.reaching isMarked').getD (σ v) none = (g.reaching isMarked).getD v none := by
  obtain ⟨hinv, hall⟩ := @reachInv_reaching g isMarked hg hrange
  obtain ⟨hinv', hall'⟩ := @reachInv_reaching g' isMarked' (h.acyclic hg) (h.inRange hrange)
  by_cases hv : v < g.size
  · exact hinv.getD_eq hinv' (hall v hv) (hall' _ ((h.lt_size v).mpr hv))
      (h.reaches_iff hrange hmarked hv)
  · have hv' : ¬ σ v < g'.size := mt (h.lt_size v).mp hv
    rw [Nat.not_lt] at hv hv'
    rw [getD_of_size_le none (hinv'.size ▸ hv'), getD_of_size_le none (hinv.size ▸ hv)]

end Reorders

/-! ## What the loop comes to -/

/-- What is to be said of the whole search for marked nodes: as a loop without a bound
it ends, it never has a node on its path twice, and the verdict on a node is whether a
marked node can be reached from it, in whatever order nodes and edges stand. -/
structure Surveyed (g : Digraph) (isMarked : Nat → Bool) : Prop where
  ends : EndsAfter (Survey.next g isMarked) (2 * g.size + g.edgeCount) (Survey.initial g)
    ⟨g.reaching isMarked, [], []⟩
  apart : ∀ s, StateTransition.Reaches (Survey.next g isMarked) (Survey.initial g) s →
    (s.path.map Frame.node).Nodup
  verdict : ∀ v, v < g.size →
    ((g.reaching isMarked).getD v none = some true ↔ g.Reaches isMarked v)
  reordered : ∀ σ g' isMarked', Reorders σ g g' →
    (∀ v, v < g.size → isMarked' (σ v) = isMarked v) →
      ∀ v, (g'.reaching isMarked').getD (σ v) none = (g.reaching isMarked).getD v none

theorem surveyed_of_acyclic {g : Digraph} (hg : g.Acyclic) (hrange : g.InRange)
    (isMarked : Nat → Bool) : g.Surveyed isMarked where
  ends := Survey.endsAfter hg hrange
  apart _ hs := (Survey.inv_of_reaches hg hrange hs).search.path.nodup hg
  verdict _ hv := reaching_getD hg hrange hv
  reordered _ _ _ h hmarked := h.reaching_getD_eq hg hrange hmarked

end Digraph

end VisualRules
