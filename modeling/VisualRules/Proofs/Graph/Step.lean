import Mathlib.Algebra.Order.BigOperators.Group.Finset
import Mathlib.Data.Set.Function
import Mathlib.Logic.Relation
import Mathlib.Order.WellFoundedSet
import VisualRules.Rule.Search

/-!
# Steps of a digraph

The relation that a digraph by position stands for, what its construction from
a list of edges does to it, and the amount of work that is left to a search:
one unit for each node that has not been entered and one for each of its edges.
-/

namespace VisualRules

open Relation

/-! ## Chains that do not come back -/

/-- A relation on a list of values whose chains do not come back to where they
started can be recursed along. -/
theorem wellFounded_of_acyclic {α : Type} {R : α → α → Prop} (s : List α)
    (hs : ∀ a b, R a b → a ∈ s ∧ b ∈ s) (hR : ∀ a, ¬ TransGen R a a) : WellFounded R := by
  have hstrict : IsStrictOrder α (TransGen R) :=
    { irrefl := hR, trans := fun _ _ _ => TransGen.trans }
  have hon := (List.finite_toSet s).wellFoundedOn (r := TransGen R)
  rw [Set.wellFoundedOn_iff] at hon
  exact Subrelation.wf (fun hab => ⟨.single hab, hs _ _ hab⟩) hon

/-! ## Chains under new names -/

section Chains

variable {α β : Type} {R : α → α → Prop} {s : Set α} {f : α → β} {a b : α}

/-- A chain between new names comes from a chain between old ones. -/
theorem exists_transGen_of_map (hf : s.InjOn f) (hR : ∀ a b, R a b → a ∈ s ∧ b ∈ s)
    (ha : a ∈ s) {y : β} (h : TransGen (Relation.Map R f f) (f a) y) :
    ∃ b ∈ s, f b = y ∧ TransGen R a b := by
  -- Two steps meet at one new name; it stands for one old name because none is given twice.
  induction h with
  | single hstep =>
      obtain ⟨a', b, hab, heq, rfl⟩ := hstep
      obtain ⟨ha', hb⟩ := hR a' b hab
      rw [hf ha' ha heq] at hab
      exact ⟨b, hb, rfl, .single hab⟩
  | tail _ hstep ih =>
      obtain ⟨b, hb, rfl, hchain⟩ := ih
      obtain ⟨b', c, hbc, heq, rfl⟩ := hstep
      obtain ⟨hb', hc⟩ := hR b' c hbc
      rw [hf hb' hb heq] at hbc
      exact ⟨c, hc, rfl, hchain.tail hbc⟩

theorem transGen_map_iff (hf : s.InjOn f) (hR : ∀ a b, R a b → a ∈ s ∧ b ∈ s)
    (ha : a ∈ s) (hb : b ∈ s) :
    TransGen (Relation.Map R f f) (f a) (f b) ↔ TransGen R a b := by
  constructor
  · intro h
    obtain ⟨b', hb', heq, hchain⟩ := exists_transGen_of_map hf hR ha h
    rwa [hf hb' hb heq] at hchain
  · intro h
    exact h.lift f fun x y hxy => ⟨x, y, hxy, rfl, rfl⟩

theorem reflTransGen_map_iff (hf : s.InjOn f) (hR : ∀ a b, R a b → a ∈ s ∧ b ∈ s)
    (ha : a ∈ s) (hb : b ∈ s) :
    ReflTransGen (Relation.Map R f f) (f a) (f b) ↔ ReflTransGen R a b := by
  rw [reflTransGen_iff_eq_or_transGen, reflTransGen_iff_eq_or_transGen,
    transGen_map_iff hf hR ha hb, hf.eq_iff hb ha]

theorem acyclic_map_iff (hf : s.InjOn f) (hR : ∀ a b, R a b → a ∈ s ∧ b ∈ s) :
    (∀ x, ¬ TransGen (Relation.Map R f f) x x) ↔ ∀ a, ¬ TransGen R a a := by
  constructor
  · intro h a hcycle
    exact h (f a) (hcycle.lift f fun x y hxy => ⟨x, y, hxy, rfl, rfl⟩)
  · intro h x hcycle
    obtain ⟨_, ⟨a, b, hab, rfl, -⟩, -⟩ := TransGen.head'_iff.mp hcycle
    have ha := (hR a b hab).1
    exact h a ((transGen_map_iff hf hR ha ha).mp hcycle)

end Chains

/-! ## Reads after writes -/

theorem getD_setIfInBounds {α : Type} (a : Array α) (i j : Nat) (x d : α) :
    (a.setIfInBounds i x).getD j d
      = if i = j ∧ i < a.size then x else a.getD j d := by
  simp only [Array.getD_eq_getD_getElem?, Array.getElem?_setIfInBounds]
  by_cases hij : i = j
  · subst hij
    by_cases hlt : i < a.size <;> simp [hlt]
  · simp [hij]

theorem getD_setIfInBounds_self {α : Type} {a : Array α} {i : Nat} (x d : α)
    (h : i < a.size) : (a.setIfInBounds i x).getD i d = x := by
  rw [getD_setIfInBounds, if_pos ⟨rfl, h⟩]

theorem getD_setIfInBounds_ne {α : Type} (a : Array α) {i j : Nat} (x d : α)
    (h : i ≠ j) : (a.setIfInBounds i x).getD j d = a.getD j d := by
  rw [getD_setIfInBounds, if_neg (fun hij => h hij.1)]

/-- The places that are marked after marking one more. -/
theorem getD_true_setIfInBounds {x : Array Bool} {v u : Nat} (hv : v < x.size) :
    (x.setIfInBounds v true).getD u false = true ↔ u = v ∨ x.getD u false = true := by
  rw [getD_setIfInBounds]
  by_cases huv : v = u
  · simp [huv, huv ▸ hv]
  · simp [huv, Ne.symm huv]

theorem getD_of_size_le {α : Type} {a : Array α} {i : Nat} (d : α)
    (h : a.size ≤ i) : a.getD i d = d := by
  simp [Array.getElem?_eq_none h]

theorem ext_getD {α : Type} {a b : Array α} (d : α) (hsize : a.size = b.size)
    (h : ∀ i, i < a.size → a.getD i d = b.getD i d) : a = b := by
  refine Array.ext hsize fun i ha hb => ?_
  have hi := h i ha
  simpa [ha, hb] using hi

theorem getD_replicate_self {α : Type} (n i : Nat) (d : α) :
    (Array.replicate n d).getD i d = d := by
  by_cases hlt : i < n <;> simp [hlt]

namespace Digraph

/-! ## The relation of a graph -/

/-- There is an edge from one number to another. -/
def Step (g : Digraph) (v w : Nat) : Prop :=
  w ∈ g.children v

/-- No chain of edges leads back to the node at which it starts. -/
def Acyclic (g : Digraph) : Prop :=
  ∀ v, ¬ TransGen g.Step v v

/-- Every edge ends at a node. -/
def InRange (g : Digraph) : Prop :=
  ∀ v w, g.Step v w → w < g.size

theorem children_of_size_le {g : Digraph} {v : Nat} (h : g.size ≤ v) :
    g.children v = [] :=
  getD_of_size_le [] h

theorem Step.lt_size {g : Digraph} {v w : Nat} (h : g.Step v w) : v < g.size := by
  rcases Nat.lt_or_ge v g.size with hlt | hge
  · exact hlt
  · rw [Step, children_of_size_le hge] at h
    cases h

theorem lt_size_of_transGen {g : Digraph} {v w : Nat} (h : TransGen g.Step v w) :
    v < g.size := by
  obtain ⟨u, hu, -⟩ := TransGen.head'_iff.mp h
  exact hu.lt_size

theorem InRange.lt_size {g : Digraph} (hg : g.InRange) {v w : Nat} (hv : v < g.size)
    (h : ReflTransGen g.Step v w) : w < g.size := by
  rcases ReflTransGen.cases_tail h with rfl | ⟨u, -, huw⟩
  · exact hv
  · exact hg u w huw

/-! ## Graphs of a list of edges -/

theorem size_addFirst (link : Nat × Nat) (targets : Array (List Nat)) :
    (addFirst link targets).size = targets.size := by
  simp [addFirst]

theorem getD_addFirst (link : Nat × Nat) (targets : Array (List Nat)) (v : Nat) :
    (addFirst link targets).getD v []
      = if link.1 = v ∧ v < targets.size then link.2 :: targets.getD v []
        else targets.getD v [] := by
  simp only [addFirst, Array.getD_eq_getD_getElem?, Array.getElem?_modify]
  by_cases hv : link.1 = v
  · rcases Nat.lt_or_ge v targets.size with hlt | hge
    · simp [hv, hlt]
    · simp [hv, Nat.not_lt.mpr hge]
  · simp [hv]

theorem size_ofLinks (n : Nat) (links : List (Nat × Nat)) :
    (ofLinks n links).size = n := by
  show (links.foldr addFirst (Array.replicate n [])).size = n
  induction links with
  | nil => simp
  | cons link links ih => rw [List.foldr_cons, size_addFirst, ih]

/-- The targets of a node's edges are those listed, in the order of the list. -/
theorem children_ofLinks {n : Nat} (links : List (Nat × Nat)) {v : Nat}
    (hv : v < n) :
    (ofLinks n links).children v
      = (links.filter (fun l => l.1 = v)).map Prod.snd := by
  show (links.foldr addFirst (Array.replicate n [])).getD v [] = _
  induction links with
  | nil => simp [hv]
  | cons link links ih =>
      have hsize : (links.foldr addFirst (Array.replicate n [])).size = n :=
        size_ofLinks n links
      rw [List.foldr_cons, getD_addFirst, hsize, ih]
      by_cases hl : link.1 = v
      · simp [hl, hv]
      · simp [hl]

theorem step_ofLinks {n : Nat} {links : List (Nat × Nat)} {v w : Nat} :
    (ofLinks n links).Step v w ↔ v < n ∧ (v, w) ∈ links := by
  constructor
  · intro h
    have hv : v < n := by
      have hlt := h.lt_size
      rwa [size_ofLinks] at hlt
    rw [Step, children_ofLinks links hv] at h
    obtain ⟨l, hl, rfl⟩ := List.mem_map.mp h
    obtain ⟨hmem, hsource⟩ := List.mem_filter.mp hl
    have hsource' : l.1 = v := by simpa using hsource
    exact ⟨hv, hsource' ▸ hmem⟩
  · rintro ⟨hv, hmem⟩
    rw [Step, children_ofLinks links hv]
    exact List.mem_map.mpr ⟨(v, w), List.mem_filter.mpr ⟨hmem, by simp⟩, rfl⟩

theorem step_undirected {n : Nat} {links : List (Nat × Nat)} {v w : Nat} :
    (undirected n links).Step v w
      ↔ v < n ∧ ((v, w) ∈ links ∨ (w, v) ∈ links) := by
  rw [undirected, step_ofLinks]
  refine and_congr_right fun _ => ?_
  simp only [List.mem_flatMap, List.mem_cons, List.not_mem_nil, or_false,
    Prod.mk.injEq, Prod.exists]
  constructor
  · rintro ⟨s, t, hmem, ⟨rfl, rfl⟩ | ⟨rfl, rfl⟩⟩
    · exact .inl hmem
    · exact .inr hmem
  · rintro (hmem | hmem)
    · exact ⟨v, w, hmem, .inl ⟨rfl, rfl⟩⟩
    · exact ⟨w, v, hmem, .inr ⟨rfl, rfl⟩⟩

/-! ## Work that is left to a search -/

/-- One unit for each node that is still fresh and one for each of its edges. -/
def freshWork (g : Digraph) (fresh : Nat → Bool) : Nat :=
  ∑ v ∈ Finset.range g.size, if fresh v then (g.children v).length + 1 else 0

/-- Two sums over the nodes that differ at one node only. -/
theorem sum_range_drop {n w d : Nat} {f f' : Nat → Nat} (hw : w < n)
    (hne : ∀ v, v ≠ w → f v = f' v) (heq : f w = f' w + d) :
    ∑ v ∈ Finset.range n, f v = (∑ v ∈ Finset.range n, f' v) + d := by
  have hmem : w ∈ Finset.range n := Finset.mem_range.mpr hw
  rw [← Finset.add_sum_erase _ f hmem, ← Finset.add_sum_erase _ f' hmem, heq,
    Finset.sum_congr rfl (fun v hv => hne v (Finset.ne_of_mem_erase hv))]
  exact Nat.add_right_comm _ _ _

/-- Entering a fresh node takes its unit and those of its edges away. -/
theorem freshWork_enter {g : Digraph} {fresh fresh' : Nat → Bool} {w : Nat}
    (hw : w < g.size) (hfresh : fresh w = true) (hfresh' : fresh' w = false)
    (hne : ∀ v, v ≠ w → fresh v = fresh' v) :
    g.freshWork fresh = g.freshWork fresh' + ((g.children w).length + 1) := by
  refine sum_range_drop hw (fun v hv => ?_) ?_
  · rw [hne v hv]
  · simp [hfresh, hfresh']

theorem freshWork_congr {g : Digraph} {fresh fresh' : Nat → Bool}
    (h : ∀ v, v < g.size → fresh v = fresh' v) : g.freshWork fresh = g.freshWork fresh' := by
  refine Finset.sum_congr rfl fun v hv => ?_
  rw [h v (Finset.mem_range.mp hv)]

theorem foldl_length_eq_sum (ts : List (List Nat)) (k : Nat) :
    ts.foldl (fun n t => n + t.length) k
      = k + ∑ v ∈ Finset.range ts.length, (ts.getD v []).length := by
  induction ts generalizing k with
  | nil => simp
  | cons t ts ih =>
      rw [List.foldl_cons, ih, List.length_cons, Finset.sum_range_succ']
      simp only [List.getD_cons_succ, List.getD_cons_zero]
      omega

theorem edgeCount_eq_sum (g : Digraph) :
    g.edgeCount = ∑ v ∈ Finset.range g.size, (g.children v).length := by
  have h := foldl_length_eq_sum g.targets.toList 0
  rw [Array.foldl_toList, Nat.zero_add] at h
  simpa [edgeCount, size, children, List.getD_eq_getElem?_getD] using h

/-- When every node is fresh, all nodes and all edges are left. -/
theorem freshWork_true (g : Digraph) :
    (g.freshWork fun _ => true) = g.size + g.edgeCount := by
  simp only [freshWork, if_true]
  rw [Finset.sum_add_distrib, ← edgeCount_eq_sum, ← Finset.card_eq_sum_ones,
    Finset.card_range, Nat.add_comm]

theorem freshWork_false (g : Digraph) : (g.freshWork fun _ => false) = 0 := by
  simp [freshWork]

/-- The bound on the steps of a search leaves a step to spare when every node
is fresh. -/
theorem freshWork_lt_stepBound (g : Digraph) (fresh : Nat → Bool) :
    g.freshWork fresh < g.stepBound := by
  have hle : g.freshWork fresh ≤ g.freshWork fun _ => true := by
    refine Finset.sum_le_sum fun v _ => ?_
    split <;> simp
  rw [freshWork_true] at hle
  exact Nat.lt_succ_of_le hle

end Digraph

end VisualRules
