import VisualRules.Proofs.Graph.Reaching
import VisualRules.Proofs.Rendering.Phrase
import VisualRules.Proofs.Validation.WellFormed

/-!
# The outline of a rule

The outline from which expressions are written holds what it should: the nodes
by place, which of them are live, and the live operands of each.
-/

namespace VisualRules

open Relation

/-! ## Arrays -/

theorem getD_map {α β : Type} (f : α → β) (a : Array α) (i : Nat) (d : α) :
    (a.map f).getD i (f d) = f (a.getD i d) := by
  by_cases hlt : i < a.size <;> simp [hlt]

namespace Outline

/-- The node at a place. -/
def nodeAt (o : Outline) (v : Nat) : Node :=
  o.nodes.getD v default

/-- A place is live when tokens are written of its node. -/
def LiveAt (o : Outline) (v : Nat) : Prop :=
  o.live.getD v false = true

/-- What the writing relies on. -/
structure Sound (o : Outline) : Prop where
  size : o.operands.size = o.nodes.size
  inj : ∀ v w, v < o.nodes.size → w < o.nodes.size →
    (o.nodeAt v).id = (o.nodeAt w).id → v = w
  inRange : o.operands.InRange
  acyclic : o.operands.Acyclic
  operand_live : ∀ v w, o.operands.Step v w → o.LiveAt w
  live_logic : ∀ v, o.LiveAt v → (o.nodeAt v).isLogic = true → o.operands.children v ≠ []

end Outline

/-- The outline of a graph. -/
def TriggerLogic.outline (g : TriggerLogic) : Outline :=
  Outline.ofLinks g.nodes g.resolved

namespace TriggerLogic.WellFormed

variable {g : TriggerLogic}

/-! ## Nodes -/

theorem size_nodes_outline (g : TriggerLogic) : g.outline.nodes.size = g.nodes.length :=
  List.size_toArray

theorem nodeAt_outline {v : Nat} {n : Node} (hn : g.nodes[v]? = some n) :
    g.outline.nodeAt v = n := by
  show g.nodes.toArray.getD v default = n
  rw [Array.getD_eq_getD_getElem?, List.getElem?_toArray, hn]
  rfl

theorem getElem?_nodes {v : Nat} (hv : v < g.nodes.length) :
    g.nodes[v]? = some (g.outline.nodeAt v) := by
  rw [nodeAt_outline (List.getElem?_eq_getElem hv), List.getElem?_eq_getElem hv]

theorem getElem?_ids_outline {v : Nat} (hv : v < g.nodes.length) :
    g.ids[v]? = some (g.outline.nodeAt v).id :=
  getElem?_ids (getElem?_nodes hv)

/-! ## Liveness -/

theorem reaches_iff_live (h : g.WellFormed) {v : Nat} (hv : v < g.nodes.length) :
    g.digraph.Reaches (fun w => (g.outline.nodeAt w).isContent) v
      ↔ g.Live (g.outline.nodeAt v) := by
  constructor
  · rintro ⟨w, hw, hpath⟩
    have hwlt : w < g.nodes.length := by
      rw [← size_digraph] at hv ⊢
      exact h.inRange_digraph.lt_size hv hpath
    exact ⟨_, List.mem_of_getElem? (getElem?_nodes hwlt), hw,
      (h.mirrors_digraph.reflTransGen_iff (getElem?_ids_outline hv)
        (getElem?_ids_outline hwlt)).mp hpath⟩
  · rintro ⟨m, hm, hcontent, hpath⟩
    obtain ⟨w, hw⟩ := List.mem_iff_getElem?.mp hm
    refine ⟨w, ?_, ?_⟩
    · show (g.outline.nodeAt w).isContent = true
      rwa [nodeAt_outline hw]
    · exact (h.mirrors_digraph.reflTransGen_iff (getElem?_ids_outline hv)
        (getElem?_ids hw)).mpr hpath

theorem liveAt_iff (h : g.WellFormed) {v : Nat} (hv : v < g.nodes.length) :
    g.outline.LiveAt v ↔ g.Live (g.outline.nodeAt v) := by
  have hsize : v < g.digraph.size := by rwa [size_digraph]
  have hverdict : (g.digraph.reaching fun w => (g.outline.nodeAt w).isContent).getD v none
      = some true ↔ _ :=
    Digraph.reaching_getD h.acyclic_digraph h.inRange_digraph hsize
  rw [h.reaches_iff_live hv] at hverdict
  -- A node without a verdict counts as not live, in and out of range.
  have hmap : g.outline.live.getD v false = _ := getD_map (· == some true) _ v none
  rw [← hverdict, Outline.LiveAt, hmap, beq_iff_eq]
  rfl

theorem lt_of_liveAt (h : g.WellFormed) {v : Nat} (hlive : g.outline.LiveAt v) :
    v < g.nodes.length := by
  have hsize : g.outline.live.size = g.nodes.length := by
    rw [← size_digraph]
    exact Array.size_map.trans
      (Digraph.reachInv_reaching h.acyclic_digraph h.inRange_digraph).1.size
  rcases Nat.lt_or_ge v g.nodes.length with hlt | hge
  · exact hlt
  · rw [Outline.LiveAt, getD_of_size_le false (hsize ▸ hge)] at hlive
    cases hlive

/-! ## Operands -/

theorem children_outline (g : TriggerLogic) (v : Nat) : g.outline.operands.children v
    = (g.digraph.children v).filter fun w => g.outline.live.getD w false := by
  exact getD_map (List.filter fun w => g.outline.live.getD w false) g.digraph.targets v []

theorem step_outline {v w : Nat} :
    g.outline.operands.Step v w ↔ g.digraph.Step v w ∧ g.outline.LiveAt w := by
  rw [Digraph.Step, children_outline, List.mem_filter]
  rfl

theorem lt_of_mem_children (h : g.WellFormed) {v w : Nat} (hw : w ∈ g.digraph.children v) :
    w < g.nodes.length := by
  have hlt := h.inRange_digraph v w hw
  rwa [size_digraph] at hlt

/-- The operands of a node are those at the targets of its place, none left out. -/
theorem children_eq_map (h : g.WellFormed) {v : Nat} (hv : v < g.nodes.length) :
    g.children (g.outline.nodeAt v).id = (g.digraph.children v).map g.outline.nodeAt := by
  rw [h.children_eq (getElem?_nodes hv), ← List.filterMap_eq_map]
  exact List.filterMap_congr fun w hw => getElem?_nodes (h.lt_of_mem_children hw)

theorem map_children_outline (h : g.WellFormed) {v : Nat} (hv : v < g.nodes.length) :
    (g.outline.operands.children v).map g.outline.nodeAt
      = g.liveChildren (g.outline.nodeAt v) := by
  classical
  rw [TriggerLogic.liveChildren, h.children_eq_map hv, List.filter_map, children_outline]
  congr 1
  refine List.filter_congr fun w hw => ?_
  rw [Bool.eq_iff_iff, Function.comp_apply, decide_eq_true_eq,
    ← h.liveAt_iff (h.lt_of_mem_children hw)]
  rfl

/-- A live logic node owes its being live to an operand. -/
theorem exists_step_of_live (h : g.WellFormed) {v : Nat} (hlive : g.outline.LiveAt v)
    (hlogic : (g.outline.nodeAt v).isLogic = true) :
    ∃ w, g.outline.operands.Step v w := by
  have hv := h.lt_of_liveAt hlive
  rw [h.liveAt_iff hv, ← h.reaches_iff_live hv, Digraph.reaches_iff] at hlive
  rcases hlive with hcontent | ⟨w, hstep, hreach⟩
  · rw [Node.isLogic_eq_not_isContent, hcontent] at hlogic
    cases hlogic
  · have hw := h.lt_of_mem_children hstep
    exact ⟨w, step_outline.mpr ⟨hstep, (h.liveAt_iff hw).mpr ((h.reaches_iff_live hw).mp hreach)⟩⟩

theorem sound_outline (h : g.WellFormed) : g.outline.Sound where
  size := by
    rw [size_nodes_outline, ← size_digraph]
    exact Array.size_map
  inj v w hv hw hid := by
    rw [size_nodes_outline] at hv hw
    have hw' := getElem?_ids_outline hw
    rw [← hid] at hw'
    exact getElem?_unique h.nodup (getElem?_ids_outline hv) hw'
  inRange v w hstep := by
    have hsize : g.outline.operands.size = g.digraph.size := Array.size_map
    rw [hsize]
    exact h.inRange_digraph v w (step_outline.mp hstep).1
  acyclic v hcycle := by
    have hle : g.outline.operands.Step ≤ g.digraph.Step :=
      fun _ _ hstep => (step_outline.mp hstep).1
    exact h.acyclic_digraph v (TransGen.mono hle v v hcycle)
  operand_live v w hstep := (step_outline.mp hstep).2
  live_logic v hlive hlogic := by
    obtain ⟨w, hw⟩ := h.exists_step_of_live hlive hlogic
    exact List.ne_nil_of_mem hw

end TriggerLogic.WellFormed

end VisualRules
