import VisualRules.Proofs.Rendering.Writing

/-!
# Writing out all roots

The roots are written one after the other and share the record of the groups
that have been opened. Since there is a root above every node, each live logic
node has its group in exactly one place.
-/

namespace VisualRules

open Relation

namespace Outline

variable {o : Outline} {operands : Node → List Node} {earlier : List Token}

/-! ## One root -/

theorem writeWork_start_le (o : Outline) (x : Array Bool) (v : Nat) :
    writeWork o ⟨x, [], [.visit v]⟩ ≤ o.taskBound := by
  have hlt := Digraph.freshWork_lt_stepBound o.operands fun u => !x.getD u false
  simp only [Digraph.stepBound] at hlt
  simp only [writeWork, taskBound, List.length_singleton]
  omega

/-- The invariant between two roots, when nothing is pending. -/
def Rest (o : Outline) (earlier : List Token) (x : Array Bool) : Prop :=
  WriteInv o earlier ⟨x, [], []⟩

theorem Rest.start {x : Array Bool} {v : Nat} (h : o.Rest earlier x) (hlive : o.LiveAt v)
    (hv : v < o.nodes.size) : WriteInv o earlier ⟨x, [], [.visit v]⟩ where
  size := h.size
  visits w hw := by
    have hwv : w = v := by simpa using hw
    exact hwv ▸ ⟨hlive, hv⟩
  writes t ht := by simp at ht
  inside := List.pairwise_singleton _ _
  opened := h.opened
  only := h.only
  closed w hw := .inl ((h.closed w hw).resolve_right (by simp))
  resolved := h.resolved
  below u w hu hstep hlogic := .inl ((h.below u w hu hstep hlogic).resolve_right (by simp))

theorem WriteInv.rest {s : Writing} (h : WriteInv o earlier s) (hdone : s.tasks = []) :
    o.Rest (earlier ++ s.tokens.reverse) s.expanded := by
  obtain ⟨x, out, tasks⟩ := s
  cases hdone
  have hout : Writing.output ⟨x, [], []⟩ (earlier ++ out.reverse)
      = Writing.output ⟨x, out, []⟩ earlier := by
    simp [Writing.output]
  refine ⟨h.size, h.visits, h.writes, h.inside, ?_, ?_, ?_, ?_, h.below⟩
  · rw [hout]
    exact h.opened
  · rw [hout]
    exact h.only
  · rw [hout]
    exact h.closed
  · rw [hout]
    exact h.resolved

theorem writeRoot_of_live {bound v : Nat} {x : Array Bool} (h : o.LiveAt v) :
    o.writeRoot bound x v = ((o.run bound ⟨x, [], [.visit v]⟩).expanded,
      (o.run bound ⟨x, [], [.visit v]⟩).tokens.reverse) :=
  if_pos h

theorem writeRoot_of_dead {bound v : Nat} {x : Array Bool} (h : ¬ o.LiveAt v) :
    o.writeRoot bound x v = (x, []) :=
  if_neg h

/-- What is written of a root, and the record that it leaves behind. -/
structure RootWritten (o : Outline) (operands : Node → List Node) (v : Nat)
    (x x' : Array Bool) (ts : List Token) : Prop where
  dead : ¬ o.LiveAt v → ts = []
  live : o.LiveAt v → Phrase operands (o.nodeAt v) ts
  due : o.LiveAt v → (o.nodeAt v).isLogic = true → x'.getD v false = true
  kept : ∀ w, x.getD w false = true → x'.getD w false = true

theorem writeRoot_spec {x : Array Bool} {v : Nat} (ho : o.Sound) (hlists : o.Lists operands)
    (h : o.Rest earlier x) (hv : v < o.nodes.size) :
    let p := o.writeRoot o.taskBound x v
    o.Rest (earlier ++ p.2) p.1 ∧ RootWritten o operands v x p.1 p.2 := by
  by_cases hlive : o.LiveAt v
  · rw [writeRoot_of_live hlive]
    obtain ⟨hinv, hdone, ⟨us, hpieces, hout⟩, hdue⟩ :=
      (h.start hlive hv).run ho hlists (writeWork_start_le o x v)
    refine ⟨hinv.rest hdone, fun hdead => absurd hlive hdead, fun _ => ?_,
      fun _ hlogic => hdue v (.inr ⟨by simp, hlogic⟩), fun w hw => hdue w (.inl hw)⟩
    cases hpieces with
    | @visit _ ts _ us phrase hrest =>
        cases hrest
        show Phrase operands (o.nodeAt v) (o.run o.taskBound _).tokens.reverse
        rw [hout]
        simpa using phrase
  · rw [writeRoot_of_dead hlive]
    refine ⟨?_, fun _ => rfl, fun h => absurd h hlive, fun h => absurd h hlive, fun _ hw => hw⟩
    rw [List.append_nil]
    exact h

/-! ## Several roots -/

/-- What the expression of a root is. -/
structure Expresses (o : Outline) (operands : Node → List Node) (v : Nat) (e : Expression) :
    Prop where
  lt_size : v < o.nodes.size
  root : e.root = (o.nodeAt v).id
  dead : ¬ o.LiveAt v → e.tokens = []
  live : o.LiveAt v → Phrase operands (o.nodeAt v) e.tokens

theorem writeRoots_spec (ho : o.Sound) (hlists : o.Lists operands) (vs : List Nat)
    {x : Array Bool} (h : o.Rest earlier x) (hvs : ∀ v ∈ vs, v < o.nodes.size) :
    let es := o.writeRoots o.taskBound x vs
    List.Forall₂ (Expresses o operands) vs es
      ∧ ∃ x', o.Rest (earlier ++ es.flatMap Expression.tokens) x'
        ∧ (∀ v ∈ vs, o.LiveAt v → (o.nodeAt v).isLogic = true → x'.getD v false = true)
        ∧ ∀ w, x.getD w false = true → x'.getD w false = true := by
  induction vs generalizing x earlier with
  | nil => exact ⟨.nil, x, by simpa [writeRoots] using h, by simp, fun _ hw => hw⟩
  | cons v vs ih =>
      obtain ⟨hrest, hroot⟩ := writeRoot_spec ho hlists h (hvs v (by simp))
      obtain ⟨hall, x', hrest', hdue, hkept⟩ := ih hrest fun w hw => hvs w (by simp [hw])
      refine ⟨.cons ⟨hvs v (by simp), rfl, hroot.dead, hroot.live⟩ hall, x', ?_,
        fun w hw hlive hlogic => ?_, fun w hw => hkept w (hroot.kept w hw)⟩
      · rw [List.append_assoc] at hrest'
        exact hrest'
      · rcases List.mem_cons.mp hw with rfl | hw
        · exact hkept w (hroot.due hlive hlogic)
        · exact hdue w hw hlive hlogic

end Outline

/-! ## The roots of a graph -/

namespace TriggerLogic.WellFormed

variable {g : TriggerLogic}

theorem nodes_eq_map (g : TriggerLogic) :
    g.nodes = (List.range g.nodes.length).map g.outline.nodeAt := by
  refine List.ext_getElem? fun v => ?_
  rcases Nat.lt_or_ge v g.nodes.length with hlt | hge
  · rw [getElem?_nodes hlt]
    simp [hlt]
  · rw [List.getElem?_eq_none hge, List.getElem?_eq_none (by simpa using hge)]

theorem pointedTo_iff (h : g.WellFormed) {v : Nat} (hv : v < g.nodes.length) :
    (g.resolved.foldl (fun a link => a.setIfInBounds link.2 true)
      (Array.replicate g.nodes.length false)).getD v false = true
      ↔ ∃ e ∈ g.edges, e.target = (g.outline.nodeAt v).id := by
  have hlength : g.nodes.length = g.ids.length := by rw [ids, List.length_map]
  rw [hlength]
  exact h.placed.pointedTo_iff (getElem?_ids_outline hv)

theorem mem_rootPlaces (h : g.WellFormed) {v : Nat} :
    v ∈ rootPlaces g.nodes.length g.resolved
      ↔ v < g.nodes.length ∧ ∀ e ∈ g.edges, e.target ≠ (g.outline.nodeAt v).id := by
  rw [rootPlaces, List.mem_filter, List.mem_range]
  refine and_congr_right fun hv => ?_
  rw [Bool.not_eq_true', ← Bool.not_eq_true, h.pointedTo_iff hv]
  simp

theorem map_rootPlaces (h : g.WellFormed) :
    (rootPlaces g.nodes.length g.resolved).map g.outline.nodeAt = g.roots := by
  rw [roots, nodes_eq_map g, List.filter_map, List.length_map, List.length_range, rootPlaces]
  congr 1
  refine List.filter_congr fun v hv => ?_
  rw [Bool.eq_iff_iff, Bool.not_eq_true', ← Bool.not_eq_true,
    h.pointedTo_iff (List.mem_range.mp hv)]
  simp

/-! ## Groups of all live logic nodes -/

/-- A node with an operand is a logic node, and live when the operand is. -/
theorem live_of_step (h : g.WellFormed) {u v : Nat} (hstep : g.digraph.Step u v)
    (hlive : g.outline.LiveAt v) :
    g.outline.LiveAt u ∧ (g.outline.nodeAt u).isLogic = true := by
  have hu : u < g.nodes.length := size_digraph g ▸ hstep.lt_size
  have hv := h.lt_of_liveAt hlive
  constructor
  · rw [h.liveAt_iff hu, ← h.reaches_iff_live hu, Digraph.reaches_iff]
    rw [h.liveAt_iff hv, ← h.reaches_iff_live hv] at hlive
    exact .inr ⟨v, hstep, hlive⟩
  · obtain ⟨a, b, ha, -, e, he, rfl, -⟩ := (h.mirrors_digraph.iff u v).mp hstep
    rw [getElem?_ids_outline hu] at ha
    exact h.leaves e he _ (List.mem_of_getElem? (getElem?_nodes hu)) (Option.some.inj ha)

/-- A record that holds the live logic nodes among the roots, and with a node
those below it, holds them all. -/
theorem opened_of_roots (h : g.WellFormed) {x : Array Bool}
    (hroots : ∀ v ∈ rootPlaces g.nodes.length g.resolved, g.outline.LiveAt v →
      (g.outline.nodeAt v).isLogic = true → x.getD v false = true)
    (hbelow : ∀ v w, x.getD v false = true → g.outline.operands.Step v w →
      (g.outline.nodeAt w).isLogic = true → x.getD w false = true)
    {v : Nat} (hlive : g.outline.LiveAt v) (hlogic : (g.outline.nodeAt v).isLogic = true) :
    x.getD v false = true := by
  -- All nodes on a path from a root to a live logic node are live logic nodes.
  have hv := h.lt_of_liveAt hlive
  obtain ⟨m, hm, hpath⟩ := h.exists_root (List.mem_of_getElem? (getElem?_nodes hv))
  obtain ⟨hmem, hroot⟩ := mem_roots.mp hm
  obtain ⟨u, hu⟩ := List.mem_iff_getElem?.mp hmem
  have hplace : u ∈ rootPlaces g.nodes.length g.resolved := by
    refine h.mem_rootPlaces.mpr ⟨(List.getElem?_eq_some_iff.mp hu).1, ?_⟩
    rwa [nodeAt_outline hu]
  have hsteps := (h.mirrors_digraph.reflTransGen_iff (getElem?_ids hu)
    (getElem?_ids_outline hv)).mpr hpath
  clear hpath
  induction hsteps with
  | refl => exact hroots u hplace hlive hlogic
  | @tail b c _ hstep ih =>
      obtain ⟨hblive, hblogic⟩ := h.live_of_step hstep hlive
      have hb := ih hblive hblogic (h.lt_of_liveAt hblive)
      exact hbelow b c hb (step_outline.mpr ⟨hstep, hlive⟩) hlogic

/-! ## The expressions -/

theorem lists_outline (h : g.WellFormed) : g.outline.Lists g.liveChildren :=
  fun _ hv => h.map_children_outline (size_nodes_outline g ▸ hv)

theorem rest_outline (g : TriggerLogic) :
    g.outline.Rest [] (Array.replicate g.nodes.length false) := by
  have hnot : ∀ v, ¬ Outline.Writing.Opened
      ⟨Array.replicate g.nodes.length false, [], []⟩ v := by
    intro v hv
    rw [Outline.Writing.Opened, getD_replicate_self] at hv
    cases hv
  exact
    { size := by rw [size_nodes_outline, Array.size_replicate]
      visits := by simp
      writes := by simp
      inside := .nil
      opened := fun v hv => absurd hv (hnot v)
      only := by simp [Outline.Writing.output]
      closed := fun v hv => absurd hv (hnot v)
      resolved := free_nil
      below := fun v _ hv => absurd hv (hnot v) }

theorem linearised_expressions (h : g.WellFormed) : g.Linearised g.expressions := by
  have hsize := size_nodes_outline g
  obtain ⟨hall, x, hrest, hroots, -⟩ := Outline.writeRoots_spec h.sound_outline h.lists_outline
    (rootPlaces g.nodes.length g.resolved) (rest_outline g)
    fun v hv => hsize ▸ (h.mem_rootPlaces.mp hv).1
  have hall : List.Forall₂ (g.outline.Expresses g.liveChildren)
      (rootPlaces g.nodes.length g.resolved) g.expressions := hall
  have hrest : g.outline.Rest (g.expressions.flatMap Expression.tokens) x := hrest
  have hout : ∀ ts, Outline.Writing.output ⟨x, [], []⟩ ts = ts := by
    simp [Outline.Writing.output]
  refine ⟨?_, fun n hn hlogic hlive => ?_, fun a ha => ?_, fun before a after hts => ?_⟩
  · rw [← h.map_rootPlaces, List.forall₂_map_left_iff]
    refine hall.imp fun v e he => ?_
    have hlive := h.liveAt_iff (hsize ▸ he.lt_size)
    refine ⟨he.root, ⟨fun hnil hdead => ?_, fun hdead => ?_⟩, fun hv => ?_⟩
    · exact (he.live (hlive.mpr hdead)).ne_nil hnil
    · exact he.dead fun hv => hdead (hlive.mp hv)
    · exact he.live (hlive.mpr hv)
  · obtain ⟨v, hv⟩ := List.mem_iff_getElem?.mp hn
    have hvlt := (List.getElem?_eq_some_iff.mp hv).1
    rw [← nodeAt_outline hv] at hlogic hlive ⊢
    rw [← h.liveAt_iff hvlt] at hlive
    have hopened := h.opened_of_roots hroots
      (fun v w hv hstep hw => (hrest.below v w hv hstep hw).resolve_right (by simp)) hlive hlogic
    have hcount := (hrest.opened v hopened).2.2
    rwa [hout] at hcount
  · obtain ⟨v, hv, hid⟩ := hrest.only a (by rwa [hout])
    obtain ⟨hlive, hlogic, -⟩ := hrest.opened v hv
    have hvlt := h.lt_of_liveAt hlive
    exact ⟨_, List.mem_of_getElem? (getElem?_nodes hvlt), hid, hlogic,
      (h.liveAt_iff hvlt).mp hlive⟩
  · have hfree := hrest.resolved
    rw [hout] at hfree
    by_contra hnot
    exact hfree before _ after hts ⟨a, rfl, hnot⟩

end TriggerLogic.WellFormed

/-- **The expressions of a rule are its graph written out.** -/
theorem Rule.linearised_of_validate {c : Candidate} {r : Rule} (h : c.validate = .ok r) :
    r.logic.Linearised r.expressions :=
  (Rule.wellFormed_of_validate h).linearised_expressions

theorem linearised_sharedRule : sharedRule.toCandidate.validate = .ok sharedRule
    ∧ sharedRule.logic.Linearised sharedRule.expressions :=
  ⟨validate_sharedRule, Rule.linearised_of_validate validate_sharedRule⟩

end VisualRules
