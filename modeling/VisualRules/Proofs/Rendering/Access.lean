import VisualRules.Proofs.Rendering.Outline

/-!
# Accessors by id

The accessors of a graph go by id and search its lists. The checks and the
renderer go by place: they look ids up in a table, and what the table does not
lead to the renderer leaves out. In the graph of a rule no id is carried twice
and every edge joins two nodes, so that nothing is left out and both ways lead
to the same nodes.
-/

namespace VisualRules

/-! ## Lists -/

/-- The first entry with a key is the only one when keys do not repeat. -/
theorem filter_eq_toList_find? {α β : Type} [DecidableEq β] {f : α → β} {l : List α}
    (h : (l.map f).Nodup) (b : β) :
    l.filter (f · == b) = (l.find? (f · == b)).toList := by
  induction l with
  | nil => rfl
  | cons a l ih =>
      rw [List.map_cons, List.nodup_cons] at h
      rw [List.filter_cons, List.find?_cons]
      by_cases hb : f a = b
      · have hrest : l.filter (f · == b) = [] := by
          rw [List.filter_eq_nil_iff]
          intro a' ha' hb'
          rw [beq_iff_eq] at hb'
          exact h.1 (List.mem_map.mpr ⟨a', ha', hb'.trans hb.symm⟩)
        rw [beq_iff_eq.mpr hb, if_pos rfl, hrest]
        rfl
      · rw [beq_eq_false_iff_ne.mpr hb, if_neg Bool.false_ne_true, ih h.2]

/-- A lookup that never fails drops nothing. -/
theorem forall₂_filterMap {α β : Type} {f : α → Option β} {l : List α}
    (h : ∀ a ∈ l, ∃ b, f a = some b) :
    List.Forall₂ (fun a b => f a = some b) l (l.filterMap f) := by
  induction l with
  | nil => exact .nil
  | cons a l ih =>
      obtain ⟨b, hb⟩ := h a (by simp)
      rw [List.filterMap_cons, hb]
      exact .cons hb (ih fun a' ha' => h a' (by simp [ha']))

/-- Two lists take the entries of a list apart and keep their order. -/
structure Parts {α : Type} (whole part rest : List α) : Prop where
  ordered : part.Sublist whole
  restOrdered : rest.Sublist whole
  perm : (part ++ rest).Perm whole
  disjoint : part.Disjoint rest

/-! ## Places that an edge joins -/

/-- What stands where among ids that do not repeat leaves no choice of places. -/
theorem Placed.unique {ids : List String} {edges : List Edge} {links links' : List (Nat × Nat)}
    (h : Placed ids edges links) (h' : Placed ids edges links') : links = links' := by
  obtain ⟨hnodup, hends⟩ := h
  have hends' := h'.ends
  clear h'
  induction hends generalizing links' with
  | nil => cases hends'; rfl
  | @cons e l edges links hl _ ih =>
      cases hends' with
      | @cons _ l' _ links' hl' hrest =>
          rw [ih hrest, Prod.ext (getElem?_unique hnodup hl.1 hl'.1)
            (getElem?_unique hnodup hl.2 hl'.2)]

namespace TriggerLogic

variable {g : TriggerLogic}

/-- What the accessors say of an id, beside the lists of nodes and edges, and
beside the table and the graph by place. -/
structure Accessed (g : TriggerLogic) (id : String) : Prop where
  /-- The node found is the only one with the id. -/
  only : g.nodes.filter (·.id == id) = (g.node? id).toList
  /-- The table leads to the same node. -/
  table : (places g.nodes)[id]?.bind (g.nodes[·]?) = g.node? id
  /-- There is an operand for each edge that starts at the id, its target. -/
  targets : List.Forall₂ (fun e n => n ∈ g.nodes ∧ n.id = e.target)
    (g.edges.filter (·.source == id)) (g.children id)
  count : (g.children id).length = g.edges.countP (·.source == id)
  /-- The graph by place lists the same operands at the place of the id. -/
  adjacency : ∀ v, g.ids[v]? = some id →
    (g.digraph.children v).map (g.nodes[·]?) = (g.children id).map some
  content : ∀ n, g.node? id = some n → n.isContent = true → g.children id = []
  unknown : id ∉ g.ids → g.node? id = none ∧ g.children id = []
  irreflexive : ∀ n ∈ g.children id, n.id ≠ id

namespace WellFormed

theorem node?_eq_none (h : g.WellFormed) {id : String} (hid : id ∉ g.ids) :
    g.node? id = none := by
  rw [Option.eq_none_iff_forall_ne_some]
  intro n hn
  obtain ⟨hmem, rfl⟩ := h.node?_eq_some_iff.mp hn
  exact hid (List.mem_map_of_mem hmem)

theorem node?_target (h : g.WellFormed) {e : Edge} (he : e ∈ g.edges) :
    ∃ n, g.node? e.target = some n := by
  obtain ⟨n, hn, hid⟩ := exists_node (h.ends e he).2
  exact ⟨n, h.node?_eq_some_iff.mpr ⟨hn, hid⟩⟩

/-- Finding a node in the list is looking its place up in the table. -/
theorem lookup_places (h : g.WellFormed) (id : String) :
    (places g.nodes)[id]?.bind (g.nodes[·]?) = g.node? id := by
  by_cases hid : id ∈ g.ids
  · obtain ⟨v, hv⟩ := List.mem_iff_getElem?.mp hid
    rw [(places_getElem? h.nodup).mpr hv, h.node?_of_getElem? hv]
    rfl
  · rw [(places_getElem?_eq_none h.nodup).mpr hid, h.node?_eq_none hid]
    rfl

theorem targets_children (h : g.WellFormed) (id : String) :
    List.Forall₂ (fun e n => n ∈ g.nodes ∧ n.id = e.target)
      (g.edges.filter (·.source == id)) (g.children id) := by
  have hfound : List.Forall₂ (fun e n => g.node? e.target = some n)
      (g.edges.filter (·.source == id)) (g.children id) :=
    forall₂_filterMap fun e he => h.node?_target (List.mem_filter.mp he).1
  exact hfound.imp fun e n hn => h.node?_eq_some_iff.mp hn

/-- Each target listed at the place of an id is the place of an operand. -/
theorem map_children_digraph (h : g.WellFormed) {id : String} {v : Nat}
    (hv : g.ids[v]? = some id) :
    (g.digraph.children v).map (g.nodes[·]?) = (g.children id).map some := by
  have hlt : v < g.nodes.length := by
    rw [← List.length_map Node.id]
    exact (List.getElem?_eq_some_iff.mp hv).1
  rw [getElem?_ids_outline hlt, Option.some.injEq] at hv
  rw [← hv, h.children_eq_map hlt, List.map_map]
  exact List.map_congr_left fun w hw => getElem?_nodes (h.lt_of_mem_children hw)

/-- No edge starts at a condition. -/
theorem children_content (h : g.WellFormed) {id : String} {n : Node}
    (hn : g.node? id = some n) (hcontent : n.isContent = true) : g.children id = [] := by
  obtain ⟨hmem, hid⟩ := h.node?_eq_some_iff.mp hn
  have hnone : g.edges.filter (·.source == id) = [] := by
    rw [List.filter_eq_nil_iff]
    intro e he hsource
    have hlogic := h.leaves e he n hmem (hid.trans (beq_iff_eq.mp hsource).symm)
    rw [Node.isLogic_eq_not_isContent, hcontent] at hlogic
    cases hlogic
  rw [children, hnone, List.filterMap_nil]

theorem children_unknown (h : g.WellFormed) {id : String} (hid : id ∉ g.ids) :
    g.children id = [] := by
  rw [List.eq_nil_iff_forall_not_mem]
  intro n hn
  exact hid (h.linked_mem (linked_of_mem_children hn)).1

theorem accessed (h : g.WellFormed) (id : String) : g.Accessed id where
  only := filter_eq_toList_find? h.nodup id
  table := h.lookup_places id
  targets := h.targets_children id
  count := by
    rw [List.countP_eq_length_filter]
    exact (h.targets_children id).length_eq.symm
  adjacency _ hv := h.map_children_digraph hv
  content _ hn hcontent := h.children_content hn hcontent
  unknown hid := ⟨h.node?_eq_none hid, h.children_unknown hid⟩
  irreflexive n hn hid := by
    have hlinked := linked_of_mem_children hn
    rw [hid] at hlinked
    exact h.acyclic id (.single hlinked)

end WellFormed

/-- Every node is a condition or a logic node, and none is both. -/
theorem parts_nodes (g : TriggerLogic) : Parts g.nodes g.contentNodes g.logicNodes := by
  have hlogic : g.logicNodes = g.nodes.filter fun n => !n.isContent := by
    rw [logicNodes]
    exact List.filter_congr fun n _ => n.isLogic_eq_not_isContent
  rw [hlogic]
  refine ⟨List.filter_sublist, List.filter_sublist, List.filter_append_perm _ _, ?_⟩
  intro n hcontent hnot
  have hn := (List.mem_filter.mp hcontent).2
  rw [List.mem_filter, hn] at hnot
  exact absurd hnot.2 (by decide)

end TriggerLogic

/-- The places that the check of the edges finds for a rule are those that the
renderer goes by. -/
theorem Rule.resolveEdges_of_validate {c : Candidate} {r : Rule} (h : c.validate = .ok r) :
    Validation.resolveEdges r.logic.nodes r.logic.edges = .ok r.logic.resolved := by
  have hpasses := (Candidate.passes_of_validate h).1
  have hwf := r.wellFormed_of_validate h
  have hids : r.logic.nodes.map Node.id = r.toCandidate.logic.ids := r.ids_toCandidate.symm
  have hnodup : r.toCandidate.logic.ids.Nodup := r.ids_toCandidate ▸ hwf.nodup
  have hsettles := Validation.settles_resolveEdges hids hnodup
  rw [r.ids_toCandidate, show r.toCandidate.logic.edges = r.logic.edges from rfl] at hsettles
  cases hresolve : Validation.resolveEdges r.logic.nodes r.logic.edges with
  | ok links =>
      rw [hresolve] at hsettles
      rw [hsettles.2.unique hwf.placed]
  | error d =>
      rw [hresolve] at hsettles
      exact absurd (hpasses d.check) (Candidate.not_passes_of_shows hsettles.2)

/-- The accessors of a rule agree with its graph by place, which is one graph for
the checks and for the renderer, who writes the live ones of its targets: an id
finds the one node that carries it or none, and its operands are the targets of
its edges, in order, one for each edge and never the node itself. Conditions and
logic nodes are the nodes of the rule taken apart. -/
theorem Rule.accessed_of_validate {c : Candidate} {r : Rule} (h : c.validate = .ok r) :
    Validation.resolveEdges r.logic.nodes r.logic.edges
        = .ok (TriggerLogic.links r.logic.nodes r.logic.edges)
      ∧ (∀ v, r.logic.outline.operands.children v
        = (r.logic.digraph.children v).filter fun w => r.logic.outline.live.getD w false)
      ∧ (∀ id, r.logic.Accessed id)
      ∧ Parts r.logic.nodes r.logic.contentNodes r.logic.logicNodes
      ∧ ∀ n ∈ r.logic.nodes, n ∈ r.logic.contentNodes ↔ n.isContent = true := by
  refine ⟨r.resolveEdges_of_validate h, TriggerLogic.WellFormed.children_outline r.logic,
    (r.wellFormed_of_validate h).accessed, r.logic.parts_nodes, fun n hn => ?_⟩
  rw [TriggerLogic.contentNodes, List.mem_filter]
  exact and_iff_right hn

/-- The gate that both roots share has two operands, and no edge starts at the
operand that is a condition. -/
theorem accessed_sharedRule : sharedRule.toCandidate.validate = .ok sharedRule
    ∧ sharedRule.logic.Accessed "both" ∧ sharedRule.logic.children "hat" = [] := by
  obtain ⟨-, -, haccessed, -⟩ := Rule.accessed_of_validate validate_sharedRule
  exact ⟨validate_sharedRule, haccessed "both", (haccessed "hat").content _ rfl rfl⟩

end VisualRules
