import VisualRules.Proofs.Validation.Acceptance

/-!
# The graph of a rule

What the checks leave to everything that reads a rule: ids name nodes, edges
join them, conditions are leaves and no chain of edges comes back to where it
started. From these, each way to speak of the operands of a node is the same.
-/

namespace VisualRules

open Relation

namespace TriggerLogic

/-- The ids of the nodes, in node order. -/
def ids (g : TriggerLogic) : List String :=
  g.nodes.map Node.id

/-- What may be taken for granted of the graph of a rule. -/
structure WellFormed (g : TriggerLogic) : Prop where
  nodup : g.ids.Nodup
  ends : ∀ e ∈ g.edges, e.source ∈ g.ids ∧ e.target ∈ g.ids
  leaves : ∀ e ∈ g.edges, ∀ n ∈ g.nodes, n.id = e.source → n.isLogic = true
  acyclic : ∀ a, ¬ TransGen (Linked g.edges) a a

/-- The ends of the edges by place. -/
abbrev resolved (g : TriggerLogic) : List (Nat × Nat) :=
  links g.nodes g.edges

/-- The graph by place. -/
abbrev digraph (g : TriggerLogic) : Digraph :=
  Digraph.ofLinks g.nodes.length g.resolved

theorem linked_of_mem_children {g : TriggerLogic} {id : String} {m : Node}
    (hm : m ∈ g.children id) : Linked g.edges id m.id := by
  obtain ⟨e, he, htarget⟩ := List.mem_filterMap.mp hm
  obtain ⟨hmem, hsource⟩ := List.mem_filter.mp he
  have hid : m.id = e.target := by simpa using List.find?_some htarget
  exact ⟨e, hmem, by simpa using hsource, hid.symm⟩

theorem mem_of_mem_children {g : TriggerLogic} {id : String} {m : Node}
    (hm : m ∈ g.children id) : m ∈ g.nodes := by
  obtain ⟨e, -, htarget⟩ := List.mem_filterMap.mp hm
  exact List.mem_of_find?_eq_some htarget

end TriggerLogic

/-! ## Rules that were accepted -/

theorem Rule.ids_toCandidate (r : Rule) : r.toCandidate.logic.ids = r.logic.ids := by
  rw [CandidateLogic.ids, Rule.toCandidate, List.map_map]
  exact List.map_congr_left fun n _ => n.toCandidate_id

theorem Candidate.passes_of_validate {c : Candidate} {r : Rule} (h : c.validate = .ok r) :
    (∀ k, r.toCandidate.Passes k) ∧ r.toCandidate = c := by
  have hsettles := c.settles_validate
  rw [h] at hsettles
  obtain ⟨hpasses, hwritten⟩ := hsettles
  exact ⟨hwritten ▸ hpasses, hwritten⟩

theorem Rule.wellFormed_of_validate {c : Candidate} {r : Rule} (h : c.validate = .ok r) :
    r.logic.WellFormed := by
  obtain ⟨hpasses, -⟩ := Candidate.passes_of_validate h
  have hids := r.ids_toCandidate
  have hshape := hpasses .graphShape
  refine ⟨?_, fun e he => ?_, fun e he n hn hid => ?_, hshape .acyclic⟩
  · rw [← hids]
    exact (hpasses .uniqueNodeIds).2
  · rw [← hids]
    exact (hpasses .edgeReferences).2 e he
  · rw [Node.isLogic_eq_not_isContent, Bool.not_eq_true', ← Bool.not_eq_true]
    intro hcontent
    exact hshape .leaves e he ⟨n.toCandidate, List.mem_map_of_mem hn,
      n.toCandidate_id.trans hid, n.toCandidate_type_eq_content.mpr hcontent⟩

namespace TriggerLogic.WellFormed

variable {g : TriggerLogic}

/-! ## The graph by place -/

theorem placed (h : g.WellFormed) : Placed g.ids g.edges g.resolved :=
  placed_links h.nodup h.ends

theorem digraph_eq (g : TriggerLogic) :
    g.digraph = Digraph.ofLinks g.ids.length g.resolved := by
  rw [ids, List.length_map]

theorem size_digraph (g : TriggerLogic) : g.digraph.size = g.nodes.length :=
  Digraph.size_ofLinks _ _

theorem acyclic_digraph (h : g.WellFormed) : g.digraph.Acyclic := by
  rw [digraph_eq]
  exact h.placed.acyclic_iff.mpr h.acyclic

theorem inRange_digraph (h : g.WellFormed) : g.digraph.InRange := by
  rw [digraph_eq]
  exact h.placed.inRange_ofLinks

theorem mirrors_digraph (h : g.WellFormed) :
    Mirrors g.ids g.digraph.Step (Linked g.edges) := by
  rw [digraph_eq]
  exact h.placed.mirrors_ofLinks

theorem getElem?_ids {v : Nat} {n : Node} (hn : g.nodes[v]? = some n) :
    g.ids[v]? = some n.id := by
  rw [ids, List.getElem?_map, hn]
  rfl

/-! ## Nodes by id -/

theorem node?_eq_some_iff (h : g.WellFormed) {id : String} {n : Node} :
    g.node? id = some n ↔ n ∈ g.nodes ∧ n.id = id := by
  constructor
  · intro hn
    exact ⟨List.mem_of_find?_eq_some hn, by simpa using List.find?_some hn⟩
  · rintro ⟨hmem, rfl⟩
    cases hfound : g.node? n.id with
    | none =>
        have hnot := List.find?_eq_none.mp hfound n hmem
        simp at hnot
    | some m =>
        have hid : m.id = n.id := by simpa using List.find?_some hfound
        rw [List.inj_on_of_nodup_map h.nodup (List.mem_of_find?_eq_some hfound) hmem hid]

theorem node?_of_getElem? (h : g.WellFormed) {v : Nat} {a : String}
    (ha : g.ids[v]? = some a) : g.node? a = g.nodes[v]? := by
  rw [ids, List.getElem?_map, Option.map_eq_some_iff] at ha
  obtain ⟨n, hn, rfl⟩ := ha
  rw [hn]
  exact h.node?_eq_some_iff.mpr ⟨List.mem_of_getElem? hn, rfl⟩

/-- The operands of a node are the nodes at the targets of its edges by place,
in the same order and as many times. -/
theorem children_eq (h : g.WellFormed) {v : Nat} {n : Node} (hn : g.nodes[v]? = some n) :
    g.children n.id = (g.digraph.children v).filterMap fun w => g.nodes[w]? := by
  have hv := (List.getElem?_eq_some_iff.mp hn).1
  have hends := h.placed.ends
  rw [TriggerLogic.children, digraph, Digraph.children_ofLinks _ hv]
  -- Edges and their places are filtered in step, an edge and its place alike.
  generalize g.resolved = links at hends
  generalize g.edges = edges at hends
  induction hends with
  | nil => rfl
  | @cons e l edges links hl _ ih =>
      rw [List.filter_cons, List.filter_cons]
      by_cases hsource : l.1 = v
      · have hid : e.source = n.id := by
          rw [hsource, getElem?_ids hn] at hl
          exact (Option.some.inj hl.1).symm
        rw [if_pos (by simpa using hid), if_pos (by simpa using hsource), List.map_cons,
          List.filterMap_cons, List.filterMap_cons, ih, h.node?_of_getElem? hl.2]
      · have hid : e.source ≠ n.id := by
          intro hid
          rw [hid] at hl
          exact hsource (getElem?_unique h.nodup hl.1 (getElem?_ids hn))
        rw [if_neg (by simpa using hid), if_neg (by simpa using hsource), ih]

/-! ## Above and below -/

theorem linked_mem (h : g.WellFormed) {a b : String} (hab : Linked g.edges a b) :
    a ∈ g.ids ∧ b ∈ g.ids := by
  obtain ⟨e, he, rfl, rfl⟩ := hab
  exact h.ends e he

/-- One can recurse to the nodes from which edges lead to a node. -/
theorem wellFounded_linked (h : g.WellFormed) : WellFounded (Linked g.edges) :=
  wellFounded_of_acyclic g.ids (fun _ _ => h.linked_mem) h.acyclic

/-- One can recurse to the operands of a node. -/
theorem wellFounded_linked_swap (h : g.WellFormed) :
    WellFounded fun b a => Linked g.edges a b := by
  refine wellFounded_of_acyclic g.ids (fun _ _ hab => (h.linked_mem hab).symm) fun a ha => ?_
  exact h.acyclic a (transGen_swap.mp ha)

theorem exists_node {a : String} (ha : a ∈ g.ids) : ∃ n ∈ g.nodes, n.id = a :=
  List.mem_map.mp ha

theorem mem_roots {n : Node} :
    n ∈ g.roots ↔ n ∈ g.nodes ∧ ∀ e ∈ g.edges, e.target ≠ n.id := by
  rw [roots, List.mem_filter]
  simp

/-- Above each node there is a root. -/
theorem exists_root (h : g.WellFormed) {n : Node} (hn : n ∈ g.nodes) :
    ∃ m ∈ g.roots, ReflTransGen (Linked g.edges) m.id n.id := by
  generalize ha : n.id = a
  induction a using h.wellFounded_linked.induction generalizing n with
  | _ a ih =>
      -- A node that is no root has an edge to it, and there is a root above its source.
      by_cases hroot : ∀ e ∈ g.edges, e.target ≠ n.id
      · exact ⟨n, mem_roots.mpr ⟨hn, hroot⟩, ha ▸ .refl⟩
      · simp only [not_forall, ne_eq, not_not] at hroot
        obtain ⟨e, he, htarget⟩ := hroot
        have hlinked : Linked g.edges e.source a := ⟨e, he, rfl, htarget.trans ha⟩
        obtain ⟨p, hp, hpid⟩ := exists_node (h.ends e he).1
        obtain ⟨m, hm, hpath⟩ := ih e.source hlinked hp hpid
        exact ⟨m, hm, hpath.tail hlinked⟩

end TriggerLogic.WellFormed

end VisualRules
