import VisualRules.Proofs.Rendering.Counting

/-!
# Nothing is left out

The expressions of a rule cover it: their roots are the nodes that no edge points
to, each node hangs below one of them, and each condition is written with its
label once for each edge to it.
-/

namespace VisualRules

open Relation

/-! ## Conditions in phrases -/

theorem Node.isContent_of_kind {n : Node} {label : String} (h : n.kind = .content label) :
    n.isContent = true := by
  rw [Node.isContent, h]

theorem mem_intercalate_singleton {α : Type} {a b : α} {parts : List (List α)}
    (h : a ∈ List.intercalate [b] parts) : a = b ∨ ∃ part ∈ parts, a ∈ part := by
  induction parts with
  | nil => cases h
  | cons part parts ih =>
      by_cases hnil : parts = []
      · rw [hnil, List.intercalate_singleton] at h
        exact .inr ⟨part, by simp, h⟩
      · rw [List.intercalate_cons_of_ne_nil hnil, List.append_assoc, List.mem_append,
          List.mem_append, List.mem_singleton] at h
        rcases h with h | h | h
        · exact .inr ⟨part, by simp, h⟩
        · exact .inl h
        · rcases ih h with h | ⟨q, hq, h⟩
          · exact .inl h
          · exact .inr ⟨q, List.mem_cons_of_mem part hq, h⟩

namespace TriggerLogic

variable {g : TriggerLogic} {es : List Expression}

/-- A label in a phrase is that of a condition of the graph. -/
theorem content_of_mem_phrase {n : Node} {ts : List Token}
    (h : Phrase g.liveChildren n ts) (hn : n ∈ g.nodes) {a label : String}
    (ha : .condition a label ∈ ts) : ∃ m ∈ g.nodes, m.id = a ∧ m.kind = .content label := by
  induction h with
  | @condition n l kind =>
      obtain ⟨rfl, rfl⟩ : a = n.id ∧ label = l := by simpa using ha
      exact ⟨n, hn, rfl, kind⟩
  | reference kind => simp at ha
  | @group n op parts kind nonempty length phrases ih =>
      have hinside : .condition a label ∈ List.intercalate [.operator n.id op] parts := by
        simpa using ha
      rcases mem_intercalate_singleton hinside with heq | ⟨part, hpart, hmem⟩
      · cases heq
      · obtain ⟨i, hi, rfl⟩ := List.getElem_of_mem hpart
        have hchild : i < (g.liveChildren n).length := length ▸ hi
        have hzip : ((g.liveChildren n)[i], parts[i]) ∈ (g.liveChildren n).zip parts :=
          List.mem_iff_getElem.mpr ⟨i, by simp [hi, hchild], by simp⟩
        exact ih _ hzip (mem_of_mem_liveChildren (List.getElem_mem hchild)) hmem

theorem Linearised.content_of_mem (h : g.Linearised es) {a label : String}
    (ha : .condition a label ∈ es.flatMap Expression.tokens) :
    ∃ m ∈ g.nodes, m.id = a ∧ m.kind = .content label := by
  obtain ⟨e, he, hmem⟩ := List.mem_flatMap.mp ha
  obtain ⟨i, hi, rfl⟩ := List.getElem_of_mem he
  have hroot : i < g.roots.length := h.expressed.length_eq ▸ hi
  have hexpressed := h.expressed.get hroot hi
  have hlive : g.Live g.roots[i] := by
    by_contra hdead
    have hnil := hexpressed.empty_iff.mpr hdead
    rw [List.get_eq_getElem] at hnil
    rw [hnil] at hmem
    cases hmem
  exact content_of_mem_phrase (hexpressed.phrase hlive)
    (WellFormed.mem_roots.mp (List.getElem_mem hroot)).1 hmem

/-! ## Occurrences of a condition -/

theorem live_of_content {n : Node} (hn : n ∈ g.nodes) (hcontent : n.isContent = true) :
    g.Live n :=
  ⟨n, hn, hcontent, .refl⟩

/-- The occurrences of a condition are a weighing: a phrase for its node is one,
and a group holds one for each edge from its node to the condition. -/
theorem WellFormed.weighs_condition (h : g.WellFormed) {n : Node} {label : String}
    (hn : n ∈ g.nodes) (kind : n.kind = .content label) :
    g.Weighs (fun t => if (t == .condition n.id label) = true then 1 else 0)
      (fun m => if (m.id == n.id) = true then 1 else 0)
      (fun a => g.edges.countP fun e => e.source == a && e.target == n.id) := by
  classical
  have hunique : ∀ m ∈ g.nodes, m.id = n.id → m = n := fun m hm hid =>
    List.inj_on_of_nodup_map h.nodup hm hn hid
  have hlogic : ∀ m ∈ g.nodes, ∀ op, m.kind = .logic op → (m.id == n.id) = false := by
    intro m hm op hkind
    rw [beq_eq_false_iff_ne]
    intro hid
    rw [hunique m hm hid, kind] at hkind
    cases hkind
  refine ⟨fun m hm l hkind => ?_, fun m hm op hkind => ?_, fun m hm op hkind _ => ?_⟩
  · by_cases hid : m.id = n.id
    · have hsame := hunique m hm hid
      rw [hsame, kind] at hkind
      cases hkind
      simp [hid]
    · simp [hid]
  · simp [hlogic m hm op hkind]
  · have hlive : g.LiveId n.id := live_of_content hn (Node.isContent_of_kind kind)
    have hedges : ∀ e ∈ g.edges,
        (e.source == m.id && (e.target == n.id && decide (g.LiveId e.target))) = true
          ↔ (e.source == m.id && e.target == n.id) = true := by
      intro e _
      simp only [Bool.and_eq_true, beq_iff_eq, decide_eq_true_eq]
      exact and_congr_right fun _ => and_iff_left_of_imp fun htarget => htarget ▸ hlive
    have hoperands := h.countP_liveChildren m (· == n.id)
    rw [countP_eq_sum, List.countP_congr hedges] at hoperands
    simp only [hlogic m hm op hkind, hoperands]
    simp

/-- No node is counted twice among the roots. -/
theorem WellFormed.sum_liveRoots (h : g.WellFormed) {n : Node} (hlive : g.Live n) :
    (g.liveRoots.map fun m => if (m.id == n.id) = true then 1 else 0).sum
      = if n.id ∈ g.roots.map Node.id then 1 else 0 := by
  have hcount : (g.liveRoots.map fun m => if (m.id == n.id) = true then 1 else 0).sum
      = (g.liveRoots.map Node.id).count n.id := by
    rw [← countP_eq_sum, List.count, List.countP_map]
    rfl
  have hnodup : (g.liveRoots.map Node.id).Nodup := by
    refine List.Nodup.sublist (List.Sublist.map _ ?_) h.nodup
    exact List.filter_sublist.trans List.filter_sublist
  have hmem : n.id ∈ g.liveRoots.map Node.id ↔ n.id ∈ g.roots.map Node.id := by
    classical
    simp only [List.mem_map, liveRoots, List.mem_filter, decide_eq_true_eq]
    refine exists_congr fun m => and_congr_left fun hid => and_iff_left ?_
    show g.LiveId m.id
    rw [hid]
    exact hlive
  rw [hcount, hnodup.count, if_congr hmem rfl rfl]

/-- **How often a condition is written.** Once for each edge to it, and once when
it is a root. -/
theorem Linearised.count_condition (hes : g.Linearised es) (h : g.WellFormed) {n : Node}
    {label : String} (hn : n ∈ g.nodes) (kind : n.kind = .content label) :
    (es.flatMap Expression.tokens).count (.condition n.id label)
      = (if n.id ∈ g.roots.map Node.id then 1 else 0)
        + g.edges.countP fun e => e.target == n.id := by
  have hlive : g.Live n := live_of_content hn (Node.isContent_of_kind kind)
  have hgroups := sum_countP_of_nodup h.nodup_liveLogicNodes Edge.source
    (fun e => e.target == n.id) (l := g.edges) fun e he htarget =>
      h.source_mem_liveLogicNodes he (beq_iff_eq.mp htarget ▸ hlive)
  rw [List.map_map] at hgroups
  rw [List.count, countP_eq_sum, hes.sum_weight h (h.weighs_condition hn kind),
    h.sum_liveRoots hlive, ← hgroups]
  rfl

end TriggerLogic

/-! ## The whole rule -/

/-- What it means that the expressions of a graph cover it: the roots in node
order, everything below them, and no label lost or made up. -/
structure TriggerLogic.Covered (g : TriggerLogic) (es : List Expression) : Prop where
  roots : es.map Expression.root = g.roots.map Node.id
  nonempty : g.roots ≠ []
  below : ∀ n ∈ g.nodes, ∃ m ∈ g.roots, ReflTransGen (Linked g.edges) m.id n.id
  logic_roots : 1 < g.nodes.length → ∀ m ∈ g.roots, m.isLogic = true
  below_logic : 1 < g.nodes.length → ∀ n ∈ g.nodes, n.isContent = true →
    ∃ m ∈ g.roots, m.isLogic = true ∧ ReflTransGen (Linked g.edges) m.id n.id
  occurrences : ∀ n ∈ g.nodes, ∀ label, n.kind = .content label →
    (es.flatMap Expression.tokens).count (.condition n.id label)
      = if g.nodes.length = 1 then 1 else g.edges.countP fun e => e.target == n.id
  occurs : ∀ n ∈ g.nodes, ∀ label, n.kind = .content label →
    .condition n.id label ∈ es.flatMap Expression.tokens
  labels : ∀ a label, .condition a label ∈ es.flatMap Expression.tokens →
    ∃ n ∈ g.nodes, n.id = a ∧ n.kind = .content label

namespace Rule

variable {c : Candidate} {r : Rule}

/-- The graph of a rule has a condition. -/
theorem exists_content_of_validate (h : c.validate = .ok r) :
    ∃ n ∈ r.logic.nodes, n.isContent = true := by
  obtain ⟨hpasses, -⟩ := Candidate.passes_of_validate h
  obtain ⟨m, hm, htype⟩ := hpasses .graphShape .hasCondition
  obtain ⟨n, hn, rfl⟩ := List.mem_map.mp hm
  exact ⟨n, hn, n.toCandidate_type_eq_content.mp htype⟩

/-- A condition that is not alone has an edge to it. -/
theorem exists_edge_of_validate (h : c.validate = .ok r) (hmany : r.logic.nodes.length ≠ 1)
    {n : Node} (hn : n ∈ r.logic.nodes) (hcontent : n.isContent = true) :
    ∃ e ∈ r.logic.edges, e.target = n.id := by
  obtain ⟨hpasses, -⟩ := Candidate.passes_of_validate h
  have hattached := hpasses .graphShape .attached
  have hlength : 1 < r.toCandidate.logic.nodes.length := by
    have hpos := List.length_pos_of_mem hn
    rw [Rule.toCandidate, List.length_map]
    omega
  obtain ⟨e, he, htarget⟩ := hattached hlength n.toCandidate (List.mem_map_of_mem hn)
    (n.toCandidate_type_eq_content.mpr hcontent)
  exact ⟨e, he, htarget.trans n.toCandidate_id⟩

/-- A root that is not alone is a logic node. -/
theorem isLogic_of_root_of_validate (h : c.validate = .ok r)
    (hmany : r.logic.nodes.length ≠ 1) {m : Node} (hm : m ∈ r.logic.roots) :
    m.isLogic = true := by
  obtain ⟨hmem, hroot⟩ := TriggerLogic.WellFormed.mem_roots.mp hm
  rw [Node.isLogic_eq_not_isContent, Bool.not_eq_true', ← Bool.not_eq_true]
  intro hcontent
  obtain ⟨e, he, htarget⟩ := exists_edge_of_validate h hmany hmem hcontent
  exact hroot e he htarget

/-- A node that is alone has no edge to it, which could only come from itself. -/
theorem edges_eq_nil_of_length (h : r.logic.WellFormed) (hone : r.logic.nodes.length = 1) :
    r.logic.edges = [] := by
  obtain ⟨n, hn⟩ := List.length_eq_one_iff.mp hone
  have hids : r.logic.ids = [n.id] := by rw [TriggerLogic.ids, hn]; rfl
  refine List.eq_nil_iff_forall_not_mem.mpr fun e he => ?_
  obtain ⟨hsource, htarget⟩ := h.ends e he
  rw [hids, List.mem_singleton] at hsource htarget
  exact h.acyclic n.id (.single ⟨e, he, hsource, htarget⟩)

/-- How often a condition of a rule is written, whether it is alone or not. -/
theorem count_condition_of_validate (h : c.validate = .ok r) {n : Node} {label : String}
    (hn : n ∈ r.logic.nodes) (kind : n.kind = .content label) :
    (r.expressions.flatMap Expression.tokens).count (.condition n.id label)
      = if r.logic.nodes.length = 1 then 1
        else r.logic.edges.countP fun e => e.target == n.id := by
  have hwell := wellFormed_of_validate h
  have hes : r.logic.Linearised r.expressions := hwell.linearised_expressions
  rw [hes.count_condition hwell hn kind]
  by_cases hone : r.logic.nodes.length = 1
  · have hnone := edges_eq_nil_of_length hwell hone
    have hroot : n.id ∈ r.logic.roots.map Node.id := by
      refine List.mem_map_of_mem (TriggerLogic.WellFormed.mem_roots.mpr ⟨hn, ?_⟩)
      rw [hnone]
      exact fun _ he => absurd he List.not_mem_nil
    rw [if_pos hroot, if_pos hone, hnone]
    rfl
  · obtain ⟨e, he, htarget⟩ := exists_edge_of_validate h hone hn (Node.isContent_of_kind kind)
    have hroot : n.id ∉ r.logic.roots.map Node.id := by
      intro hmem
      obtain ⟨m, hm, hid⟩ := List.mem_map.mp hmem
      exact (TriggerLogic.WellFormed.mem_roots.mp hm).2 e he (htarget.trans hid.symm)
    rw [if_neg hroot, if_neg hone, Nat.zero_add]

theorem condition_mem_of_validate (h : c.validate = .ok r) {n : Node} {label : String}
    (hn : n ∈ r.logic.nodes) (kind : n.kind = .content label) :
    .condition n.id label ∈ r.expressions.flatMap Expression.tokens := by
  rw [← List.count_pos_iff, count_condition_of_validate h hn kind]
  by_cases hone : r.logic.nodes.length = 1
  · rw [if_pos hone]
    exact Nat.one_pos
  · obtain ⟨e, he, htarget⟩ := exists_edge_of_validate h hone hn (Node.isContent_of_kind kind)
    rw [if_neg hone, List.countP_pos_iff]
    exact ⟨e, he, beq_iff_eq.mpr htarget⟩

/-- **The expressions of a rule cover it.** -/
theorem covered_of_validate (h : c.validate = .ok r) : r.logic.Covered r.expressions := by
  have hwell := wellFormed_of_validate h
  have hes : r.logic.Linearised r.expressions := hwell.linearised_expressions
  have hbelow : ∀ n ∈ r.logic.nodes,
      ∃ m ∈ r.logic.roots, ReflTransGen (Linked r.logic.edges) m.id n.id :=
    fun n hn => hwell.exists_root hn
  have hlogic : 1 < r.logic.nodes.length → ∀ m ∈ r.logic.roots, m.isLogic = true :=
    fun hmany m hm => isLogic_of_root_of_validate h (Nat.ne_of_gt hmany) hm
  refine
    { roots := ?_
      nonempty := ?_
      below := hbelow
      logic_roots := hlogic
      below_logic := ?_
      occurrences := fun n hn label kind => count_condition_of_validate h hn kind
      occurs := fun n hn label kind => condition_mem_of_validate h hn kind
      labels := fun a label ha => hes.content_of_mem ha }
  · have hroots := hes.expressed.imp fun n e he => he.root.symm
    exact (List.forall₂_eq_eq_eq ▸ List.forall₂_map_left_iff.mpr
      (List.forall₂_map_right_iff.mpr hroots)).symm
  · obtain ⟨n, hn, -⟩ := exists_content_of_validate h
    obtain ⟨m, hm, -⟩ := hbelow n hn
    exact List.ne_nil_of_mem hm
  · intro hmany n hn _
    obtain ⟨m, hm, hpath⟩ := hbelow n hn
    exact ⟨m, hm, hlogic hmany m hm, hpath⟩

/-- Two roots, a gate below both of them, and two conditions, of which one has two
edges to it. -/
theorem covered_sharedRule : sharedRule.toCandidate.validate = .ok sharedRule
    ∧ sharedRule.logic.Covered sharedRule.expressions :=
  ⟨validate_sharedRule, covered_of_validate validate_sharedRule⟩

end Rule

end VisualRules
