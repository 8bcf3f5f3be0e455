import VisualRules.Proofs.Validation.Check

/-!
# What the check of the graph finds out

The clauses on the shape of the graph are tried in their order. The searches
work on places; here their answers are turned into what holds of the edges
between ids.
-/

namespace VisualRules

open Relation

namespace Node

@[simp] theorem toCandidate_id (n : Node) : n.toCandidate.id = n.id := by
  rw [toCandidate]
  cases n.kind <;> rfl

@[simp] theorem toCandidate_type_eq_content (n : Node) :
    n.toCandidate.type = .content ↔ n.isContent = true := by
  rw [toCandidate, isContent]
  cases n.kind <;> simp [CandidateNode.logic, CandidateNode.content]

@[simp] theorem toCandidate_type_eq_logic (n : Node) :
    n.toCandidate.type = .logic ↔ n.isLogic = true := by
  rw [toCandidate, isLogic]
  cases n.kind <;> simp [CandidateNode.logic, CandidateNode.content]

end Node

/-! ## Faults found by place -/

theorem first_of_zipIdx {nodes : List Node} {p : Node × Nat → Bool}
    {fault : CandidateNode → Prop}
    (hp : ∀ n i, nodes[i]? = some n → (p (n, i) = true ↔ fault n.toCandidate)) {n : Node}
    (h : (nodes.zipIdx.find? p).map Prod.fst = some n) :
    ∃ before, First (fun _ => fault) (nodes.map Node.toCandidate) before n.toCandidate := by
  obtain ⟨⟨m, i⟩, hfind, rfl⟩ := Option.map_eq_some_iff.mp h
  obtain ⟨before, hfirst⟩ := first_of_find? (fun _ => Iff.rfl) hfind
  have hmap : nodes.zipIdx.map (fun q => q.1.toCandidate) = nodes.map Node.toCandidate := by
    rw [← List.zipIdx_map_fst 0 nodes, List.map_map]
    simp [Function.comp_def]
  rw [← hmap]
  refine ⟨_, First.map (f := fun q : Node × Nat => q.1.toCandidate) (hfirst.congr ?_)⟩
  rintro _ ⟨x, j⟩ hmem
  exact hp x j (List.mem_zipIdx_iff_getElem?.mp hmem)

theorem forall_of_zipIdx {nodes : List Node} {p : Node × Nat → Bool}
    {fault : CandidateNode → Prop}
    (hp : ∀ n i, nodes[i]? = some n → (p (n, i) = true ↔ fault n.toCandidate))
    (h : (nodes.zipIdx.find? p).map Prod.fst = none) :
    ∀ n ∈ nodes, ¬ fault n.toCandidate := by
  intro n hn hfault
  obtain ⟨i, hi⟩ := List.mem_iff_getElem?.mp hn
  have hnone := List.find?_eq_none.mp (Option.map_eq_none_iff.mp h) (n, i)
    (List.mem_zipIdx_iff_getElem?.mpr hi)
  exact hnone ((hp n i hi).mpr hfault)

/-! ## A graph by place -/

/-- Checked nodes and edges by place that stand for the graph of a candidate. -/
structure Resolved (g : CandidateLogic) (nodes : List Node) (links : List (Nat × Nat)) :
    Prop where
  written : nodes.map Node.toCandidate = g.nodes
  placed : Placed g.ids g.edges links

namespace Resolved

variable {g : CandidateLogic} {nodes : List Node} {links : List (Nat × Nat)}

theorem ids_eq (h : Resolved g nodes links) : g.ids = nodes.map Node.id := by
  rw [CandidateLogic.ids, ← h.written, List.map_map]
  exact List.map_congr_left fun n _ => n.toCandidate_id

theorem length_eq (h : Resolved g nodes links) : nodes.length = g.ids.length := by
  rw [h.ids_eq, List.length_map]

theorem length_nodes (h : Resolved g nodes links) : g.nodes.length = nodes.length := by
  rw [← h.written, List.length_map]

theorem getElem?_ids (h : Resolved g nodes links) {i : Nat} {n : Node}
    (hn : nodes[i]? = some n) : g.ids[i]? = some n.id := by
  rw [h.ids_eq, List.getElem?_map, hn]
  rfl

theorem mem_nodes (h : Resolved g nodes links) {m : CandidateNode} :
    m ∈ g.nodes ↔ ∃ n ∈ nodes, n.toCandidate = m := by
  rw [← h.written, List.mem_map]

theorem countP_content (h : Resolved g nodes links) :
    g.nodes.countP (·.type = .content) = nodes.countP Node.isContent := by
  rw [← h.written, List.countP_map]
  refine List.countP_congr fun n _ => ?_
  simp

theorem all_not_logic_iff (h : Resolved g nodes links) :
    (∀ n ∈ g.nodes, n.type ≠ .logic) ↔ nodes.any Node.isLogic = false := by
  rw [List.any_eq_false]
  constructor
  · intro hall n hn hlogic
    exact hall n.toCandidate (h.mem_nodes.mpr ⟨n, hn, rfl⟩)
      (n.toCandidate_type_eq_logic.mpr hlogic)
  · rintro hall m hm htype
    obtain ⟨n, hn, rfl⟩ := h.mem_nodes.mp hm
    exact hall n hn (n.toCandidate_type_eq_logic.mp htype)

/-! ## Leaves -/

theorem fromContent_iff (h : Resolved g nodes links) {e : Edge} {i : Nat} {n : Node}
    (hn : nodes[i]? = some n) (hi : g.ids[i]? = some e.source) :
    g.FromContent e ↔ n.isContent = true := by
  have hid : n.id = e.source := Option.some.inj ((h.getElem?_ids hn).symm.trans hi)
  constructor
  · rintro ⟨m, hm, hsource, htype⟩
    obtain ⟨n', hn', rfl⟩ := h.mem_nodes.mp hm
    obtain ⟨j, hj⟩ := List.mem_iff_getElem?.mp hn'
    have hj' := h.getElem?_ids hj
    rw [← n'.toCandidate_id, hsource] at hj'
    rw [getElem?_unique h.placed.nodup hj' hi, hn] at hj
    cases hj
    exact n.toCandidate_type_eq_content.mp htype
  · intro hcontent
    exact ⟨n.toCandidate, h.mem_nodes.mpr ⟨n, List.mem_of_getElem? hn, rfl⟩, by simp [hid],
      n.toCandidate_type_eq_content.mpr hcontent⟩

theorem leafDefect?_of_mem_zip (h : Resolved g nodes links) {e : Edge} {l : Nat × Nat}
    (hmem : (e, l) ∈ g.edges.zip links) :
    (g.FromContent e ∧ Validation.leafDefect? nodes.toArray e l.1
        = some (.contentNodeHasChildren e.id e.source))
      ∨ (¬ g.FromContent e ∧ Validation.leafDefect? nodes.toArray e l.1 = none) := by
  -- The place of the source holds the node with its id.
  obtain ⟨hs, -⟩ := List.forall₂_zip h.placed.ends hmem
  have hlt : l.1 < nodes.length := by
    rw [h.length_eq]
    exact (List.getElem?_eq_some_iff.mp hs).1
  have hn := List.getElem?_eq_getElem hlt
  have hid := Option.some.inj ((h.getElem?_ids hn).symm.trans hs)
  rw [h.fromContent_iff hn hs, Validation.leafDefect?, List.getElem?_toArray, hn]
  cases hcontent : nodes[l.1].isContent with
  | true => exact .inl ⟨rfl, by simp [hcontent, hid]⟩
  | false => exact .inr ⟨by simp, by simp [hcontent]⟩

/-! ## Cycles -/

theorem acyclic_iff (h : Resolved g nodes links) :
    (Digraph.ofLinks nodes.length links).cycleNode? = none ↔ g.Meets .acyclic := by
  rw [Digraph.cycleNode?_eq_none_iff, h.length_eq, h.placed.acyclic_iff]
  rfl

theorem cycle_of_cycleNode? (h : Resolved g nodes links) {v : Nat}
    (hv : (Digraph.ofLinks nodes.length links).cycleNode? = some v) :
    Validation.idAt nodes.toArray v ∈ g.ids
      ∧ TransGen (Linked g.edges) (Validation.idAt nodes.toArray v)
          (Validation.idAt nodes.toArray v) := by
  have hcycle := Digraph.transGen_of_cycleNode? hv
  have hlt : v < nodes.length := by
    have hsize := Digraph.lt_size_of_transGen hcycle
    rwa [Digraph.size_ofLinks] at hsize
  have hid : g.ids[v]? = some (Validation.idAt nodes.toArray v) := by
    rw [h.getElem?_ids (List.getElem?_eq_getElem hlt)]
    simp [Validation.idAt, hlt]
  rw [h.length_eq] at hcycle
  exact ⟨List.mem_of_getElem? hid, (h.placed.mirrors_ofLinks.transGen_iff hid hid).mp hcycle⟩

/-! ## Detached conditions -/

theorem detached_iff (h : Resolved g nodes links) {n : Node} {i : Nat}
    (hn : nodes[i]? = some n) :
    (n.isContent && !(links.foldl (fun a link => a.setIfInBounds link.2 true)
        (Array.replicate nodes.length false)).getD i false) = true
      ↔ g.Detached n.toCandidate := by
  rw [Bool.and_eq_true, Bool.not_eq_true', ← Bool.not_eq_true, h.length_eq,
    h.placed.pointedTo_iff (h.getElem?_ids hn), CandidateLogic.Detached,
    n.toCandidate_type_eq_content, n.toCandidate_id]
  simp

theorem detached_of_firstDetached? (h : Resolved g nodes links) {n : Node}
    (hn : Validation.firstDetached? nodes links = some n) :
    ∃ before, First (fun _ => g.Detached) g.nodes before n.toCandidate :=
  h.written ▸ first_of_zipIdx (fun _ _ => h.detached_iff) hn

theorem attached_of_firstDetached? (h : Resolved g nodes links)
    (hnone : Validation.firstDetached? nodes links = none) : g.Meets .attached := by
  intro _ m hm htype
  obtain ⟨n, hn, rfl⟩ := h.mem_nodes.mp hm
  have hnot := forall_of_zipIdx (fun _ _ => h.detached_iff) hnone n hn
  rw [CandidateLogic.Detached, not_and] at hnot
  simpa using hnot htype

/-! ## Nodes apart -/

theorem apart_iff (h : Resolved g nodes links) {n : Node} {i : Nat}
    (hn : nodes[i]? = some n) :
    (!((Digraph.undirected nodes.length links).joined 0).getD i false) = true
      ↔ g.Apart n.toCandidate := by
  have hlt := (List.getElem?_eq_some_iff.mp hn).1
  have hpos : 0 < nodes.length := by omega
  have hfirst : g.nodes.head? = some nodes[0].toCandidate := by
    rw [← h.written, List.head?_map, List.head?_eq_getElem?, List.getElem?_eq_getElem hpos]
    rfl
  have hsize : 0 < (Digraph.undirected g.ids.length links).size := by
    rw [Digraph.undirected, Digraph.size_ofLinks, ← h.length_eq]
    exact hpos
  have hjoined := Digraph.joined_getD h.placed.inRange_undirected hsize (w := i)
  rw [h.placed.mirrors_undirected.reflTransGen_iff
    (h.getElem?_ids (List.getElem?_eq_getElem hpos)) (h.getElem?_ids hn)] at hjoined
  rw [Bool.not_eq_true', ← Bool.not_eq_true, h.length_eq, hjoined, CandidateLogic.Apart,
    hfirst]
  simp

theorem apart_of_firstApart? (h : Resolved g nodes links) {n : Node}
    (hn : Validation.firstApart? nodes links = some n) :
    ∃ before, First (fun _ => g.Apart) g.nodes before n.toCandidate :=
  h.written ▸ first_of_zipIdx (fun _ _ => h.apart_iff) hn

theorem joined_symm {edges : List Edge} {a b : String} (h : ReflTransGen (Joined edges) a b) :
    ReflTransGen (Joined edges) b a := by
  induction h with
  | refl => exact .refl
  | tail _ hstep ih => exact ih.head hstep.symm

theorem connected_of_firstApart? (h : Resolved g nodes links)
    (hnone : Validation.firstApart? nodes links = none) : g.Meets .connected := by
  -- Any two nodes are joined because both are joined to the first.
  have hfirst : ∀ m, g.nodes.head? = some m → ∀ n ∈ g.nodes,
      ReflTransGen (Joined g.edges) m.id n.id := by
    intro m hm n hn
    obtain ⟨n', hn', rfl⟩ := h.mem_nodes.mp hn
    have hnot := forall_of_zipIdx (fun _ _ => h.apart_iff) hnone n' hn'
    simpa [CandidateLogic.Apart, hm] using hnot
  intro hlen m hm n hn
  obtain ⟨f, hf⟩ : ∃ f, g.nodes.head? = some f := by
    cases hnodes : g.nodes with
    | nil => simp [hnodes] at hlen
    | cons f _ => exact ⟨f, rfl⟩
  exact (joined_symm (hfirst f hf m hm)).trans (hfirst f hf n hn)

end Resolved

/-! ## The order of the clauses -/

theorem ShapeClause.number_injective : ShapeClause.number.Injective := by
  intro a b h
  cases a <;> cases b <;> first | rfl | cases h

theorem CandidateLogic.meetsBefore_first (g : CandidateLogic) :
    g.MeetsBefore .hasCondition :=
  holdsBefore_first fun clause => by cases clause <;> decide

theorem CandidateLogic.MeetsBefore.next {g : CandidateLogic} {a b : ShapeClause}
    (h : g.MeetsBefore a) (ha : g.Meets a) (hb : b.number = a.number + 1) :
    g.MeetsBefore b :=
  HoldsBefore.next ShapeClause.number_injective h ha hb

theorem CandidateLogic.MeetsBefore.all {g : CandidateLogic}
    (h : g.MeetsBefore .connected) (hlast : g.Meets .connected) :
    ∀ clause, g.Meets clause :=
  HoldsBefore.all ShapeClause.number_injective h hlast fun clause => by
    cases clause <;> decide

/-! ## The check -/

/-- A true report on the shape of the graph. -/
def ShapeReport (c : Candidate) (d : Defect) : Prop :=
  d.check = .graphShape ∧ c.Shows d ∧
    ∀ clause, d.clause? = some clause → c.logic.MeetsBefore clause

namespace Validation

/-- The report of a defect that breaks a clause when those before are met. -/
theorem shapeReport_of {c : Candidate} {d : Defect} {clause : ShapeClause}
    (hcheck : d.check = .graphShape) (hclause : d.clause? = some clause)
    (hbefore : c.logic.MeetsBefore clause) (hshows : c.Shows d) : ShapeReport c d := by
  refine ⟨hcheck, hshows, fun k hk => ?_⟩
  rw [hclause] at hk
  cases hk
  exact hbefore

theorem settles_checkConnected {c : Candidate} {nodes : List Node}
    {links : List (Nat × Nat)} (h : Resolved c.logic nodes links)
    (hbefore : c.logic.MeetsBefore .attached) :
    Settles (checkConnected nodes links) (fun _ => c.Passes .graphShape) (ShapeReport c) := by
  rw [checkConnected]
  by_cases hlen : nodes.length ≤ 1
  · rw [if_pos hlen]
    -- A graph of one node meets the last two clauses because they ask nothing of it.
    have hlen' : ¬ 1 < c.logic.nodes.length := by rw [h.length_nodes]; omega
    have hattached : c.logic.Meets .attached := fun hlt => absurd hlt hlen'
    have hconnected : c.logic.Meets .connected := fun hlt => absurd hlt hlen'
    exact (hbefore.next hattached rfl).all hconnected
  rw [if_neg hlen]
  have hlen' : 1 < c.logic.nodes.length := by rw [h.length_nodes]; omega
  refine (settles_unless? h.attached_of_firstDetached? fun n hn => ?_).bind
    fun _ hattached => settles_unless? (fun hnone => ?_) fun n hn => ?_
  · obtain ⟨before, hfirst⟩ := h.detached_of_firstDetached? hn
    exact shapeReport_of rfl rfl hbefore ⟨hlen', before, _, hfirst, n.toCandidate_id⟩
  · exact (hbefore.next hattached rfl).all (h.connected_of_firstApart? hnone)
  · obtain ⟨before, hfirst⟩ := h.apart_of_firstApart? hn
    exact shapeReport_of rfl rfl (hbefore.next hattached rfl)
      ⟨hlen', before, _, hfirst, n.toCandidate_id⟩

/-! ## Edges that start at a condition -/

theorem zip_map_fst {edges : List Edge} {links : List (Nat × Nat)}
    (h : edges.length = links.length) : (edges.zip links).map Prod.fst = edges :=
  List.map_fst_zip (by omega)

theorem settles_leaves {c : Candidate} {nodes : List Node} {links : List (Nat × Nat)}
    (h : Resolved c.logic nodes links) (hbefore : c.logic.MeetsBefore .leaves) :
    Settles
      (unless? ((c.logic.edges.zip links).findSome? fun (e, link) =>
        leafDefect? nodes.toArray e link.1) id)
      (fun _ => c.logic.Meets .leaves) (ShapeReport c) := by
  have hedges := zip_map_fst h.placed.length_eq
  refine settles_unless? (fun hnone e he hfrom => ?_) fun d hd => ?_
  · rw [← hedges] at he
    obtain ⟨⟨e, link⟩, hmem, rfl⟩ := List.mem_map.mp he
    rcases h.leafDefect?_of_mem_zip hmem with ⟨-, hsome⟩ | ⟨hnot, -⟩
    · have hnone' : leafDefect? nodes.toArray e link.1 = none :=
        List.findSome?_eq_none_iff.mp hnone _ hmem
      rw [hsome] at hnone'
      cases hnone'
    · exact hnot hfrom
  · obtain ⟨before, ⟨e, link⟩, hfirst, hsome⟩ := first_of_findSome? (fun _ => Iff.rfl) hd
    have hfrom : First (fun _ x => c.logic.FromContent x.1) (c.logic.edges.zip links) before
        (e, link) := by
      refine hfirst.congr ?_
      rintro _ ⟨e, link⟩ hmem
      rcases h.leafDefect?_of_mem_zip hmem with ⟨hfrom, hsome⟩ | ⟨hnot, hnone⟩
      · simp [hfrom, hsome]
      · simp [hnot, hnone]
    have hmap : First (fun _ => c.logic.FromContent) ((c.logic.edges.zip links).map Prod.fst)
        (before.map Prod.fst) e := First.map (f := Prod.fst) (b := (e, link)) hfrom
    rw [hedges] at hmap
    rcases h.leafDefect?_of_mem_zip hfirst.mem with ⟨-, hsome'⟩ | ⟨hnot, -⟩
    · cases Option.some.inj (hsome'.symm.trans hsome)
      exact shapeReport_of rfl rfl hbefore ⟨_, e, hmap, rfl, rfl⟩
    · exact absurd hfrom.faulty hnot

/-! ## The whole check of the graph -/

theorem settles_checkShape {c : Candidate} {nodes : List Node} {links : List (Nat × Nat)}
    (h : Resolved c.logic nodes links) :
    Settles (checkShape nodes c.logic.edges links) (fun _ => c.Passes .graphShape)
      (ShapeReport c) := by
  have hfirst := c.logic.meetsBefore_first
  have hcount := h.countP_content
  have hlogic := h.all_not_logic_iff
  simp only [checkShape]
  by_cases hnone : nodes.countP Node.isContent = 0
  · rw [if_pos hnone]
    refine shapeReport_of rfl rfl hfirst fun n hn htype => ?_
    rw [hnone, List.countP_eq_zero] at hcount
    simpa [htype] using hcount n hn
  rw [if_neg hnone]
  have hmeets : c.logic.Meets .hasCondition := by
    rw [← hcount] at hnone
    obtain ⟨n, hn, htype⟩ := List.countP_pos_iff.mp (Nat.pos_of_ne_zero hnone)
    exact ⟨n, hn, by simpa using htype⟩
  have hbefore := hfirst.next (b := .combined) hmeets rfl
  by_cases hmissing : 1 < nodes.countP Node.isContent ∧ nodes.any Node.isLogic = false
  · rw [if_pos (by simpa using hmissing)]
    exact shapeReport_of rfl rfl hbefore ⟨hlogic.mpr hmissing.2, hmissing.1, hcount⟩
  rw [if_neg (by simpa using hmissing)]
  have hcombined : c.logic.Meets .combined := by
    intro hall
    rw [not_and] at hmissing
    have hle : ¬ 1 < nodes.countP Node.isContent := fun hlt => hmissing hlt (hlogic.mp hall)
    rw [hcount]
    omega
  have hbefore := hbefore.next (b := .leaves) hcombined rfl
  refine (settles_leaves h hbefore).bind fun _ hleaves => ?_
  have hbefore := hbefore.next (b := .acyclic) hleaves rfl
  refine (settles_unless? h.acyclic_iff.mp fun v hv => ?_).bind fun _ hacyclic =>
    settles_checkConnected h (hbefore.next hacyclic rfl)
  exact shapeReport_of rfl rfl hbefore (h.cycle_of_cycleNode? hv)

end Validation

end VisualRules
