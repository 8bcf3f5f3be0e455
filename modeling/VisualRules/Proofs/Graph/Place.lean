import VisualRules.Proofs.Graph.Step

/-!
# Ids and places

A rule speaks of its nodes by id, the searches by place. When no id is carried
twice and every end of an edge is the id of a node, the two ways to speak say
the same: chains of edges between ids are chains of steps between places.
-/

namespace VisualRules

open Relation

/-! ## Edges between ids -/

/-- An edge leads from one id to another. -/
def Linked (edges : List Edge) (a b : String) : Prop :=
  ∃ e ∈ edges, e.source = a ∧ e.target = b

/-- An edge joins two ids, taken in either direction. -/
def Joined (edges : List Edge) (a b : String) : Prop :=
  Linked edges a b ∨ Linked edges b a

theorem getElem?_unique {ids : List String} (h : ids.Nodup) {i j : Nat} {a : String}
    (hi : ids[i]? = some a) (hj : ids[j]? = some a) : i = j :=
  (List.getElem?_inj (List.getElem?_eq_some_iff.mp hi).1 h).mp (hi.trans hj.symm)

/-! ## Relations on places and on ids -/

/-- A relation on places says of places what one on ids says of the ids that
stand there. -/
structure Mirrors (ids : List String) (R : Nat → Nat → Prop)
    (S : String → String → Prop) : Prop where
  nodup : ids.Nodup
  iff : ∀ i j, R i j ↔ ∃ a b, ids[i]? = some a ∧ ids[j]? = some b ∧ S a b
  left_mem : ∀ a b, S a b → a ∈ ids

namespace Mirrors

variable {ids : List String} {R : Nat → Nat → Prop} {S : String → String → Prop}
  {i j : Nat} {a b : String}

theorem of_transGen (h : Mirrors ids R S) (hi : ids[i]? = some a)
    (hR : TransGen R i j) (hj : ids[j]? = some b) : TransGen S a b := by
  induction hR generalizing b with
  | single hstep =>
      obtain ⟨a', b', hi', hj', hS⟩ := (h.iff _ _).mp hstep
      rw [hi] at hi'
      rw [hj] at hj'
      cases hi'
      cases hj'
      exact .single hS
  | tail _ hstep ih =>
      obtain ⟨c, b', hk, hj', hS⟩ := (h.iff _ _).mp hstep
      rw [hj] at hj'
      cases hj'
      exact (ih hk).tail hS

theorem to_transGen (h : Mirrors ids R S) (hi : ids[i]? = some a)
    (hS : TransGen S a b) (hj : ids[j]? = some b) : TransGen R i j := by
  induction hS generalizing j with
  | single hstep => exact .single ((h.iff _ _).mpr ⟨_, _, hi, hj, hstep⟩)
  | @tail c _ _ hstep ih =>
      obtain ⟨k, hk⟩ := List.mem_iff_getElem?.mp (h.left_mem _ _ hstep)
      exact (ih hk).tail ((h.iff _ _).mpr ⟨_, _, hk, hj, hstep⟩)

theorem transGen_iff (h : Mirrors ids R S) (hi : ids[i]? = some a)
    (hj : ids[j]? = some b) : TransGen R i j ↔ TransGen S a b :=
  ⟨fun hR => h.of_transGen hi hR hj, fun hS => h.to_transGen hi hS hj⟩

theorem reflTransGen_iff (h : Mirrors ids R S) (hi : ids[i]? = some a)
    (hj : ids[j]? = some b) : ReflTransGen R i j ↔ ReflTransGen S a b := by
  rw [reflTransGen_iff_eq_or_transGen, reflTransGen_iff_eq_or_transGen,
    h.transGen_iff hi hj]
  refine or_congr_left ⟨fun hji => ?_, fun hba => ?_⟩
  · rw [hji, hi] at hj
    exact Option.some.inj hj.symm
  · exact getElem?_unique h.nodup (hba ▸ hj) hi

end Mirrors

/-! ## Edges by place -/

/-- Pairs of places that say of each edge where its ends stand among ids that
do not repeat. -/
structure Placed (ids : List String) (edges : List Edge) (links : List (Nat × Nat)) :
    Prop where
  nodup : ids.Nodup
  ends : List.Forall₂
    (fun e l => ids[l.1]? = some e.source ∧ ids[l.2]? = some e.target) edges links

namespace Placed

variable {ids : List String} {edges : List Edge} {links : List (Nat × Nat)}

theorem length_eq (h : Placed ids edges links) : edges.length = links.length :=
  h.ends.length_eq

theorem linked_of_mem (h : Placed ids edges links) {i j : Nat}
    (hmem : (i, j) ∈ links) :
    ∃ a b, ids[i]? = some a ∧ ids[j]? = some b ∧ Linked edges a b := by
  obtain ⟨hnodup, hends⟩ := h
  induction hends with
  | nil => cases hmem
  | @cons e l edges links hl _ ih =>
      rcases List.mem_cons.mp hmem with rfl | hmem
      · exact ⟨e.source, e.target, hl.1, hl.2, e, by simp, rfl, rfl⟩
      · obtain ⟨a, b, ha, hb, e', he', hab⟩ := ih hmem
        exact ⟨a, b, ha, hb, e', by simp [he'], hab⟩

theorem mem_of_linked (h : Placed ids edges links) {a b : String}
    (hab : Linked edges a b) :
    ∃ i j, (i, j) ∈ links ∧ ids[i]? = some a ∧ ids[j]? = some b := by
  obtain ⟨hnodup, hends⟩ := h
  induction hends with
  | nil => obtain ⟨e, he, -⟩ := hab; cases he
  | @cons e l edges links hl _ ih =>
      obtain ⟨e', he', rfl, rfl⟩ := hab
      rcases List.mem_cons.mp he' with rfl | he'
      · exact ⟨l.1, l.2, by simp, hl.1, hl.2⟩
      · obtain ⟨i, j, hmem, hi, hj⟩ := ih ⟨e', he', rfl, rfl⟩
        exact ⟨i, j, by simp [hmem], hi, hj⟩

theorem mem_iff (h : Placed ids edges links) {i j : Nat} : (i, j) ∈ links
    ↔ ∃ a b, ids[i]? = some a ∧ ids[j]? = some b ∧ Linked edges a b := by
  refine ⟨h.linked_of_mem, ?_⟩
  rintro ⟨a, b, hi, hj, hab⟩
  obtain ⟨i', j', hmem, hi', hj'⟩ := h.mem_of_linked hab
  rwa [getElem?_unique h.nodup hi hi', getElem?_unique h.nodup hj hj']

theorem lt_of_mem (h : Placed ids edges links) {i j : Nat} (hmem : (i, j) ∈ links) :
    i < ids.length ∧ j < ids.length := by
  obtain ⟨a, b, hi, hj, -⟩ := h.mem_iff.mp hmem
  exact ⟨(List.getElem?_eq_some_iff.mp hi).1, (List.getElem?_eq_some_iff.mp hj).1⟩

theorem left_mem (h : Placed ids edges links) {a b : String} (hab : Linked edges a b) :
    a ∈ ids := by
  obtain ⟨i, j, -, hi, -⟩ := h.mem_of_linked hab
  exact List.mem_of_getElem? hi

theorem right_mem (h : Placed ids edges links) {a b : String} (hab : Linked edges a b) :
    b ∈ ids := by
  obtain ⟨i, j, -, -, hj⟩ := h.mem_of_linked hab
  exact List.mem_of_getElem? hj

/-! ## The graphs of a list of edges -/

theorem mirrors_ofLinks (h : Placed ids edges links) :
    Mirrors ids (Digraph.ofLinks ids.length links).Step (Linked edges) where
  nodup := h.nodup
  iff i j := by
    rw [Digraph.step_ofLinks, ← h.mem_iff]
    exact and_iff_right_of_imp fun hmem => (h.lt_of_mem hmem).1
  left_mem _ _ := h.left_mem

theorem mirrors_undirected (h : Placed ids edges links) :
    Mirrors ids (Digraph.undirected ids.length links).Step (Joined edges) where
  nodup := h.nodup
  iff i j := by
    rw [Digraph.step_undirected, h.mem_iff, h.mem_iff]
    constructor
    · rintro ⟨-, ⟨a, b, hi, hj, hab⟩ | ⟨b, a, hj, hi, hba⟩⟩
      · exact ⟨a, b, hi, hj, .inl hab⟩
      · exact ⟨a, b, hi, hj, .inr hba⟩
    · rintro ⟨a, b, hi, hj, hab | hba⟩
      · exact ⟨(List.getElem?_eq_some_iff.mp hi).1, .inl ⟨a, b, hi, hj, hab⟩⟩
      · exact ⟨(List.getElem?_eq_some_iff.mp hi).1, .inr ⟨b, a, hj, hi, hba⟩⟩
  left_mem a b := by
    rintro (hab | hba)
    · exact h.left_mem hab
    · exact h.right_mem hba

theorem inRange_ofLinks (h : Placed ids edges links) :
    (Digraph.ofLinks ids.length links).InRange := by
  intro i j hstep
  rw [Digraph.size_ofLinks]
  exact (h.lt_of_mem (Digraph.step_ofLinks.mp hstep).2).2

theorem inRange_undirected (h : Placed ids edges links) :
    (Digraph.undirected ids.length links).InRange := by
  intro i j hstep
  rw [Digraph.undirected, Digraph.size_ofLinks]
  rcases (Digraph.step_undirected.mp hstep).2 with hmem | hmem
  · exact (h.lt_of_mem hmem).2
  · exact (h.lt_of_mem hmem).1

/-- The graph by place has no cycle exactly when no chain of edges leads from
an id back to itself. -/
theorem acyclic_iff (h : Placed ids edges links) :
    (Digraph.ofLinks ids.length links).Acyclic
      ↔ ∀ a, ¬ TransGen (Linked edges) a a := by
  constructor
  · intro hg a hcycle
    obtain ⟨b, hab, -⟩ := TransGen.head'_iff.mp hcycle
    obtain ⟨i, hi⟩ := List.mem_iff_getElem?.mp (h.left_mem hab)
    exact hg i ((h.mirrors_ofLinks.transGen_iff hi hi).mpr hcycle)
  · intro hids i hcycle
    have hlt := Digraph.lt_size_of_transGen hcycle
    rw [Digraph.size_ofLinks] at hlt
    have hi := List.getElem?_eq_getElem hlt
    exact hids _ ((h.mirrors_ofLinks.transGen_iff hi hi).mp hcycle)

end Placed

/-! ## Places that edges point to -/

/-- Marking the places that edges point to marks those and no others. -/
theorem pointedTo_getD {n : Nat} (links : List (Nat × Nat)) (a : Array Bool)
    (ha : a.size = n) {v : Nat} (hv : v < n) :
    (links.foldl (fun a link => a.setIfInBounds link.2 true) a).getD v false = true
      ↔ a.getD v false = true ∨ ∃ s, (s, v) ∈ links := by
  induction links generalizing a with
  | nil => simp
  | cons link links ih =>
      rw [List.foldl_cons, ih _ (by simpa using ha), getD_setIfInBounds]
      obtain ⟨s, t⟩ := link
      by_cases ht : t = v
      · subst ht
        simp only [ha, hv, and_self, if_true, true_or, true_iff]
        exact .inr ⟨s, by simp⟩
      · simp only [ht, false_and, if_false, List.mem_cons, Prod.mk.injEq]
        refine or_congr_right (exists_congr fun x => ?_)
        simp [Ne.symm ht]

theorem Placed.pointedTo_iff {ids : List String} {edges : List Edge}
    {links : List (Nat × Nat)} (h : Placed ids edges links) {v : Nat} {a : String}
    (hv : ids[v]? = some a) :
    (links.foldl (fun a link => a.setIfInBounds link.2 true)
      (Array.replicate ids.length false)).getD v false = true
      ↔ ∃ e ∈ edges, e.target = a := by
  have hlt := (List.getElem?_eq_some_iff.mp hv).1
  rw [pointedTo_getD links _ (by simp) hlt, getD_replicate_self]
  simp only [Bool.false_eq_true, false_or]
  constructor
  · rintro ⟨s, hmem⟩
    obtain ⟨x, b, -, hb, e, he, -, ht⟩ := h.linked_of_mem hmem
    rw [hv] at hb
    cases hb
    exact ⟨e, he, ht⟩
  · rintro ⟨e, he, rfl⟩
    obtain ⟨i, j, hmem, -, hj⟩ := h.mem_of_linked ⟨e, he, rfl, rfl⟩
    rw [getElem?_unique h.nodup hv hj]
    exact ⟨i, hmem⟩

/-! ## The table of places -/

namespace TriggerLogic

/-- Entering nodes into a table of places: each id leads to the place of its
node, and other ids to where they led before. -/
theorem getElem?_foldl_insert {nodes : List Node} (h : (nodes.map Node.id).Nodup)
    (k : Nat) (table : Std.HashMap String Nat) (a : String) :
    let table' := (nodes.zipIdx k).foldl
      (fun table (node, i) => table.insert node.id i) table
    (∀ i, (nodes.map Node.id)[i]? = some a → table'[a]? = some (k + i))
      ∧ (a ∉ nodes.map Node.id → table'[a]? = table[a]?) := by
  -- The two parts go together: a later entry must not take over an earlier id.
  induction nodes generalizing k table with
  | nil => exact ⟨by simp, by simp⟩
  | cons node nodes ih =>
      rw [List.map_cons, List.nodup_cons] at h
      obtain ⟨hsome, hnone⟩ := ih h.2 (k + 1) (table.insert node.id k)
      rw [List.zipIdx_cons, List.foldl_cons]
      refine ⟨fun i hi => ?_, fun ha => ?_⟩
      · cases i with
        | zero =>
            have hid : node.id = a := by simpa using hi
            rw [hnone (hid ▸ h.1)]
            simp [hid]
        | succ i =>
            rw [hsome i (by simpa using hi)]
            congr 1
            omega
      · rw [List.map_cons, List.mem_cons, not_or] at ha
        rw [hnone ha.2, Std.HashMap.getElem?_insert]
        simp [Ne.symm ha.1]

theorem places_getElem? {nodes : List Node} (h : (nodes.map Node.id).Nodup)
    {a : String} {i : Nat} :
    (places nodes)[a]? = some i ↔ (nodes.map Node.id)[i]? = some a := by
  obtain ⟨hsome, hnone⟩ := getElem?_foldl_insert h 0 ∅ a
  constructor
  · intro hi
    by_cases ha : a ∈ nodes.map Node.id
    · obtain ⟨j, hj⟩ := List.mem_iff_getElem?.mp ha
      have hj' := hsome j hj
      rw [Nat.zero_add] at hj'
      rw [places, hj'] at hi
      rwa [← Option.some.inj hi]
    · rw [places, hnone ha] at hi
      simp at hi
  · intro hi
    rw [places, hsome i hi, Nat.zero_add]

theorem places_getElem?_eq_none {nodes : List Node} (h : (nodes.map Node.id).Nodup)
    {a : String} : (places nodes)[a]? = none ↔ a ∉ nodes.map Node.id := by
  rw [Option.eq_none_iff_forall_ne_some, List.mem_iff_getElem?]
  simp only [ne_eq, places_getElem? h, not_exists]

/-- When every end of an edge is the id of a node, no edge is left out. -/
theorem placed_links {nodes : List Node} {edges : List Edge}
    (h : (nodes.map Node.id).Nodup)
    (hends : ∀ e ∈ edges, e.source ∈ nodes.map Node.id ∧ e.target ∈ nodes.map Node.id) :
    Placed (nodes.map Node.id) edges (links nodes edges) := by
  refine ⟨h, ?_⟩
  induction edges with
  | nil => exact .nil
  | cons e edges ih =>
      obtain ⟨hs, ht⟩ := hends e (by simp)
      obtain ⟨i, hi⟩ := List.mem_iff_getElem?.mp hs
      obtain ⟨j, hj⟩ := List.mem_iff_getElem?.mp ht
      have hlinks : links nodes (e :: edges) = (i, j) :: links nodes edges := by
        simp only [links, List.filterMap_cons, (places_getElem? h).mpr hi,
          (places_getElem? h).mpr hj]
      rw [hlinks]
      exact .cons ⟨hi, hj⟩ (ih fun e' he' => hends e' (by simp [he']))

end TriggerLogic

end VisualRules
