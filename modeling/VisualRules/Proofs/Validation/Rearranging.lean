import Mathlib.Data.Set.Function
import Mathlib.Logic.Equiv.Basic
import VisualRules.Proofs.Validation.WellFormed

/-!
# Order and names

Candidates that differ in the order of their targets, nodes and edges and in the
ids that these carry get the same verdict, although the searches come across the
nodes in another order and may name another one of them. Each of the eight
conditions is kept, and with them which one fails first.
-/

namespace VisualRules

open Relation

theorem nodup_map_iff_of_injOn {α β : Type} {f : α → β} {l : List α}
    (hf : {a | a ∈ l}.InjOn f) : (l.map f).Nodup ↔ l.Nodup :=
  ⟨List.Nodup.of_map f, List.Nodup.map_on fun _ ha _ hb heq => hf ha hb heq⟩

/-! ## Candidates in another order and under other names -/

/-- A node under another id. -/
def CandidateNode.rename (f : String → String) (n : CandidateNode) : CandidateNode :=
  { n with id := f n.id }

/-- An edge under another id, between nodes under other ids. -/
def Edge.rename (f g : String → String) (e : Edge) : Edge :=
  ⟨g e.id, f e.source, f e.target⟩

/-- The texts that a graph uses as ids of nodes; an end of an edge may be the id
of none. The empty text is an id that no node may carry. -/
def CandidateLogic.nodeNames (g : CandidateLogic) : Set String :=
  {a | a = "" ∨ a ∈ g.ids ∨ ∃ e ∈ g.edges, a = e.source ∨ a = e.target}

/-- A candidate has the targets, nodes and edges of another one in any order,
with ids that are renamed without making two of them alike. -/
structure Candidate.Rearranges (f g : String → String) (c c' : Candidate) : Prop where
  targets : c'.targetObjects.Perm c.targetObjects
  nodes : c'.logic.nodes.Perm (c.logic.nodes.map (CandidateNode.rename f))
  edges : c'.logic.edges.Perm (c.logic.edges.map (Edge.rename f g))
  threshold : c'.logic.thresholdSeconds = c.logic.thresholdSeconds
  alert : c'.alertMessage = c.alertMessage
  empty : f "" = ""
  nodeNames : c.logic.nodeNames.InjOn f
  edgeNames : {a | a ∈ c.logic.edges.map Edge.id}.InjOn g

namespace Candidate.Rearranges

variable {f g : String → String} {c c' : Candidate}

/-! ## What corresponds to what -/

theorem mem_nodeNames_of_mem_ids {a : String} (ha : a ∈ c.logic.ids) :
    a ∈ c.logic.nodeNames :=
  .inr (.inl ha)

theorem id_mem {n : CandidateNode} (hn : n ∈ c.logic.nodes) : n.id ∈ c.logic.nodeNames :=
  mem_nodeNames_of_mem_ids (List.mem_map_of_mem hn)

theorem source_mem {e : Edge} (he : e ∈ c.logic.edges) : e.source ∈ c.logic.nodeNames :=
  .inr (.inr ⟨e, he, .inl rfl⟩)

theorem target_mem {e : Edge} (he : e ∈ c.logic.edges) : e.target ∈ c.logic.nodeNames :=
  .inr (.inr ⟨e, he, .inr rfl⟩)

theorem linked_mem {a b : String} (h : Linked c.logic.edges a b) :
    a ∈ c.logic.nodeNames ∧ b ∈ c.logic.nodeNames := by
  obtain ⟨e, he, rfl, rfl⟩ := h
  exact ⟨source_mem he, target_mem he⟩

theorem joined_mem {a b : String} (h : Joined c.logic.edges a b) :
    a ∈ c.logic.nodeNames ∧ b ∈ c.logic.nodeNames := by
  rcases h with h | h
  · exact linked_mem h
  · exact (linked_mem h).symm

theorem forall_nodes (h : Rearranges f g c c') {p : CandidateNode → Prop} :
    (∀ n ∈ c'.logic.nodes, p n) ↔ ∀ n ∈ c.logic.nodes, p (n.rename f) := by
  simp only [h.nodes.mem_iff, List.forall_mem_map]

theorem exists_nodes (h : Rearranges f g c c') {p : CandidateNode → Prop} :
    (∃ n ∈ c'.logic.nodes, p n) ↔ ∃ n ∈ c.logic.nodes, p (n.rename f) := by
  simp [h.nodes.mem_iff]

theorem forall_edges (h : Rearranges f g c c') {p : Edge → Prop} :
    (∀ e ∈ c'.logic.edges, p e) ↔ ∀ e ∈ c.logic.edges, p (e.rename f g) := by
  simp only [h.edges.mem_iff, List.forall_mem_map]

theorem exists_edges (h : Rearranges f g c c') {p : Edge → Prop} :
    (∃ e ∈ c'.logic.edges, p e) ↔ ∃ e ∈ c.logic.edges, p (e.rename f g) := by
  simp [h.edges.mem_iff]

theorem ids (h : Rearranges f g c c') : c'.logic.ids.Perm (c.logic.ids.map f) := by
  have hids := h.nodes.map CandidateNode.id
  rw [List.map_map] at hids
  rw [CandidateLogic.ids, CandidateLogic.ids, List.map_map]
  exact hids

theorem mem_ids_iff (h : Rearranges f g c c') {a : String} (ha : a ∈ c.logic.nodeNames) :
    f a ∈ c'.logic.ids ↔ a ∈ c.logic.ids := by
  rw [h.ids.mem_iff, List.mem_map]
  constructor
  · rintro ⟨b, hb, heq⟩
    rwa [← h.nodeNames (mem_nodeNames_of_mem_ids hb) ha heq]
  · intro hmem
    exact ⟨a, hmem, rfl⟩

theorem length_nodes (h : Rearranges f g c c') :
    c'.logic.nodes.length = c.logic.nodes.length := by
  rw [h.nodes.length_eq, List.length_map]

theorem linked_eq (h : Rearranges f g c c') :
    Linked c'.logic.edges = Relation.Map (Linked c.logic.edges) f f := by
  funext x y
  refine propext (h.exists_edges.trans ?_)
  constructor
  · rintro ⟨e, he, rfl, rfl⟩
    exact ⟨e.source, e.target, ⟨e, he, rfl, rfl⟩, rfl, rfl⟩
  · rintro ⟨_, _, ⟨e, he, rfl, rfl⟩, rfl, rfl⟩
    exact ⟨e, he, rfl, rfl⟩

theorem joined_eq (h : Rearranges f g c c') :
    Joined c'.logic.edges = Relation.Map (Joined c.logic.edges) f f := by
  funext x y
  apply propext
  rw [Joined, h.linked_eq]
  constructor
  · rintro (⟨a, b, hab, rfl, rfl⟩ | ⟨b, a, hba, rfl, rfl⟩)
    · exact ⟨a, b, .inl hab, rfl, rfl⟩
    · exact ⟨a, b, .inr hba, rfl, rfl⟩
  · rintro ⟨a, b, hab | hba, rfl, rfl⟩
    · exact .inl ⟨a, b, hab, rfl, rfl⟩
    · exact .inr ⟨b, a, hba, rfl, rfl⟩

/-! ## The clauses on the graph -/

theorem fromContent_iff (h : Rearranges f g c c') {e : Edge} (he : e ∈ c.logic.edges) :
    c'.logic.FromContent (e.rename f g) ↔ c.logic.FromContent e := by
  refine h.exists_nodes.trans ?_
  constructor
  · rintro ⟨n, hn, hid, htype⟩
    exact ⟨n, hn, h.nodeNames (id_mem hn) (source_mem he) hid, htype⟩
  · rintro ⟨n, hn, hid, htype⟩
    exact ⟨n, hn, congrArg f hid, htype⟩

theorem meets_iff (h : Rearranges f g c c') (clause : ShapeClause) :
    c'.logic.Meets clause ↔ c.logic.Meets clause := by
  cases clause with
  | hasCondition => exact h.exists_nodes
  | combined =>
      have hcount : c'.logic.nodes.countP (·.type = .content)
          = c.logic.nodes.countP (·.type = .content) := by
        rw [h.nodes.countP_eq, List.countP_map]
        rfl
      show (_ → _ = 1) ↔ (_ → _ = 1)
      rw [hcount]
      exact imp_congr_left h.forall_nodes
  | leaves =>
      refine h.forall_edges.trans ?_
      exact forall₂_congr fun e he => not_congr (h.fromContent_iff he)
  | acyclic =>
      show (∀ a, ¬ TransGen (Linked c'.logic.edges) a a) ↔ _
      rw [h.linked_eq]
      exact acyclic_map_iff h.nodeNames fun a b => linked_mem
  | attached =>
      show (1 < _ → _) ↔ (1 < _ → _)
      rw [h.length_nodes]
      refine imp_congr_right fun _ => h.forall_nodes.trans ?_
      refine forall₂_congr fun n hn => imp_congr_right fun _ => h.exists_edges.trans ?_
      refine exists_congr fun e => and_congr_right fun he => ?_
      exact h.nodeNames.eq_iff (target_mem he) (id_mem hn)
  | connected =>
      show (1 < _ → _) ↔ (1 < _ → _)
      rw [h.length_nodes, h.joined_eq]
      refine imp_congr_right fun _ => h.forall_nodes.trans ?_
      refine forall₂_congr fun m hm => h.forall_nodes.trans ?_
      refine forall₂_congr fun n hn => ?_
      exact reflTransGen_map_iff h.nodeNames (fun a b => joined_mem) (id_mem hm) (id_mem hn)

/-! ## The conditions -/

theorem passes_uniqueNodeIds_iff (h : Rearranges f g c c') :
    c'.Passes .uniqueNodeIds ↔ c.Passes .uniqueNodeIds := by
  have hempty : ∀ n ∈ c.logic.nodes, f n.id ≠ "" ↔ n.id ≠ "" := by
    intro n hn
    have heq := h.nodeNames.eq_iff (id_mem hn) (.inl rfl)
    rw [h.empty] at heq
    exact not_congr heq
  have hnodup : c'.logic.ids.Nodup ↔ c.logic.ids.Nodup := by
    rw [h.ids.nodup_iff]
    exact nodup_map_iff_of_injOn (h.nodeNames.mono fun _ => mem_nodeNames_of_mem_ids)
  exact and_congr (h.forall_nodes.trans (forall₂_congr hempty)) hnodup

theorem passes_edgeReferences_iff (h : Rearranges f g c c') :
    c'.Passes .edgeReferences ↔ c.Passes .edgeReferences := by
  refine and_congr ?_ (h.forall_edges.trans ?_)
  · have hids := h.edges.map Edge.id
    have hmap : (c.logic.edges.map (Edge.rename f g)).map Edge.id
        = (c.logic.edges.map Edge.id).map g := by
      rw [List.map_map, List.map_map]
      rfl
    rw [hids.nodup_iff, hmap]
    exact nodup_map_iff_of_injOn h.edgeNames
  · refine forall₂_congr fun e he => and_congr ?_ ?_
    · exact h.mem_ids_iff (source_mem he)
    · exact h.mem_ids_iff (target_mem he)

theorem passes_iff (h : Rearranges f g c c') (k : Check) : c'.Passes k ↔ c.Passes k := by
  cases k with
  | targetObjects =>
      show (_ ≠ _ ∧ _) ↔ (_ ≠ _ ∧ _)
      rw [← List.length_pos_iff, ← List.length_pos_iff, h.targets.length_eq]
      simp only [h.targets.mem_iff]
  | uniqueNodeIds => exact h.passes_uniqueNodeIds_iff
  | logicNodeShape => exact h.forall_nodes
  | contentNodeShape => exact h.forall_nodes
  | edgeReferences => exact h.passes_edgeReferences_iff
  | graphShape => exact forall_congr' h.meets_iff
  | temporalThreshold =>
      show DurationWritten _ ↔ DurationWritten _
      rw [h.threshold]
  | alertMessage =>
      show _ ≠ _ ↔ _ ≠ _
      rw [h.alert]

end Candidate.Rearranges

/-! ## The verdict -/

namespace Candidate

variable {c c' : Candidate} {d d' : Defect}

theorem first_failed_of_validate (h : c.validate = .error d) :
    c.PassesBefore d.check ∧ ¬ c.Passes d.check := by
  have hsettles := c.settles_validate
  rw [h] at hsettles
  exact ⟨hsettles.earlier, hsettles.broken⟩

theorem exists_rule_of_passes_iff (h : ∀ k, c'.Passes k ↔ c.Passes k) {r : Rule}
    (hr : c.validate = .ok r) : ∃ r', c'.validate = .ok r' := by
  have hpasses := (passes_of_validate hr).1
  have hc : c = r.toCandidate := (passes_of_validate hr).2.symm
  cases hv : c'.validate with
  | ok r' => exact ⟨r', rfl⟩
  | error d =>
      have hbroken := (first_failed_of_validate hv).2
      exact absurd ((h d.check).mpr (hc ▸ hpasses d.check)) hbroken

/-- Of two candidates that satisfy the same conditions none fails an earlier
one. -/
theorem number_le_of_passes_iff (h : ∀ k, c'.Passes k ↔ c.Passes k)
    (hd : c.validate = .error d) (hd' : c'.validate = .error d') :
    d'.check.number ≤ d.check.number := by
  rw [← Nat.not_lt]
  intro hlt
  have hbefore := (first_failed_of_validate hd').1
  have hbroken := (first_failed_of_validate hd).2
  exact hbroken ((h d.check).mp (hbefore d.check hlt))

/-- **Neither order nor names matter.** A candidate in another order and under
other names is accepted exactly when the candidate is, and when both are turned
down it is for the condition with the same number. -/
theorem verdict_of_rearranges {f g : String → String} (h : Rearranges f g c c') :
    ((∃ r', c'.validate = .ok r') ↔ ∃ r, c.validate = .ok r) ∧
      ∀ d d', c.validate = .error d → c'.validate = .error d' →
        d'.check.number = d.check.number := by
  have hiff := h.passes_iff
  have hiff' : ∀ k, c.Passes k ↔ c'.Passes k := fun k => (hiff k).symm
  refine ⟨⟨fun ⟨r', hr'⟩ => ?_, fun ⟨r, hr⟩ => ?_⟩, fun d d' hd hd' => ?_⟩
  · exact exists_rule_of_passes_iff hiff' hr'
  · exact exists_rule_of_passes_iff hiff hr
  · exact Nat.le_antisymm (number_le_of_passes_iff hiff hd hd')
      (number_le_of_passes_iff hiff' hd' hd)

/-- The crossed gates from the back, with the names of a gate and of the
condition exchanged. -/
def turned : Candidate where
  targetObjects := ["person"]
  logic :=
    { nodes := [.content "g" "a person falls", .logic "h" .or, .logic "c" .and]
      edges := [⟨"e1", "h", "g"⟩, ⟨"e2", "h", "c"⟩, ⟨"e3", "c", "h"⟩]
      thresholdSeconds := -1 }
  alertMessage := "help"

theorem rearranges_turned :
    Rearranges (Equiv.swap "g" "c") (Equiv.swap "e1" "e3") crossed turned where
  targets := .refl _
  nodes := by decide
  edges := by decide
  threshold := rfl
  alert := rfl
  empty := by decide
  nodeNames := (Equiv.swap "g" "c").injective.injOn
  edgeNames := (Equiv.swap "e1" "e3").injective.injOn

/-- The search for a cycle starts at the condition here, and it is still the sixth
condition that fails. -/
theorem verdict_turned :
    Rearranges (Equiv.swap "g" "c") (Equiv.swap "e1" "e3") crossed turned ∧
      ∃ d, turned.validate = .error d ∧ d.check.number = 6 := by
  refine ⟨rearranges_turned, ?_⟩
  obtain ⟨hiff, hnumber⟩ := verdict_of_rearranges rearranges_turned
  cases hv : turned.validate with
  | ok r =>
      obtain ⟨r, hr⟩ := hiff.mp ⟨r, hv⟩
      rw [validate_crossed] at hr
      cases hr
  | error d => exact ⟨d, rfl, hnumber (.cycle "g") d validate_crossed hv⟩

end Candidate

end VisualRules
