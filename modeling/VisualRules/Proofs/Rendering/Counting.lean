import Mathlib.Tactic.Ring
import VisualRules.Proofs.Rendering.Roots

/-!
# Counting tokens

A quantity that adds up over tokens is counted through the grammar of phrases. A
phrase weighs what its node weighs, and what is gained for each group that is
opened in it. Each live logic node has one group in all expressions together, so
that a whole rendering is weighed by its live roots and its live logic nodes,
however the operands are shared.
-/

namespace VisualRules

/-! ## Sums over lists -/

theorem countP_eq_sum {α : Type} (p : α → Bool) (l : List α) :
    l.countP p = (l.map fun a => if p a then 1 else 0).sum := by
  induction l with
  | nil => rfl
  | cons a l ih => rw [List.countP_cons, List.map_cons, List.sum_cons, ih, Nat.add_comm]

/-- Entries that are counted for each of several keys apart are counted once. -/
theorem sum_countP_of_nodup {κ α : Type} [DecidableEq κ] {keys : List κ} (hkeys : keys.Nodup)
    (key : α → κ) (p : α → Bool) {l : List α} (hl : ∀ a ∈ l, p a = true → key a ∈ keys) :
    (keys.map fun k => l.countP fun a => key a == k && p a).sum = l.countP p := by
  induction l with
  | nil => simp
  | cons a l ih =>
      have hrest := ih fun b hb => hl b (List.mem_cons_of_mem a hb)
      have hone : (keys.map fun k => if (key a == k && p a) = true then 1 else 0).sum
          = if p a = true then 1 else 0 := by
        cases hp : p a with
        | false => simp
        | true =>
            have hcount := List.count_eq_one_of_mem hkeys (hl a (by simp) hp)
            rw [List.count, countP_eq_sum] at hcount
            simp only [Bool.and_true, if_true, BEq.comm (a := key a)]
            exact hcount
      simp only [List.countP_cons, List.sum_map_add, hrest, hone]

/-! ## Weights -/

/-- The id of the group that a token opens. -/
def Token.opened? : Token → Option String
  | .opening a => some a
  | _ => none

/-- What a token counts for when a group counts for something as it is opened. -/
def Token.gained (gain : String → Nat) (t : Token) : Nat :=
  (t.opened?.map gain).getD 0

theorem sum_gained (gain : String → Nat) (ts : List Token) :
    (ts.map (Token.gained gain)).sum = ((ts.filterMap Token.opened?).map gain).sum := by
  induction ts with
  | nil => rfl
  | cons t ts ih =>
      rw [List.map_cons, List.sum_cons, ih]
      cases t <;> simp [Token.gained, Token.opened?, List.filterMap_cons]

theorem sum_intercalate (w : Token → Nat) (t : Token) (parts : List (List Token)) :
    ((List.intercalate [t] parts).map w).sum
      = (parts.map fun ts => (ts.map w).sum).sum + (parts.length - 1) * w t := by
  induction parts with
  | nil => simp [List.intercalate]
  | cons ts parts ih =>
      by_cases hnil : parts = []
      · simp [hnil]
      · obtain ⟨k, hk⟩ := Nat.exists_eq_add_of_lt (List.length_pos_iff.mpr hnil)
        rw [List.intercalate_cons_of_ne_nil hnil, List.map_append, List.map_append,
          List.sum_append, List.sum_append, ih, List.map_cons, List.sum_cons,
          List.length_cons, hk]
        simp only [List.map_cons, List.map_nil, List.sum_cons, List.sum_nil,
          Nat.add_sub_cancel]
        ring

namespace TriggerLogic

/-- A weighing of tokens that agrees with the grammar: the marks of a group
weigh, together with its operands, as much as the node and what its group is
worth. -/
structure Weighs (g : TriggerLogic) (weight : Token → Nat) (own : Node → Nat)
    (gain : String → Nat) : Prop where
  condition : ∀ n ∈ g.nodes, ∀ label, n.kind = .content label →
    weight (.condition n.id label) = own n
  reference : ∀ n ∈ g.nodes, ∀ op, n.kind = .logic op → weight (.reference n.id) = own n
  group : ∀ n ∈ g.nodes, ∀ op, n.kind = .logic op → g.liveChildren n ≠ [] →
    weight (.opening n.id) + weight (.closing n.id)
        + ((g.liveChildren n).length - 1) * weight (.operator n.id op)
        + ((g.liveChildren n).map own).sum
      = own n + gain n.id

variable {g : TriggerLogic} {weight : Token → Nat} {own : Node → Nat} {gain : String → Nat}

theorem mem_of_mem_liveChildren {n m : Node} (hm : m ∈ g.liveChildren n) : m ∈ g.nodes :=
  mem_of_mem_children (List.mem_of_mem_filter hm)

/-- Phrases for several nodes weigh what the nodes weigh, and what they gain. -/
theorem sum_phrases {ns : List Node} {parts : List (List Token)}
    (h : List.Forall₂ (fun n ts => (ts.map weight).sum
      = own n + (ts.map (Token.gained gain)).sum) ns parts) :
    (parts.map fun ts => (ts.map weight).sum).sum
      = (ns.map own).sum + (parts.map fun ts => (ts.map (Token.gained gain)).sum).sum := by
  induction h with
  | nil => rfl
  | cons hfirst _ ih =>
      rw [List.map_cons, List.map_cons, List.map_cons, List.sum_cons, List.sum_cons,
        List.sum_cons, hfirst, ih]
      omega

/-- **The weight of a phrase.** -/
theorem Weighs.phrase (h : g.Weighs weight own gain) {n : Node} {ts : List Token}
    (hphrase : Phrase g.liveChildren n ts) (hn : n ∈ g.nodes) :
    (ts.map weight).sum = own n + (ts.map (Token.gained gain)).sum := by
  induction hphrase with
  | @condition n label kind =>
      simpa [Token.gained, Token.opened?] using h.condition n hn label kind
  | @reference n op kind =>
      simpa [Token.gained, Token.opened?] using h.reference n hn op kind
  | @group n op parts kind nonempty length phrases ih =>
      have hparts := sum_phrases (List.forall₂_iff_zip.mpr ⟨length.symm, fun {m ts} hp =>
        ih (m, ts) hp (mem_of_mem_liveChildren (List.of_mem_zip hp).1)⟩)
      have hoperands : g.liveChildren n ≠ [] := by
        rw [← List.length_pos_iff, ← length]
        exact List.length_pos_iff.mpr nonempty
      have hgroup := h.group n hn op kind hoperands
      rw [← length] at hgroup
      simp only [List.cons_append, List.map_cons, List.map_append, List.map_nil,
        List.sum_cons, List.sum_append, List.sum_nil, sum_intercalate, hparts,
        Token.gained, Token.opened?, Option.map_some, Option.map_none, Option.getD_some,
        Option.getD_none]
      omega

/-! ## Operands -/

/-- The id is that of a condition, or a chain of edges leads from it to one. -/
def LiveId (g : TriggerLogic) (a : String) : Prop :=
  ∃ m ∈ g.nodes, m.isContent = true ∧ Relation.ReflTransGen (Linked g.edges) a m.id

open Classical in
/-- The live operands of a node are counted along its edges. -/
theorem WellFormed.countP_liveChildren (h : g.WellFormed) (n : Node) (p : String → Bool) :
    (g.liveChildren n).countP (fun m => p m.id)
      = g.edges.countP fun e => e.source == n.id && (p e.target && decide (g.LiveId e.target)) := by
  rw [liveChildren, children, List.countP_filter, List.countP_filterMap, List.countP_filter]
  refine List.countP_congr fun e he => ?_
  obtain ⟨m, hm, hid⟩ := WellFormed.exists_node (h.ends e he).2
  have hnode : g.node? e.target = some m := h.node?_eq_some_iff.mpr ⟨hm, hid⟩
  have hlive : g.Live m ↔ g.LiveId e.target := hid ▸ Iff.rfl
  simp only [hnode, Option.map_some, Option.getD_some, hid, hlive, Bool.and_comm]

/-! ## Groups -/

open Classical in
/-- The roots of which tokens are written. -/
noncomputable def liveRoots (g : TriggerLogic) : List Node :=
  g.roots.filter fun n => decide (g.Live n)

open Classical in
/-- The logic nodes of which tokens are written. -/
noncomputable def liveLogicNodes (g : TriggerLogic) : List Node :=
  g.logicNodes.filter fun n => decide (g.Live n)

theorem mem_liveLogicNodes {n : Node} :
    n ∈ g.liveLogicNodes ↔ n ∈ g.nodes ∧ n.isLogic = true ∧ g.Live n := by
  classical
  rw [liveLogicNodes, List.mem_filter, logicNodes, List.mem_filter, and_assoc, decide_eq_true_eq]

/-- An edge to a live node starts at a live logic node. -/
theorem WellFormed.source_mem_liveLogicNodes (h : g.WellFormed) {e : Edge} (he : e ∈ g.edges)
    (hlive : g.LiveId e.target) : e.source ∈ g.liveLogicNodes.map Node.id := by
  obtain ⟨n, hn, hid⟩ := WellFormed.exists_node (h.ends e he).1
  obtain ⟨m, hm, hcontent, hpath⟩ := hlive
  have hlinked : Linked g.edges n.id e.target := ⟨e, he, hid.symm, rfl⟩
  have hmem := mem_liveLogicNodes.mpr
    ⟨hn, h.leaves e he n hn hid, m, hm, hcontent, hpath.head hlinked⟩
  exact List.mem_map.mpr ⟨n, hmem, hid⟩

theorem WellFormed.nodup_liveLogicNodes (h : g.WellFormed) :
    (g.liveLogicNodes.map Node.id).Nodup := by
  refine List.Nodup.sublist (List.Sublist.map _ ?_) h.nodup
  exact List.filter_sublist.trans List.filter_sublist

theorem count_opened (a : String) (ts : List Token) :
    (ts.filterMap Token.opened?).count a = ts.count (.opening a) := by
  induction ts with
  | nil => rfl
  | cons t ts ih =>
      rw [List.count_cons, ← ih]
      cases t <;> simp [Token.opened?, List.count_cons, List.filterMap_cons]

/-- A group is written for each live logic node and for no other node. -/
theorem Linearised.opening_mem_iff {es : List Expression} (h : g.Linearised es) (a : String) :
    .opening a ∈ es.flatMap Expression.tokens ↔ a ∈ g.liveLogicNodes.map Node.id := by
  rw [List.mem_map]
  constructor
  · intro ha
    obtain ⟨n, hn, hid, hlogic, hlive⟩ := h.opened_only a ha
    exact ⟨n, mem_liveLogicNodes.mpr ⟨hn, hlogic, hlive⟩, hid⟩
  · rintro ⟨n, hn, rfl⟩
    obtain ⟨hmem, hlogic, hlive⟩ := mem_liveLogicNodes.mp hn
    have hcount := h.opened_once n hmem hlogic hlive
    exact List.count_pos_iff.mp (by omega)

theorem Linearised.count_opening_le {es : List Expression} (h : g.Linearised es) (a : String) :
    (es.flatMap Expression.tokens).count (.opening a) ≤ 1 := by
  by_cases ha : .opening a ∈ es.flatMap Expression.tokens
  · obtain ⟨n, hn, rfl, hlogic, hlive⟩ := h.opened_only a ha
    exact Nat.le_of_eq (h.opened_once n hn hlogic hlive)
  · rw [List.count_eq_zero_of_not_mem ha]
    exact Nat.zero_le 1

/-- The groups of a rendering are those of the live logic nodes. -/
theorem Linearised.perm_opened {es : List Expression} (h : g.Linearised es)
    (hg : g.WellFormed) :
    ((es.flatMap Expression.tokens).filterMap Token.opened?).Perm
      (g.liveLogicNodes.map Node.id) := by
  have hnodup : ((es.flatMap Expression.tokens).filterMap Token.opened?).Nodup := by
    apply List.nodup_iff_count_le_one.mpr
    intro a
    rw [count_opened]
    exact h.count_opening_le a
  apply (List.perm_ext_iff_of_nodup hnodup hg.nodup_liveLogicNodes).mpr
  intro a
  rw [← List.count_pos_iff, count_opened, List.count_pos_iff]
  exact h.opening_mem_iff a

/-! ## Whole renderings -/

open Classical in
theorem sum_roots (h : g.Weighs weight own gain) {ns : List Node} {es : List Expression}
    (hns : ∀ n ∈ ns, n ∈ g.nodes) (hes : List.Forall₂ g.Expressed ns es) :
    ((es.flatMap Expression.tokens).map weight).sum
      = ((ns.filter fun n => decide (g.Live n)).map own).sum
        + ((es.flatMap Expression.tokens).map (Token.gained gain)).sum := by
  induction hes with
  | nil => rfl
  | @cons n e ns es he _ ih =>
      have hrest := ih fun m hm => hns m (List.mem_cons_of_mem n hm)
      simp only [List.flatMap_cons, List.map_append, List.sum_append, hrest]
      by_cases hlive : g.Live n
      · rw [List.filter_cons_of_pos (by simpa using hlive), List.map_cons, List.sum_cons,
          h.phrase (he.phrase hlive) (hns n (by simp))]
        omega
      · rw [List.filter_cons_of_neg (by simpa using hlive), he.empty_iff.mpr hlive]
        simp

/-- **The weight of all expressions together.** -/
theorem Linearised.sum_weight {es : List Expression} (hes : g.Linearised es) (hg : g.WellFormed)
    (h : g.Weighs weight own gain) :
    ((es.flatMap Expression.tokens).map weight).sum
      = (g.liveRoots.map own).sum + (g.liveLogicNodes.map fun n => gain n.id).sum := by
  have hroots : ∀ n ∈ g.roots, n ∈ g.nodes := fun n hn => (WellFormed.mem_roots.mp hn).1
  have hgroups := (hes.perm_opened hg).map gain
  rw [sum_roots h hroots hes.expressed, sum_gained, hgroups.sum_eq, List.map_map]
  rfl

end TriggerLogic

end VisualRules
