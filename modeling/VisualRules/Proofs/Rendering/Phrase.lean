import Mathlib.Logic.Relation
import VisualRules.Proofs.Graph.Place
import VisualRules.Proofs.Validation.First
import VisualRules.Rule.Expression

/-!
# Phrases

What the tokens of a rule should be, said of nodes and edges without a machine
that writes them. A phrase stands for one node; the group of a logic node holds
a phrase for each of its live operands.
-/

namespace VisualRules

open Relation

namespace TriggerLogic

/-- A node is live when it is a condition or a chain of edges leads from it to
one. -/
def Live (g : TriggerLogic) (n : Node) : Prop :=
  ∃ m ∈ g.nodes, m.isContent = true ∧ ReflTransGen (Linked g.edges) n.id m.id

open Classical in
/-- The live operands of a node, in the order of its edges and one for each. -/
noncomputable def liveChildren (g : TriggerLogic) (n : Node) : List Node :=
  (g.children n.id).filter fun m => decide (g.Live m)

end TriggerLogic

/-! ## The grammar -/

/-- The tokens that stand for a node, given the operands of the nodes: the
label of a condition, a reference to a logic node, or a group in which a phrase
for each operand stands, with the operator in between. -/
inductive Phrase (operands : Node → List Node) : Node → List Token → Prop
  | condition {n : Node} {label : String} (kind : n.kind = .content label) :
      Phrase operands n [.condition n.id label]
  | reference {n : Node} {op : Operator} (kind : n.kind = .logic op) :
      Phrase operands n [.reference n.id]
  | group {n : Node} {op : Operator} {parts : List (List Token)}
      (kind : n.kind = .logic op) (nonempty : parts ≠ [])
      (length : parts.length = (operands n).length)
      (phrases : ∀ p ∈ (operands n).zip parts, Phrase operands p.1 p.2) :
      Phrase operands n
        (.opening n.id :: List.intercalate [.operator n.id op] parts ++ [.closing n.id])

/-- The token refers to a group that is not closed in the tokens before it. -/
def Token.Unresolved (before : List Token) (t : Token) : Prop :=
  ∃ v, t = .reference v ∧ .closing v ∉ before

theorem Phrase.ne_nil {operands : Node → List Node} {n : Node} {ts : List Token}
    (h : Phrase operands n ts) : ts ≠ [] := by
  cases h with
  | condition => exact List.cons_ne_nil _ _
  | reference => exact List.cons_ne_nil _ _
  | group => exact List.cons_ne_nil _ _

/-! ## The expressions of a graph -/

namespace TriggerLogic

/-- What the expression of a root should be: nothing when the root is not live,
and a phrase for it otherwise. -/
structure Expressed (g : TriggerLogic) (n : Node) (e : Expression) : Prop where
  root : e.root = n.id
  empty_iff : e.tokens = [] ↔ ¬ g.Live n
  phrase : g.Live n → Phrase g.liveChildren n e.tokens

/-- What the expressions of a graph should be together: one for each root, with
one group for each live logic node and for no other node, and with each
reference after the group that it refers to. -/
structure Linearised (g : TriggerLogic) (es : List Expression) : Prop where
  expressed : List.Forall₂ g.Expressed g.roots es
  opened_once : ∀ n ∈ g.nodes, n.isLogic = true → g.Live n →
    (es.flatMap Expression.tokens).count (.opening n.id) = 1
  opened_only : ∀ a, .opening a ∈ es.flatMap Expression.tokens →
    ∃ n ∈ g.nodes, n.id = a ∧ n.isLogic = true ∧ g.Live n
  resolved : ∀ before a after, es.flatMap Expression.tokens
    = before ++ .reference a :: after → .closing a ∈ before

end TriggerLogic

end VisualRules
