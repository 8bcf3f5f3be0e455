import Std.Data.HashMap.Basic
import VisualRules.Rule.Basic

/-!
# Rule graphs by position

The searches work on positions instead of ids: a node is its place in the list of nodes, an edge a
pair of places. A table from ids to places resolves the ends of the edges.
-/

namespace VisualRules

/-- A directed graph on the numbers below its size: for each node the targets of its edges, in the
order of the edges and once per edge. -/
structure Digraph where
  targets : Array (List Nat)
deriving Repr

namespace Digraph

/-- The number of nodes. -/
def size (g : Digraph) : Nat :=
  g.targets.size

/-- The targets of a node's edges; a number that is no node has none. -/
def children (g : Digraph) (v : Nat) : List Nat :=
  g.targets.getD v []

/-- The number of edges. -/
def edgeCount (g : Digraph) : Nat :=
  g.targets.foldl (fun n ts => n + ts.length) 0

/-- Puts an edge in front of the edges of its source. -/
def addFirst (link : Nat × Nat) (targets : Array (List Nat)) : Array (List Nat) :=
  targets.modify link.1 (link.2 :: ·)

/-- The graph of a list of edges between the numbers below `size`. -/
def ofLinks (size : Nat) (links : List (Nat × Nat)) : Digraph :=
  ⟨links.foldr addFirst (Array.replicate size [])⟩

/-- Every edge also taken backwards. -/
def undirected (size : Nat) (links : List (Nat × Nat)) : Digraph :=
  ofLinks size (links.flatMap fun (s, t) => [(s, t), (t, s)])

end Digraph

namespace TriggerLogic

/-- Maps each id to the place of the node that carries it. -/
def places (nodes : List Node) : Std.HashMap String Nat :=
  (nodes.zipIdx).foldl (fun table (node, i) => table.insert node.id i) ∅

/-- The edges between known nodes, by place. -/
def links (nodes : List Node) (edges : List Edge) : List (Nat × Nat) :=
  let table := places nodes
  edges.filterMap fun e =>
    match table[e.source]?, table[e.target]? with
    | some s, some t => some (s, t)
    | _, _ => none

end TriggerLogic

end VisualRules
