import VisualRules.Rule.Search

/-!
# Expressions

Each root of a rule's graph is written as one line of tokens: a condition by its label, a logic
node as a group with its operator between the operands. A logic node met again is not written out
a second time but referred to, also in a later line, so that the lines grow with the graph and not
with the number of paths through it. Nodes from which no condition can be reached are left out.
-/

namespace VisualRules

/-- A mark of an expression. -/
inductive Token
  | opening (node : String)
  | closing (node : String)
  | operator (node : String) (operator : Operator)
  | condition (node : String) (label : String)
  /-- A logic node that has been written out before. -/
  | reference (node : String)
deriving DecidableEq, Repr, Inhabited

/-- How a token is shown. -/
def Token.text : Token → String
  | .opening _ => "("
  | .closing _ => ")"
  | .operator _ op => " " ++ op.name ++ " "
  | .condition _ label => label
  | .reference node => "[" ++ node ++ "]"

/-- The tokens of one root. -/
structure Expression where
  root : String
  tokens : List Token
deriving DecidableEq, Repr, Inhabited

/-- How an expression is shown. -/
def Expression.text (e : Expression) : String :=
  e.tokens.foldl (fun out t => out ++ t.text) ""

/-! ## Writing out a graph -/

/-- The graph to be written out: its nodes, the operands that are written of each, and which
nodes have tokens at all. -/
structure Outline where
  nodes : Array Node
  operands : Digraph
  live : Array Bool

namespace Outline

/-- The outline of a graph given by the places its edges join. -/
def ofLinks (nodes : List Node) (links : List (Nat × Nat)) : Outline :=
  let table := nodes.toArray
  let graph := Digraph.ofLinks nodes.length links
  let isContent := fun v => (table.getD v default).isContent
  let live := (graph.reaching isContent).map (· == some true)
  { nodes := table
    operands := ⟨graph.targets.map (·.filter fun w => live.getD w false)⟩
    live := live }

/-- A pending piece of an expression: a node, or a token that is already known. -/
inductive Task
  | visit (v : Nat)
  | write (t : Token)
deriving DecidableEq, Repr

/-- The operands of a group with the operator in between. -/
def operandTasks (id : String) (operator : Operator) : List Nat → List Task
  | [] => []
  | [v] => [.visit v]
  | v :: vs => .visit v :: .write (.operator id operator) :: operandTasks id operator vs

/-- The state of the writing: which logic nodes have been written out, the tokens so far in
reverse order, and the pending pieces. -/
structure Writing where
  expanded : Array Bool
  tokens : List Token
  tasks : List Task

/-- Takes the next pending piece. -/
def step (o : Outline) (s : Writing) : Writing :=
  match s.tasks with
  | [] => s
  | .write t :: tasks => ⟨s.expanded, t :: s.tokens, tasks⟩
  | .visit v :: tasks =>
    let node := o.nodes.getD v default
    match node.kind with
    | .content label => ⟨s.expanded, .condition node.id label :: s.tokens, tasks⟩
    | .logic operator =>
      if s.expanded.getD v false then ⟨s.expanded, .reference node.id :: s.tokens, tasks⟩
      else
        ⟨s.expanded.setIfInBounds v true, .opening node.id :: s.tokens,
          operandTasks node.id operator (o.operands.children v) ++
            .write (.closing node.id) :: tasks⟩

/-- Steps until nothing is pending. -/
def run (o : Outline) : Nat → Writing → Writing
  | 0, s => s
  | n + 1, s =>
    match s.tasks with
    | [] => s
    | _ :: _ => run o n (o.step s)

/-- The number of pieces that writing every node once can make. -/
def taskBound (o : Outline) : Nat :=
  2 * (o.operands.size + o.operands.edgeCount) + 1

/-- Writes out a root; nothing is written of a root that is not live. -/
def writeRoot (o : Outline) (bound : Nat) (expanded : Array Bool) (v : Nat) :
    Array Bool × List Token :=
  if o.live.getD v false then
    let s := o.run bound ⟨expanded, [], [.visit v]⟩
    (s.expanded, s.tokens.reverse)
  else (expanded, [])

/-- Writes out several roots, one after the other. -/
def writeRoots (o : Outline) (bound : Nat) : Array Bool → List Nat → List Expression
  | _, [] => []
  | expanded, v :: vs =>
    let (expanded, tokens) := o.writeRoot bound expanded v
    ⟨(o.nodes.getD v default).id, tokens⟩ :: writeRoots o bound expanded vs

end Outline

/-- The places that no edge points to, in order. -/
def rootPlaces (size : Nat) (links : List (Nat × Nat)) : List Nat :=
  let pointedTo := links.foldl (fun a link => a.setIfInBounds link.2 true)
    (Array.replicate size false)
  (List.range size).filter fun v => !pointedTo.getD v false

/-- The expression of each root, in node order. -/
def TriggerLogic.expressions (g : TriggerLogic) : List Expression :=
  let links := TriggerLogic.links g.nodes g.edges
  let o := Outline.ofLinks g.nodes links
  o.writeRoots o.taskBound (Array.replicate g.nodes.length false)
    (rootPlaces g.nodes.length links)

/-- The expression of each root, in node order. -/
def Rule.expressions (r : Rule) : List Expression :=
  r.logic.expressions

end VisualRules
