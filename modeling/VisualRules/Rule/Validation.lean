import VisualRules.Rule.Defect
import VisualRules.Rule.Search
import VisualRules.Text.Blank

/-!
# Validation

A candidate is a rule when it passes eight numbered checks, which are made in order:

1. there are target objects and none is blank
2. node ids are non-empty and unique
3. logic nodes carry an operator and an empty label
4. conditions carry no operator and a label that is not blank
5. edge ids are unique and edges join nodes
6. the graph is a connected one without cycles, and its conditions are leaves
7. the duration is left to the conditions or a positive number of seconds
8. the alert is not blank

The first check that fails is the one reported.
-/

namespace VisualRules.Validation

/-! ## Targets and nodes -/

/-- Fails with a defect when a search has found a fault. -/
def unless? {α : Type} (found : Option α) (defect : α → Defect) : Except Defect Unit :=
  match found with
  | some a => .error (defect a)
  | none => .ok ()

/-- There are target objects and none is blank. -/
def checkTargets (objects : List String) : Except Defect Unit :=
  if objects.isEmpty then .error .noTargetObjects
  else unless? (objects.findIdx? Text.isBlank) .blankTargetObject

/-- The defect of the first node whose id is empty or has been seen before; `i` nodes stand in
front of the list. -/
def nodeIdDefect? (seen : Std.HashSet String) (i : Nat) : List CandidateNode → Option Defect
  | [] => none
  | node :: nodes =>
    if node.id.isEmpty then some (.emptyNodeId i)
    else if seen.contains node.id then some (.duplicateNodeId node.id)
    else nodeIdDefect? (seen.insert node.id) (i + 1) nodes

/-- Node ids are non-empty and unique. -/
def checkNodeIds (nodes : List CandidateNode) : Except Defect Unit :=
  unless? (nodeIdDefect? ∅ 0 nodes) id

/-- What is wrong with a node if it is a logic node. -/
def logicNodeDefect? (node : CandidateNode) : Option Defect :=
  match node.type with
  | .content => none
  | .logic =>
    if (Operator.ofTag? node.operator).isNone then some (.missingLogicOperator node.id)
    else if node.label.isEmpty then none
    else some (.labelOnLogicNode node.id)

/-- Logic nodes carry an operator and an empty label. -/
def checkLogicNodes (nodes : List CandidateNode) : Except Defect Unit :=
  unless? (nodes.findSome? logicNodeDefect?) id

/-- The checked form of a node. -/
def settleNode (node : CandidateNode) : Except Defect Node :=
  match node.type with
  | .logic =>
    match Operator.ofTag? node.operator with
    | some operator => .ok ⟨node.id, .logic operator⟩
    | none => .error (.missingLogicOperator node.id)
  | .content =>
    if node.operator ≠ .none then .error (.operatorOnContentNode node.id)
    else if Text.isBlank node.label then .error (.emptyContentLabel node.id)
    else .ok ⟨node.id, .content node.label⟩

/-! ## Edges -/

/-- The first text of a list that has been seen before. -/
def firstRepeated? (seen : Std.HashSet String) : List String → Option String
  | [] => none
  | s :: rest =>
    if seen.contains s then some s else firstRepeated? (seen.insert s) rest

/-- The places that an edge joins; its source is looked up first. -/
def resolve (table : Std.HashMap String Nat) (e : Edge) : Except Defect (Nat × Nat) :=
  match table[e.source]? with
  | none => .error (.danglingEdge e.id e.source)
  | some s =>
    match table[e.target]? with
    | none => .error (.danglingEdge e.id e.target)
    | some t => .ok (s, t)

/-- Edge ids are unique and edges join nodes; the edges by place. -/
def resolveEdges (nodes : List Node) (edges : List Edge) : Except Defect (List (Nat × Nat)) := do
  unless? (firstRepeated? ∅ (edges.map Edge.id)) .duplicateEdgeId
  edges.mapM (resolve (TriggerLogic.places nodes))

/-! ## Graph shape -/

/-- The defect of an edge that starts at a condition. -/
def leafDefect? (nodes : Array Node) (e : Edge) (source : Nat) : Option Defect :=
  match nodes[source]? with
  | some node => if node.isContent then some (.contentNodeHasChildren e.id node.id) else none
  | none => none

/-- The id of the node at a place. -/
def idAt (nodes : Array Node) (v : Nat) : String :=
  (nodes.getD v default).id

/-- The first condition that no edge points to. -/
def firstDetached? (nodes : List Node) (links : List (Nat × Nat)) : Option Node :=
  let pointedTo := links.foldl (fun a link => a.setIfInBounds link.2 true)
    (Array.replicate nodes.length false)
  (nodes.zipIdx.find? fun (node, i) => node.isContent && !pointedTo.getD i false).map Prod.fst

/-- The first node that no chain of edges, taken in either direction, joins to the first one. -/
def firstApart? (nodes : List Node) (links : List (Nat × Nat)) : Option Node :=
  let seen := (Digraph.undirected nodes.length links).joined 0
  (nodes.zipIdx.find? fun (_, i) => !seen.getD i false).map Prod.fst

/-- Every condition hangs on a logic node, and the graph is in one piece. A single node need not
hang on another. -/
def checkConnected (nodes : List Node) (links : List (Nat × Nat)) : Except Defect Unit := do
  if nodes.length ≤ 1 then return ()
  unless? (firstDetached? nodes links) fun node => .detachedCondition node.id
  unless? (firstApart? nodes links) fun node => .disconnectedNode node.id

/-- The graph has conditions, combines them if there are several, lets no edge start at one, has
no cycle and is connected. -/
def checkShape (nodes : List Node) (edges : List Edge) (links : List (Nat × Nat)) :
    Except Defect Unit := do
  let conditions := nodes.countP Node.isContent
  if conditions = 0 then throw .noConditions
  if 1 < conditions && !nodes.any Node.isLogic then throw (.missingLogicNode conditions)
  let table := nodes.toArray
  unless? ((edges.zip links).findSome? fun (e, link) => leafDefect? table e link.1) id
  unless? (Digraph.ofLinks nodes.length links).cycleNode? fun v => .cycle (idAt table v)
  checkConnected nodes links

/-! ## The whole rule -/

/-- The duration that a written number stands for. -/
def settleThreshold (value : Int64) : Except Defect Threshold :=
  match Threshold.ofSeconds? value with
  | some threshold => .ok threshold
  | none => .error (.invalidThreshold value)

/-- Makes the checks in order. -/
def validate (c : Candidate) : Except Defect Rule := do
  checkTargets c.targetObjects
  checkNodeIds c.logic.nodes
  checkLogicNodes c.logic.nodes
  let nodes ← c.logic.nodes.mapM settleNode
  let links ← resolveEdges nodes c.logic.edges
  checkShape nodes c.logic.edges links
  let threshold ← settleThreshold c.logic.thresholdSeconds
  if Text.isBlank c.alertMessage then throw .emptyAlertMessage
  return ⟨c.targetObjects, ⟨nodes, c.logic.edges, threshold⟩, c.alertMessage⟩

end VisualRules.Validation

namespace VisualRules

/-- The rule that a candidate is, or the first defect that keeps it from being one. -/
def Candidate.validate (c : Candidate) : Except Defect Rule :=
  Validation.validate c

end VisualRules
