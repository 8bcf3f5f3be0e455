import VisualRules.Proofs.Graph.Place
import VisualRules.Rule.Validation

/-!
# What a rule must satisfy

The eight numbered conditions on a candidate, said of its lists and of chains
of its edges, and what the report of a defect says of the candidate. Nothing
here runs a check.
-/

namespace VisualRules

open Relation

/-! ## First faults and earlier conditions -/

/-- No entry of a list is at fault, given the entries before it. -/
def Free {α : Type} (fault : List α → α → Prop) (l : List α) : Prop :=
  ∀ before a after, l = before ++ a :: after → ¬ fault before a

/-- The entry `a`, which stands in the list right after `before`, is the first
one at fault. -/
structure First {α : Type} (fault : List α → α → Prop) (l before : List α) (a : α) :
    Prop where
  stands : ∃ after, l = before ++ a :: after
  faulty : fault before a
  free : Free fault before

/-- All that is numbered before `i` holds. -/
def HoldsBefore {ι : Type} (number : ι → Nat) (holds : ι → Prop) (i : ι) : Prop :=
  ∀ j, number j < number i → holds j

/-! ## Faults of single entries -/

namespace CandidateNode

/-- The id is empty or that of an earlier node. -/
def IdFault (before : List CandidateNode) (n : CandidateNode) : Prop :=
  n.id = "" ∨ n.id ∈ before.map CandidateNode.id

/-- A logic node without an operator or with a label. -/
def LogicFault (n : CandidateNode) : Prop :=
  n.type = .logic ∧ (n.operator = .none ∨ n.label ≠ "")

/-- A condition with an operator or with a blank label. -/
def ContentFault (n : CandidateNode) : Prop :=
  n.type = .content ∧ (n.operator ≠ .none ∨ Text.trim n.label = "")

end CandidateNode

namespace CandidateLogic

/-- The ids of the nodes, in node order. -/
def ids (g : CandidateLogic) : List String :=
  g.nodes.map CandidateNode.id

/-- An end of the edge is not the id of a node. -/
def Dangling (g : CandidateLogic) (e : Edge) : Prop :=
  e.source ∉ g.ids ∨ e.target ∉ g.ids

/-- The edge starts at a condition. -/
def FromContent (g : CandidateLogic) (e : Edge) : Prop :=
  ∃ n ∈ g.nodes, n.id = e.source ∧ n.type = .content

/-- The condition hangs on no edge. -/
def Detached (g : CandidateLogic) (n : CandidateNode) : Prop :=
  n.type = .content ∧ ∀ e ∈ g.edges, e.target ≠ n.id

/-- No chain of edges, taken in either direction, joins the node to the first. -/
def Apart (g : CandidateLogic) (n : CandidateNode) : Prop :=
  ∀ m, g.nodes.head? = some m → ¬ ReflTransGen (Joined g.edges) m.id n.id

end CandidateLogic

/-! ## The shape of the graph -/

/-- The clauses of the condition on the shape of the graph. -/
inductive ShapeClause
  | hasCondition
  | combined
  | leaves
  | acyclic
  | attached
  | connected
deriving DecidableEq

/-- The position of a clause. -/
def ShapeClause.number : ShapeClause → Nat
  | .hasCondition => 1
  | .combined => 2
  | .leaves => 3
  | .acyclic => 4
  | .attached => 5
  | .connected => 6

/-- What a clause asks of the graph. -/
def CandidateLogic.Meets (g : CandidateLogic) : ShapeClause → Prop
  | .hasCondition => ∃ n ∈ g.nodes, n.type = .content
  | .combined => (∀ n ∈ g.nodes, n.type ≠ .logic) →
      g.nodes.countP (·.type = .content) = 1
  | .leaves => ∀ e ∈ g.edges, ¬ g.FromContent e
  | .acyclic => ∀ a, ¬ TransGen (Linked g.edges) a a
  | .attached => 1 < g.nodes.length → ∀ n ∈ g.nodes, n.type = .content →
      ∃ e ∈ g.edges, e.target = n.id
  | .connected => 1 < g.nodes.length → ∀ m ∈ g.nodes, ∀ n ∈ g.nodes,
      ReflTransGen (Joined g.edges) m.id n.id

/-- The graph meets every clause before one. -/
def CandidateLogic.MeetsBefore (g : CandidateLogic) : ShapeClause → Prop :=
  HoldsBefore ShapeClause.number g.Meets

/-! ## The eight conditions -/

/-- The written number of seconds that leaves the duration to the conditions,
or a positive one that fits 32 bits. -/
def DurationWritten (value : Int64) : Prop :=
  value.toInt = -1 ∨ (1 ≤ value.toInt ∧ value.toInt ≤ 4294967295)

namespace Candidate

/-- What each numbered check asks of a candidate. -/
def Passes (c : Candidate) : Check → Prop
  | .targetObjects => c.targetObjects ≠ [] ∧ ∀ t ∈ c.targetObjects, Text.trim t ≠ ""
  | .uniqueNodeIds => (∀ n ∈ c.logic.nodes, n.id ≠ "") ∧ c.logic.ids.Nodup
  | .logicNodeShape => ∀ n ∈ c.logic.nodes, n.type = .logic →
      n.operator ≠ .none ∧ n.label = ""
  | .contentNodeShape => ∀ n ∈ c.logic.nodes, n.type = .content →
      n.operator = .none ∧ Text.trim n.label ≠ ""
  | .edgeReferences => (c.logic.edges.map Edge.id).Nodup ∧
      ∀ e ∈ c.logic.edges, e.source ∈ c.logic.ids ∧ e.target ∈ c.logic.ids
  | .graphShape => ∀ clause, c.logic.Meets clause
  | .temporalThreshold => DurationWritten c.logic.thresholdSeconds
  | .alertMessage => Text.trim c.alertMessage ≠ ""

/-- The candidate passes every check before one. -/
def PassesBefore (c : Candidate) : Check → Prop :=
  HoldsBefore Check.number c.Passes

/-! ## What a defect says -/

/-- What the report of a defect says of the candidate: what it names is the
first fault of its kind, and a node named for a cycle lies on one. -/
def Shows (c : Candidate) : Defect → Prop
  | .noTargetObjects => c.targetObjects = []
  | .blankTargetObject index => ∃ before t,
      First (fun _ t => Text.trim t = "") c.targetObjects before t ∧ before.length = index
  | .emptyNodeId index => ∃ before n,
      First CandidateNode.IdFault c.logic.nodes before n ∧ before.length = index ∧ n.id = ""
  | .duplicateNodeId id => ∃ before n,
      First CandidateNode.IdFault c.logic.nodes before n ∧ n.id = id ∧ id ≠ ""
  | .missingLogicOperator id => ∃ before n,
      First (fun _ => CandidateNode.LogicFault) c.logic.nodes before n ∧ n.id = id ∧
        n.operator = .none
  | .labelOnLogicNode id => ∃ before n,
      First (fun _ => CandidateNode.LogicFault) c.logic.nodes before n ∧ n.id = id ∧
        n.operator ≠ .none
  | .operatorOnContentNode id => ∃ before n,
      First (fun _ => CandidateNode.ContentFault) c.logic.nodes before n ∧ n.id = id ∧
        n.operator ≠ .none
  | .emptyContentLabel id => ∃ before n,
      First (fun _ => CandidateNode.ContentFault) c.logic.nodes before n ∧ n.id = id ∧
        n.operator = .none
  | .duplicateEdgeId id => ∃ before e,
      First (fun before e => e.id ∈ before.map Edge.id) c.logic.edges before e ∧ e.id = id
  | .danglingEdge edge node => (c.logic.edges.map Edge.id).Nodup ∧ ∃ before e,
      First (fun _ => c.logic.Dangling) c.logic.edges before e ∧ e.id = edge ∧
        node ∉ c.logic.ids ∧
        (node = e.source ∨ (e.source ∈ c.logic.ids ∧ node = e.target))
  | .noConditions => ∀ n ∈ c.logic.nodes, n.type ≠ .content
  | .missingLogicNode conditions => (∀ n ∈ c.logic.nodes, n.type ≠ .logic) ∧
      1 < conditions ∧ c.logic.nodes.countP (·.type = .content) = conditions
  | .contentNodeHasChildren edge node => ∃ before e,
      First (fun _ => c.logic.FromContent) c.logic.edges before e ∧ e.id = edge ∧
        e.source = node
  | .cycle node => node ∈ c.logic.ids ∧ TransGen (Linked c.logic.edges) node node
  | .detachedCondition id => 1 < c.logic.nodes.length ∧ ∃ before n,
      First (fun _ => c.logic.Detached) c.logic.nodes before n ∧ n.id = id
  | .disconnectedNode id => 1 < c.logic.nodes.length ∧ ∃ before n,
      First (fun _ => c.logic.Apart) c.logic.nodes before n ∧ n.id = id
  | .invalidThreshold value => c.logic.thresholdSeconds = value ∧ ¬ DurationWritten value
  | .emptyAlertMessage => Text.trim c.alertMessage = ""

end Candidate

/-- The clause that a defect in the shape of the graph breaks. -/
def Defect.clause? : Defect → Option ShapeClause
  | .noConditions => some .hasCondition
  | .missingLogicNode _ => some .combined
  | .contentNodeHasChildren .. => some .leaves
  | .cycle _ => some .acyclic
  | .detachedCondition _ => some .attached
  | .disconnectedNode _ => some .connected
  | _ => none

/-- A defect is reported truly: all checks and clauses before the one that it
belongs to are passed, that one is not, and what it names is at fault. -/
structure Candidate.Rejected (c : Candidate) (d : Defect) : Prop where
  earlier : c.PassesBefore d.check
  broken : ¬ c.Passes d.check
  clause : ∀ clause, d.clause? = some clause →
    ¬ c.logic.Meets clause ∧ c.logic.MeetsBefore clause
  shows : c.Shows d

end VisualRules
