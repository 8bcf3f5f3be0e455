import Std.Data.HashSet.Basic
import VisualRules.Rule.Candidate

/-!
# Rules

A rule is a checked candidate. A node is either a combination of its operands or a condition, and
the duration is either a positive number of seconds or left to the conditions. Going back to the
written form drops nothing.
-/

namespace VisualRules

/-- How a logic node combines its operands. -/
inductive Operator
  | and
  | or
deriving DecidableEq, Repr, Inhabited

namespace Operator

/-- The operator that a tag stands for, if it stands for one. -/
def ofTag? : OperatorTag → Option Operator
  | .and => some .and
  | .or => some .or
  | .none => none

/-- The tag of an operator. -/
def tag : Operator → OperatorTag
  | .and => .and
  | .or => .or

/-- The written word of an operator. -/
def name : Operator → String
  | .and => "AND"
  | .or => "OR"

@[simp] theorem ofTag?_tag (o : Operator) : ofTag? o.tag = some o := by
  cases o <;> rfl

theorem ofTag?_eq_some_iff {t : OperatorTag} {o : Operator} : ofTag? t = some o ↔ t = o.tag := by
  cases t <;> cases o <;> decide

end Operator

/-- What a node is: a combination of its operands, or a condition on what is seen. -/
inductive NodeKind
  | logic (operator : Operator)
  | content (label : String)
deriving DecidableEq, Repr, Inhabited

/-- A checked node. -/
structure Node where
  id : String
  kind : NodeKind
deriving DecidableEq, Repr, Inhabited

namespace Node

/-- Whether the node combines others. -/
def isLogic (n : Node) : Bool :=
  match n.kind with
  | .logic _ => true
  | .content _ => false

/-- Whether the node is a condition. -/
def isContent (n : Node) : Bool :=
  match n.kind with
  | .logic _ => false
  | .content _ => true

/-- The text of a condition. -/
def label? (n : Node) : Option String :=
  match n.kind with
  | .logic _ => none
  | .content label => some label

/-- The operator of a logic node. -/
def operator? (n : Node) : Option Operator :=
  match n.kind with
  | .logic operator => some operator
  | .content _ => none

/-- The written form of a node. -/
def toCandidate (n : Node) : CandidateNode :=
  match n.kind with
  | .logic operator => .logic n.id operator.tag
  | .content label => .content n.id label

theorem isLogic_eq_not_isContent (n : Node) : n.isLogic = !n.isContent := by
  unfold isLogic isContent
  cases n.kind <;> rfl

end Node

/-! ## Durations -/

/-- How long a condition must last before it counts as a violation. -/
inductive Threshold
  /-- The conditions state the duration themselves. -/
  | inConditions
  /-- A positive number of seconds below 2^32. -/
  | seconds (count : Nat) (positive : 0 < count) (bounded : count < UInt32.size)
deriving DecidableEq, Repr

instance : Inhabited Threshold := ⟨.inConditions⟩

namespace Threshold

/-- The written number that leaves the duration to the conditions. -/
def unstated : Int64 := -1

/-- The duration that a written number stands for, if it stands for one. -/
def ofSeconds? (value : Int64) : Option Threshold :=
  if value = unstated then some .inConditions
  else
    let count := value.toInt.toNat
    if h : 0 < count ∧ count < UInt32.size then some (.seconds count h.1 h.2) else none

/-- The written number of a duration. -/
def toSeconds : Threshold → Int64
  | .inConditions => unstated
  | .seconds count _ _ => Int64.ofNat count

end Threshold

/-! ## Graphs and rules -/

/-- The graph of a rule and its duration. -/
structure TriggerLogic where
  nodes : List Node
  edges : List Edge
  threshold : Threshold
deriving DecidableEq, Repr, Inhabited

namespace TriggerLogic

/-- The first node with an id. -/
def node? (g : TriggerLogic) (id : String) : Option Node :=
  g.nodes.find? (·.id == id)

/-- The operands of a node: the target of each of its edges, in the order of the edges. -/
def children (g : TriggerLogic) (id : String) : List Node :=
  (g.edges.filter (·.source == id)).filterMap fun e => g.node? e.target

/-- The nodes that no edge points to, in node order. -/
def roots (g : TriggerLogic) : List Node :=
  let targets := Std.HashSet.ofList (g.edges.map Edge.target)
  g.nodes.filter fun n => !targets.contains n.id

/-- The conditions, in node order. -/
def contentNodes (g : TriggerLogic) : List Node :=
  g.nodes.filter Node.isContent

/-- The logic nodes, in node order. -/
def logicNodes (g : TriggerLogic) : List Node :=
  g.nodes.filter Node.isLogic

end TriggerLogic

/-- A rule that passed every check. -/
structure Rule where
  targetObjects : List String
  logic : TriggerLogic
  alertMessage : String
deriving DecidableEq, Repr, Inhabited

/-- The written form of a rule. -/
def Rule.toCandidate (r : Rule) : Candidate where
  targetObjects := r.targetObjects
  logic :=
    { nodes := r.logic.nodes.map Node.toCandidate
      edges := r.logic.edges
      thresholdSeconds := r.logic.threshold.toSeconds }
  alertMessage := r.alertMessage

end VisualRules
