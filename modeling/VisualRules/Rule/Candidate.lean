/-!
# Candidate rules

A candidate is a rule as a model or a client wrote it down: the objects to look for, a graph of
logic nodes and conditions, a duration and an alert. Nothing has been checked yet, so a node may
carry any mix of its three coupled fields and an edge may name nodes that do not exist.
-/

namespace VisualRules

/-- Whether a node combines others or states a condition. -/
inductive NodeType
  | logic
  | content
deriving DecidableEq, Repr, Inhabited

/-- The written operator of a node; conditions carry the empty one. -/
inductive OperatorTag
  | and
  | or
  | none
deriving DecidableEq, Repr, Inhabited

/-- A node as written. -/
structure CandidateNode where
  id : String
  type : NodeType
  operator : OperatorTag
  label : String
deriving DecidableEq, Repr, Inhabited

/-- An edge, from a logic node to one of its operands. -/
structure Edge where
  id : String
  source : String
  target : String
deriving DecidableEq, Repr, Inhabited

/-- The graph of a candidate, and the written number of seconds that a violation must last. -/
structure CandidateLogic where
  nodes : List CandidateNode
  edges : List Edge
  thresholdSeconds : Int64
deriving DecidableEq, Repr, Inhabited

/-- A rule as written. -/
structure Candidate where
  targetObjects : List String
  logic : CandidateLogic
  alertMessage : String
deriving DecidableEq, Repr, Inhabited

/-- A written logic node. -/
def CandidateNode.logic (id : String) (operator : OperatorTag) : CandidateNode :=
  ⟨id, .logic, operator, ""⟩

/-- A written condition. -/
def CandidateNode.content (id : String) (label : String) : CandidateNode :=
  ⟨id, .content, .none, label⟩

end VisualRules
