import VisualRules.Json.Value
import VisualRules.Rule.Decoding
import VisualRules.Rule.Expression

/-!
# Writing candidates, rules and expressions

The JSON form of a candidate has every field, in the order in which the reader's tables list them.
A rule is written as its candidate.
-/

namespace VisualRules

open Json (Value)

/-- The name that stands for a value in a table of names. -/
def nameIn {α : Type} [DecidableEq α] (names : List (String × α)) (a : α) : String :=
  ((names.find? (·.2 = a)).map Prod.fst).getD ""

/-- The written name of a node type. -/
def NodeType.name (t : NodeType) : String :=
  nameIn NodeType.names t

/-- The written name of an operator. -/
def OperatorTag.name (t : OperatorTag) : String :=
  nameIn OperatorTag.names t

/-- The JSON form of a node. -/
def CandidateNode.toValue (n : CandidateNode) : Value :=
  .object
    [ ("id", .string n.id),
      ("type", .string n.type.name),
      ("data", .object [("logicType", .string n.operator.name), ("label", .string n.label)]) ]

/-- The JSON form of an edge. -/
def Edge.toValue (e : Edge) : Value :=
  .object [("id", .string e.id), ("source", .string e.source), ("target", .string e.target)]

/-- The JSON form of a graph. -/
def CandidateLogic.toValue (g : CandidateLogic) : Value :=
  .object
    [ ("nodes", .list (g.nodes.map CandidateNode.toValue)),
      ("edges", .list (g.edges.map Edge.toValue)),
      ("temporal_threshold_seconds", .integer g.thresholdSeconds.toInt) ]

/-- The JSON form of a candidate. -/
def Candidate.toValue (c : Candidate) : Value :=
  .object
    [ ("visual_detection", .object [("target_objects", .strings c.targetObjects)]),
      ("trigger_logic", c.logic.toValue),
      ("alert_message", .string c.alertMessage) ]

/-- The JSON form of a rule. -/
def Rule.toValue (r : Rule) : Value :=
  r.toCandidate.toValue

/-- The JSON form of a token. -/
def Token.toValue : Token → Value
  | .opening node => .object [("type", .string "open"), ("node_id", .string node)]
  | .closing node => .object [("type", .string "close"), ("node_id", .string node)]
  | .operator node op =>
    .object [("type", .string "operator"), ("node_id", .string node),
      ("operator", .string op.name)]
  | .condition node label =>
    .object [("type", .string "condition"), ("node_id", .string node), ("label", .string label)]
  | .reference node => .object [("type", .string "ref"), ("node_id", .string node)]

/-- The JSON form of an expression, with its text. -/
def Expression.toValue (e : Expression) : Value :=
  .object
    [ ("root_id", .string e.root),
      ("text", .string e.text),
      ("tokens", .list (e.tokens.map Token.toValue)) ]

end VisualRules
