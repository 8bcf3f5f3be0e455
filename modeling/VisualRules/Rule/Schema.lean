import VisualRules.Json.Schema

/-!
# The schema of candidate rules

What the model is told to produce: the records that the reader accepts, with a word on each field.
-/

namespace VisualRules.RuleSchema

open Json (Schema SchemaDocument Value)

/-- A described text. -/
def text (description : String) : Schema :=
  .described description (.text none)

/-- The target objects. -/
def visualDetection : Schema :=
  .record
    [ ("target_objects", .described
        ("Objects the vision model must detect when evaluating the rule. Each entry is a\n" ++
          "detailed, precise and visually distinguishable natural-language description.")
        (.list (.text none))) ]
    ["target_objects"]

/-- The graph and the duration. -/
def triggerLogic : Schema :=
  .record
    [ ("nodes", .described "Nodes of the logic graph." (.list (.reference "CandidateNode"))),
      ("edges", .described "Edges of the logic graph, from a logic node to each of its operands."
        (.list (.reference "Edge"))),
      ("temporal_threshold_seconds", .described
        ("How many seconds a condition must persist to count as a violation. -1 when the\n" ++
          "monitoring intent states the duration explicitly (the duration then appears in\n" ++
          "the content node labels); otherwise a recommended threshold greater than 0.")
        .int64) ]
    ["nodes", "edges", "temporal_threshold_seconds"]

/-- A node. -/
def node : Schema :=
  .described "A node of the logic graph." <| .record
    [ ("id", text "Unique node id."),
      ("type", .described "'logic' for AND/OR combinators, 'content' for rule conditions."
        (.reference "NodeType")),
      ("data", .reference "CandidateNodeData") ]
    ["id", "type", "data"]

/-- The payload of a node. -/
def nodeData : Schema :=
  .described "Node payload." <| .record
    [ ("logicType", .described "'AND' or 'OR' only when type is 'logic', otherwise ''."
        (.reference "LogicTypeTag")),
      ("label", .described
        ("Rule condition, only meaningful when type is 'content' (otherwise ''). Its\n" ++
          "subject or object should appear in target_objects, it describes one concrete\n" ++
          "violation state and should be as atomic as possible.")
        (.text (some ""))) ]
    ["logicType"]

/-- An edge. -/
def edge : Schema :=
  .described "An edge of the logic graph." <| .record
    [ ("id", text "Unique edge id."),
      ("source", text "Source node id."),
      ("target", text "Target node id.") ]
    ["id", "source", "target"]

/-- The whole candidate. -/
def candidate : Schema :=
  .described "Complete structured rule as produced by the model." <| .record
    [ ("visual_detection", .described "Objects the downstream vision model must focus on."
        (.reference "CandidateVisualDetection")),
      ("trigger_logic", .described "Logic graph describing when the rule is violated."
        (.reference "CandidateTriggerLogic")),
      ("alert_message", text
        ("Alert and advice shown to the operator once the rule is violated. Must state\n" ++
          "clearly what to do next.")) ]
    ["visual_detection", "trigger_logic", "alert_message"]

/-- The schema of candidate rules with the definitions it refers to. -/
def document : SchemaDocument where
  title := "RuleCandidate"
  schema := candidate
  definitions :=
    [ ("CandidateVisualDetection", visualDetection),
      ("CandidateTriggerLogic", triggerLogic),
      ("CandidateNode", node),
      ("NodeType", .choice ["logic", "content"]),
      ("CandidateNodeData", nodeData),
      ("LogicTypeTag", .choice ["AND", "OR", ""]),
      ("Edge", edge) ]

/-- The name under which the model knows the schema. -/
def name : String :=
  "rule_output"

/-- The format that the model is asked to answer in. -/
def responseFormat : Value :=
  .object
    [ ("type", .string "json_schema"),
      ("json_schema", .object [("name", .string name), ("schema", document.toValue)]) ]

end VisualRules.RuleSchema
