/-!
# Why a candidate is not a rule

The checks are numbered and made in their order; the first one that fails is reported with what it
found.
-/

namespace VisualRules

/-- The numbered checks. -/
inductive Check
  | targetObjects
  | uniqueNodeIds
  | logicNodeShape
  | contentNodeShape
  | edgeReferences
  | graphShape
  | temporalThreshold
  | alertMessage
deriving DecidableEq, Repr, Inhabited

namespace Check

/-- The position of a check, from one. -/
def number : Check → Nat
  | .targetObjects => 1
  | .uniqueNodeIds => 2
  | .logicNodeShape => 3
  | .contentNodeShape => 4
  | .edgeReferences => 5
  | .graphShape => 6
  | .temporalThreshold => 7
  | .alertMessage => 8

/-- The name of a check in messages. -/
def name : Check → String
  | .targetObjects => "target_objects"
  | .uniqueNodeIds => "unique_node_ids"
  | .logicNodeShape => "logic_node_shape"
  | .contentNodeShape => "content_node_shape"
  | .edgeReferences => "edge_references"
  | .graphShape => "graph_shape"
  | .temporalThreshold => "temporal_threshold"
  | .alertMessage => "alert_message"

/-- The number and the name of a check. -/
def text (c : Check) : String :=
  "rule " ++ toString c.number ++ " (" ++ c.name ++ ")"

end Check

/-- What a check found. -/
inductive Defect
  | noTargetObjects
  | blankTargetObject (index : Nat)
  | emptyNodeId (index : Nat)
  | duplicateNodeId (id : String)
  | missingLogicOperator (id : String)
  | labelOnLogicNode (id : String)
  | operatorOnContentNode (id : String)
  | emptyContentLabel (id : String)
  | duplicateEdgeId (id : String)
  | danglingEdge (edge : String) (node : String)
  | noConditions
  | missingLogicNode (conditions : Nat)
  | contentNodeHasChildren (edge : String) (node : String)
  | cycle (node : String)
  | detachedCondition (id : String)
  | disconnectedNode (id : String)
  | invalidThreshold (value : Int64)
  | emptyAlertMessage
deriving DecidableEq, Repr

namespace Defect

/-- The check that reports a defect. -/
def check : Defect → Check
  | .noTargetObjects | .blankTargetObject _ => .targetObjects
  | .emptyNodeId _ | .duplicateNodeId _ => .uniqueNodeIds
  | .missingLogicOperator _ | .labelOnLogicNode _ => .logicNodeShape
  | .operatorOnContentNode _ | .emptyContentLabel _ => .contentNodeShape
  | .duplicateEdgeId _ | .danglingEdge .. => .edgeReferences
  | .noConditions | .missingLogicNode _ | .contentNodeHasChildren .. | .cycle _
  | .detachedCondition _ | .disconnectedNode _ => .graphShape
  | .invalidThreshold _ => .temporalThreshold
  | .emptyAlertMessage => .alertMessage

/-- The id of the node or edge at fault, when there is one. -/
def subject? : Defect → Option String
  | .duplicateNodeId id | .missingLogicOperator id | .labelOnLogicNode id
  | .operatorOnContentNode id | .emptyContentLabel id | .duplicateEdgeId id
  | .detachedCondition id | .disconnectedNode id => some id
  | .danglingEdge edge _ | .contentNodeHasChildren edge _ => some edge
  | .cycle node => some node
  | .noTargetObjects | .blankTargetObject _ | .emptyNodeId _ | .noConditions
  | .missingLogicNode _ | .invalidThreshold _ | .emptyAlertMessage => none

/-- The text of a defect. -/
def message : Defect → String
  | .noTargetObjects => "visual_detection.target_objects must not be empty"
  | .blankTargetObject index => "target object at index " ++ toString index ++ " is blank"
  | .emptyNodeId index => "node at index " ++ toString index ++ " has an empty id"
  | .duplicateNodeId id => "node id '" ++ id ++ "' is used more than once"
  | .missingLogicOperator id => "logic node '" ++ id ++ "' must carry logicType AND or OR"
  | .labelOnLogicNode id => "logic node '" ++ id ++ "' must have an empty label"
  | .operatorOnContentNode id => "content node '" ++ id ++ "' must not carry a logicType"
  | .emptyContentLabel id => "content node '" ++ id ++ "' must have a non-empty label"
  | .duplicateEdgeId id => "edge id '" ++ id ++ "' is used more than once"
  | .danglingEdge edge node => "edge '" ++ edge ++ "' references unknown node '" ++ node ++ "'"
  | .noConditions => "trigger logic must contain at least one content node"
  | .missingLogicNode conditions =>
    toString conditions ++ " content nodes must be combined by at least one logic node"
  | .contentNodeHasChildren edge node =>
    "edge '" ++ edge ++ "' starts at content node '" ++ node ++ "'; content nodes are leaves"
  | .cycle node => "cycle detected through node '" ++ node ++ "'"
  | .detachedCondition id => "content node '" ++ id ++ "' is not attached to any logic node"
  | .disconnectedNode id => "node '" ++ id ++ "' is disconnected from the rest of the graph"
  | .invalidThreshold value =>
    "temporal_threshold_seconds must be -1 or a positive number of seconds, got " ++
      toString value.toInt
  | .emptyAlertMessage => "alert_message must not be empty"

end Defect

end VisualRules
