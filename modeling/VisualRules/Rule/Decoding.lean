import VisualRules.Json.Record
import VisualRules.Rule.Validation

/-!
# Reading candidates and rules

The tables of the records that make up a candidate. A rule is read by reading a candidate and
validating it.
-/

namespace VisualRules

open Json (Field Record Reader Refusal)

/-- The written names of the node types. -/
def NodeType.names : List (String × NodeType) :=
  [("logic", .logic), ("content", .content)]

/-- The written names of the operators; a condition has the empty one. -/
def OperatorTag.names : List (String × OperatorTag) :=
  [("AND", .and), ("OR", .or), ("", .none)]

/-! ## Nodes -/

/-- What has been read of a node's payload. -/
structure PayloadDraft where
  operator : Option OperatorTag := none
  label : Option String := none

/-- The payload of a node: its operator and its label, which may be left out when it is empty. -/
def payloadRecord : Record PayloadDraft (OperatorTag × String) where
  title := "CandidateNodeData"
  blank := {}
  fields :=
    [ .slot "logicType" (·.operator) (fun d x => { d with operator := some x })
        (Reader.variant OperatorTag.names),
      { Field.slot "label" (·.label) (fun d x => { d with label := some x }) Reader.string with
        mayEnd := true } ]
  finish d :=
    match d.operator with
    | none => .error "logicType"
    | some operator => .ok (operator, d.label.getD "")

/-- What has been read of a node. -/
structure NodeDraft where
  id : Option String := none
  type : Option NodeType := none
  payload : Option (OperatorTag × String) := none

/-- A node. -/
def nodeRecord : Record NodeDraft CandidateNode where
  title := "CandidateNode"
  blank := {}
  fields :=
    [ .slot "id" (·.id) (fun d x => { d with id := some x }) Reader.string,
      .slot "type" (·.type) (fun d x => { d with type := some x })
        (Reader.variant NodeType.names),
      .slot "data" (·.payload) (fun d x => { d with payload := some x }) payloadRecord.read ]
  finish d :=
    match d.id, d.type, d.payload with
    | none, _, _ => .error "id"
    | _, none, _ => .error "type"
    | _, _, none => .error "data"
    | some id, some type, some (operator, label) => .ok ⟨id, type, operator, label⟩

/-! ## Edges -/

/-- What has been read of an edge. -/
structure EdgeDraft where
  id : Option String := none
  source : Option String := none
  target : Option String := none

/-- An edge. -/
def edgeRecord : Record EdgeDraft Edge where
  title := "Edge"
  blank := {}
  fields :=
    [ .slot "id" (·.id) (fun d x => { d with id := some x }) Reader.string,
      .slot "source" (·.source) (fun d x => { d with source := some x }) Reader.string,
      .slot "target" (·.target) (fun d x => { d with target := some x }) Reader.string ]
  finish d :=
    match d.id, d.source, d.target with
    | none, _, _ => .error "id"
    | _, none, _ => .error "source"
    | _, _, none => .error "target"
    | some id, some source, some target => .ok ⟨id, source, target⟩

/-! ## The document -/

/-- What has been read of the graph. -/
structure LogicDraft where
  nodes : Option (List CandidateNode) := none
  edges : Option (List Edge) := none
  seconds : Option Int64 := none

/-- The graph and the duration. -/
def logicRecord : Record LogicDraft CandidateLogic where
  title := "CandidateTriggerLogic"
  blank := {}
  fields :=
    [ .slot "nodes" (·.nodes) (fun d x => { d with nodes := some x })
        (Reader.list nodeRecord.read),
      .slot "edges" (·.edges) (fun d x => { d with edges := some x })
        (Reader.list edgeRecord.read),
      .slot "temporal_threshold_seconds" (·.seconds) (fun d x => { d with seconds := some x })
        Reader.int64 ]
  finish d :=
    match d.nodes, d.edges, d.seconds with
    | none, _, _ => .error "nodes"
    | _, none, _ => .error "edges"
    | _, _, none => .error "temporal_threshold_seconds"
    | some nodes, some edges, some seconds => .ok ⟨nodes, edges, seconds⟩

/-- The target objects, alone in their record. -/
def targetsRecord : Record (Option (List String)) (List String) where
  title := "CandidateVisualDetection"
  blank := none
  fields := [ .slot "target_objects" id (fun _ x => some x) (Reader.list Reader.string) ]
  finish d :=
    match d with
    | none => .error "target_objects"
    | some targets => .ok targets

/-- What has been read of a candidate. -/
structure CandidateDraft where
  targets : Option (List String) := none
  logic : Option CandidateLogic := none
  alert : Option String := none

/-- A candidate. -/
def candidateRecord : Record CandidateDraft Candidate where
  title := "RuleCandidate"
  blank := {}
  fields :=
    [ .slot "visual_detection" (·.targets) (fun d x => { d with targets := some x })
        targetsRecord.read,
      .slot "trigger_logic" (·.logic) (fun d x => { d with logic := some x }) logicRecord.read,
      .slot "alert_message" (·.alert) (fun d x => { d with alert := some x }) Reader.string ]
  finish d :=
    match d.targets, d.logic, d.alert with
    | none, _, _ => .error "visual_detection"
    | _, none, _ => .error "trigger_logic"
    | _, _, none => .error "alert_message"
    | some targets, some logic, some alert => .ok ⟨targets, logic, alert⟩

/-- The candidate that a text holds. -/
def Candidate.ofText (text : String) : Except Refusal Candidate :=
  Reader.whole candidateRecord.read text.toList

/-! ## Rules -/

/-- Why a text holds no rule. -/
inductive RuleRefusal
  | unreadable (r : Refusal)
  | invalid (d : Defect)
deriving DecidableEq, Repr

/-- The text of a refusal. -/
def RuleRefusal.message : RuleRefusal → String
  | .unreadable r => r.message
  | .invalid d => d.message

/-- The rule that a text holds. It is validated before the end of the text is looked at. -/
def Rule.ofText (text : String) : Except RuleRefusal Rule := do
  let (candidate, rest) ← (candidateRecord.read text.toList).mapError .unreadable
  let rule ← candidate.validate.mapError .invalid
  (Reader.atEnd rest).mapError .unreadable
  return rule

end VisualRules
