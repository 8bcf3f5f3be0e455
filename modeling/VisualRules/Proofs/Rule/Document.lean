import VisualRules.Proofs.Json.Reading
import VisualRules.Rule.Decoding

/-!
# Candidates as documents

Which candidate a document holds is said by looking its fields up. Reading any
text of the document gives that candidate.
-/

namespace VisualRules

open Json (Tree Slot ReadsAs Reader)

/-! ## What a document holds -/

/-- The target objects in the members of their object. -/
def targetsOf? (ms : List (String × Tree)) : Option (List String) :=
  (Tree.field? ms "target_objects" (Tree.list? Tree.string?)).join

/-- The payload of a node; its label may be left out. -/
def payloadOf? (ms : List (String × Tree)) : Option (OperatorTag × String) := do
  let operator ← (Tree.field? ms "logicType" (Tree.choice? OperatorTag.names)).join
  let label ← Tree.field? ms "label" Tree.string?
  return (operator, label.getD "")

/-- A node. -/
def nodeOf? (ms : List (String × Tree)) : Option CandidateNode := do
  let id ← (Tree.field? ms "id" Tree.string?).join
  let type ← (Tree.field? ms "type" (Tree.choice? NodeType.names)).join
  let payload ← (Tree.field? ms "data" (Tree.record? payloadOf?)).join
  return ⟨id, type, payload.1, payload.2⟩

/-- An edge. -/
def edgeOf? (ms : List (String × Tree)) : Option Edge := do
  let id ← (Tree.field? ms "id" Tree.string?).join
  let source ← (Tree.field? ms "source" Tree.string?).join
  let target ← (Tree.field? ms "target" Tree.string?).join
  return ⟨id, source, target⟩

/-- The graph and the duration. -/
def logicOf? (ms : List (String × Tree)) : Option CandidateLogic := do
  let nodes ← (Tree.field? ms "nodes" (Tree.list? (Tree.record? nodeOf?))).join
  let edges ← (Tree.field? ms "edges" (Tree.list? (Tree.record? edgeOf?))).join
  let seconds ← (Tree.field? ms "temporal_threshold_seconds" Tree.int64?).join
  return ⟨nodes, edges, seconds⟩

/-- A candidate. -/
def candidateOf? (ms : List (String × Tree)) : Option Candidate := do
  let targets ← (Tree.field? ms "visual_detection" (Tree.record? targetsOf?)).join
  let logic ← (Tree.field? ms "trigger_logic" (Tree.record? logicOf?)).join
  let alert ← (Tree.field? ms "alert_message" Tree.string?).join
  return ⟨targets, logic, alert⟩

/-! ## Reading it -/

/-- The slot of a string. -/
def stringSlot {δ : Type} (name : String) (get : δ → Option String) (set : δ → String → δ)
    (mayEnd : Bool) : Slot δ :=
  { name, get, set, item := Reader.string, mayEnd, decode := _, reads := Json.reads_string }

/-- The slot of a name that stands for a value. -/
def choiceSlot {δ α : Type} (name : String) (get : δ → Option α) (set : δ → α → δ)
    (known : List (String × α)) : Slot δ :=
  { name, get, set, item := Reader.variant known, decode := _, reads := Json.reads_variant known }

/-- The slot of a list. -/
def listSlot {δ α : Type} {item : Reader α} {decode : Tree → Option α} (name : String)
    (get : δ → Option (List α)) (set : δ → List α → δ) (hitem : ReadsAs item decode) : Slot δ :=
  { name, get, set, item := Reader.list item, decode := _, reads := Json.reads_list hitem }

/-- The slot of another record. -/
def recordSlot {δ α : Type} {item : Reader α} {decode : Tree → Option α} (name : String)
    (get : δ → Option α) (set : δ → α → δ) (hitem : ReadsAs item decode) : Slot δ :=
  { name, get, set, item, decode, reads := hitem }

def targetsSlots : List (Slot (Option (List String))) :=
  [listSlot "target_objects" id (fun _ x => some x) Json.reads_string]

theorem independent_targetsSlots : Slot.Independent targetsSlots := by
  constructor <;> simp [targetsSlots, listSlot]

theorem reads_targets : ReadsAs targetsRecord.read (Tree.record? targetsOf?) := by
  refine Json.reads_record targetsSlots rfl independent_targetsSlots ?_ fun ms targets h => ?_
  · simp [targetsSlots, listSlot, targetsRecord]
  · rw [targetsOf?, Option.join_eq_some_iff] at h
    refine ⟨by simp [targetsSlots, listSlot, h], fun d hd => ?_⟩
    simp only [targetsSlots, listSlot, List.forall_mem_singleton, h, Option.some.injEq] at hd
    simp [targetsRecord, ← show some targets = d from hd]

def payloadSlots : List (Slot PayloadDraft) :=
  [ choiceSlot "logicType" (·.operator) (fun d x => { d with operator := some x })
      OperatorTag.names,
    stringSlot "label" (·.label) (fun d x => { d with label := some x }) true ]

theorem independent_payloadSlots : Slot.Independent payloadSlots := by
  constructor <;> simp [payloadSlots, choiceSlot, stringSlot]

theorem reads_payload : ReadsAs payloadRecord.read (Tree.record? payloadOf?) := by
  refine Json.reads_record payloadSlots rfl independent_payloadSlots ?_ fun ms payload h => ?_
  · simp [payloadSlots, choiceSlot, stringSlot, payloadRecord]
  · simp only [payloadOf?, Option.bind_eq_bind, Option.bind_eq_some_iff,
      Option.join_eq_some_iff] at h
    obtain ⟨operator, hoperator, label, hlabel, heq⟩ := h
    refine ⟨by simp [payloadSlots, choiceSlot, stringSlot, hoperator, hlabel], fun d hd => ?_⟩
    simp only [payloadSlots, choiceSlot, stringSlot, List.mem_cons, List.not_mem_nil, or_false,
      forall_eq_or_imp, hoperator, Option.some.injEq, forall_eq, hlabel] at hd
    rw [← Option.some_inj.1 heq]
    simp [payloadRecord, ← hd.1, ← hd.2]

def nodeSlots : List (Slot NodeDraft) :=
  [ stringSlot "id" (·.id) (fun d x => { d with id := some x }) false,
    choiceSlot "type" (·.type) (fun d x => { d with type := some x }) NodeType.names,
    recordSlot "data" (·.payload) (fun d x => { d with payload := some x }) reads_payload ]

theorem independent_nodeSlots : Slot.Independent nodeSlots := by
  constructor <;> simp [nodeSlots, stringSlot, choiceSlot, recordSlot]

theorem reads_node : ReadsAs nodeRecord.read (Tree.record? nodeOf?) := by
  refine Json.reads_record nodeSlots rfl independent_nodeSlots ?_ fun ms node h => ?_
  · simp [nodeSlots, stringSlot, choiceSlot, recordSlot, nodeRecord]
  · simp only [nodeOf?, Option.bind_eq_bind, Option.bind_eq_some_iff,
      Option.join_eq_some_iff] at h
    obtain ⟨id, hid, type, htype, payload, hpayload, heq⟩ := h
    refine ⟨by simp [nodeSlots, stringSlot, choiceSlot, recordSlot, hid, htype, hpayload],
      fun d hd => ?_⟩
    simp only [nodeSlots, stringSlot, choiceSlot, recordSlot, List.mem_cons, List.not_mem_nil,
      or_false, forall_eq_or_imp, hid, Option.some.injEq, htype, forall_eq, hpayload] at hd
    rw [← Option.some_inj.1 heq]
    simp [nodeRecord, ← hd.1, ← hd.2.1, ← hd.2.2]

def edgeSlots : List (Slot EdgeDraft) :=
  [ stringSlot "id" (·.id) (fun d x => { d with id := some x }) false,
    stringSlot "source" (·.source) (fun d x => { d with source := some x }) false,
    stringSlot "target" (·.target) (fun d x => { d with target := some x }) false ]

theorem independent_edgeSlots : Slot.Independent edgeSlots := by
  constructor <;> simp [edgeSlots, stringSlot]

theorem reads_edge : ReadsAs edgeRecord.read (Tree.record? edgeOf?) := by
  refine Json.reads_record edgeSlots rfl independent_edgeSlots ?_ fun ms edge h => ?_
  · simp [edgeSlots, stringSlot, edgeRecord]
  · simp only [edgeOf?, Option.bind_eq_bind, Option.bind_eq_some_iff,
      Option.join_eq_some_iff] at h
    obtain ⟨id, hid, source, hsource, target, htarget, heq⟩ := h
    refine ⟨by simp [edgeSlots, stringSlot, hid, hsource, htarget], fun d hd => ?_⟩
    simp only [edgeSlots, stringSlot, List.mem_cons, List.not_mem_nil, or_false,
      forall_eq_or_imp, hid, Option.some.injEq, hsource, forall_eq, htarget] at hd
    rw [← Option.some_inj.1 heq]
    simp [edgeRecord, ← hd.1, ← hd.2.1, ← hd.2.2]

def logicSlots : List (Slot LogicDraft) :=
  [ listSlot "nodes" (·.nodes) (fun d x => { d with nodes := some x }) reads_node,
    listSlot "edges" (·.edges) (fun d x => { d with edges := some x }) reads_edge,
    { name := "temporal_threshold_seconds", get := (·.seconds),
      set := fun d x => { d with seconds := some x }, item := Reader.int64, decode := _,
      reads := Json.reads_int64 } ]

theorem independent_logicSlots : Slot.Independent logicSlots := by
  constructor <;> simp [logicSlots, listSlot]

theorem reads_logic : ReadsAs logicRecord.read (Tree.record? logicOf?) := by
  refine Json.reads_record logicSlots rfl independent_logicSlots ?_ fun ms logic h => ?_
  · simp [logicSlots, listSlot, logicRecord]
  · simp only [logicOf?, Option.bind_eq_bind, Option.bind_eq_some_iff,
      Option.join_eq_some_iff] at h
    obtain ⟨nodes, hnodes, edges, hedges, seconds, hseconds, heq⟩ := h
    refine ⟨by simp [logicSlots, listSlot, hnodes, hedges, hseconds], fun d hd => ?_⟩
    simp only [logicSlots, listSlot, List.mem_cons, List.not_mem_nil, or_false,
      forall_eq_or_imp, hnodes, Option.some.injEq, hedges, forall_eq, hseconds] at hd
    rw [← Option.some_inj.1 heq]
    simp [logicRecord, ← hd.1, ← hd.2.1, ← hd.2.2]

def candidateSlots : List (Slot CandidateDraft) :=
  [ recordSlot "visual_detection" (·.targets) (fun d x => { d with targets := some x })
      reads_targets,
    recordSlot "trigger_logic" (·.logic) (fun d x => { d with logic := some x }) reads_logic,
    stringSlot "alert_message" (·.alert) (fun d x => { d with alert := some x }) false ]

theorem independent_candidateSlots : Slot.Independent candidateSlots := by
  constructor <;> simp [candidateSlots, recordSlot, stringSlot]

theorem reads_candidate : ReadsAs candidateRecord.read (Tree.record? candidateOf?) := by
  refine Json.reads_record candidateSlots rfl independent_candidateSlots ?_ fun ms candidate h => ?_
  · simp [candidateSlots, recordSlot, stringSlot, candidateRecord]
  · simp only [candidateOf?, Option.bind_eq_bind, Option.bind_eq_some_iff,
      Option.join_eq_some_iff] at h
    obtain ⟨targets, htargets, logic, hlogic, alert, halert, heq⟩ := h
    refine ⟨by simp [candidateSlots, recordSlot, stringSlot, htargets, hlogic, halert],
      fun d hd => ?_⟩
    simp only [candidateSlots, recordSlot, stringSlot, List.mem_cons, List.not_mem_nil, or_false,
      forall_eq_or_imp, htargets, Option.some.injEq, hlogic, forall_eq, halert] at hd
    rw [← Option.some_inj.1 heq]
    simp [candidateRecord, ← hd.1, ← hd.2.1, ← hd.2.2]

/-- Each text of a document is read as the candidate that the document holds. -/
theorem Candidate.ofText_of_spelled {t : Tree} {c : Candidate} {text : String}
    (hc : Tree.record? candidateOf? t = some c) (ht : t.Spelled text.toList) :
    Candidate.ofText text = .ok c :=
  Json.whole_of_reads reads_candidate hc ht

/-- If the candidate is valid, the same texts are read as the rule that it makes. -/
theorem Rule.ofText_of_spelled {t : Tree} {c : Candidate} {r : Rule} {text : String}
    (hc : Tree.record? candidateOf? t = some c) (hr : c.validate = .ok r)
    (ht : t.Spelled text.toList) : Rule.ofText text = .ok r := by
  obtain ⟨g, hg, hread⟩ := Json.read_of_spelled reads_candidate hc ht
  rw [Rule.ofText, hread]
  show (c.validate.mapError RuleRefusal.invalid >>= _) = _
  rw [hr]
  show ((Reader.atEnd g).mapError RuleRefusal.unreadable >>= _) = _
  rw [Json.atEnd_of_gap hg]
  rfl

end VisualRules
