import VisualRules.Proofs.Json.Understanding
import VisualRules.Rule.Decoding

/-!
# Layouts of a candidate

A candidate is the same however its document is laid out. White space, the order of members
and members that no record knows mean nothing, a record may be written as an object or as a
list of its values, and an empty label may be left out. A field that is repeated, or any
other one that is missing, leaves no candidate.
-/

namespace VisualRules

open Json (Cell Described IsKey Need Reader Relaid Renders Shape Spoilt Understands isKey_self
  quotedText_half renders_emptyList renders_entriesEnd renders_entry renders_list renders_member
  renders_membersEnd renders_object renders_quoted stringText_self)
open Json.Reader (stringHolds_empty_iff understands_int64 understands_list understands_string
  understands_variant)

/-! ## Shapes -/

/-- The payload of a node; a label is empty if there is none. -/
def payloadShape : Shape :=
  .record [("logicType", .required, .leaf), ("label", .assumed ['"', '"'], .leaf)]

/-- A node. -/
def nodeShape : Shape :=
  .record [("id", .required, .leaf), ("type", .required, .leaf), ("data", .required, payloadShape)]

/-- An edge. -/
def edgeShape : Shape :=
  .record [("id", .required, .leaf), ("source", .required, .leaf), ("target", .required, .leaf)]

/-- The graph and the duration. -/
def logicShape : Shape :=
  .record
    [ ("nodes", .required, .list nodeShape), ("edges", .required, .list edgeShape),
      ("temporal_threshold_seconds", .required, .leaf) ]

/-- The target objects. -/
def targetsShape : Shape :=
  .record [("target_objects", .required, .list .leaf)]

/-- A candidate. -/
def candidateShape : Shape :=
  .record
    [ ("visual_detection", .required, targetsShape), ("trigger_logic", .required, logicShape),
      ("alert_message", .required, .leaf) ]

/-! ## Cells -/

/-- The cells of a payload. -/
def payloadCells : List (Cell PayloadDraft) :=
  [ .of "logicType" (·.operator) (fun d x => { d with operator := some x })
      (understands_variant OperatorTag.names),
    { Cell.of "label" (·.label) (fun d x => { d with label := some x }) understands_string with
      mayEnd := true
      need := .assumed ['"', '"'] } ]

theorem described_payload : Described payloadRecord payloadCells where
  fields := rfl
  separate := by
    refine ⟨?_, ?_, ?_, by decide⟩
    · simp [payloadCells, Cell.of]
    · simp [payloadCells, Cell.of]
    · simp [payloadCells, Cell.of]
  blank := by simp [payloadCells, payloadRecord, Cell.of]
  complete := by
    intro d a h
    simp only [payloadRecord] at h
    split at h
    · cases h
    · simp [payloadCells, Cell.of, *]
  assumed := by
    intro c hc m hneed
    simp only [payloadCells, List.mem_cons, List.not_mem_nil, or_false] at hc
    cases hc with
    | inl hoperator =>
      rw [hoperator] at hneed
      cases hneed
    | inr hlabel =>
      subst hlabel
      cases hneed
      refine ⟨rfl, "", fun s => stringHolds_empty_iff, ?_⟩
      intro d hfree
      have hlabel : d.label = none := hfree
      simp [payloadRecord, Cell.of, hlabel]

/-- The cells of a node. -/
def nodeCells : List (Cell NodeDraft) :=
  [ .of "id" (·.id) (fun d x => { d with id := some x }) understands_string,
    .of "type" (·.type) (fun d x => { d with type := some x })
      (understands_variant NodeType.names),
    .of "data" (·.payload) (fun d x => { d with payload := some x })
      described_payload.understands ]

/-- The cells of an edge. -/
def edgeCells : List (Cell EdgeDraft) :=
  [ .of "id" (·.id) (fun d x => { d with id := some x }) understands_string,
    .of "source" (·.source) (fun d x => { d with source := some x }) understands_string,
    .of "target" (·.target) (fun d x => { d with target := some x }) understands_string ]

theorem described_node : Described nodeRecord nodeCells where
  fields := rfl
  separate := by
    refine ⟨?_, ?_, ?_, by decide⟩
    · simp [nodeCells, Cell.of]
    · simp [nodeCells, Cell.of]
    · simp [nodeCells, Cell.of]
  blank := by simp [nodeCells, nodeRecord, Cell.of]
  complete := by
    intro d a h
    simp only [nodeRecord] at h
    split at h
    · cases h
    · cases h
    · cases h
    · simp [nodeCells, Cell.of, *]
  assumed := by simp [nodeCells, Cell.of]

theorem described_edge : Described edgeRecord edgeCells where
  fields := rfl
  separate := by
    refine ⟨?_, ?_, ?_, by decide⟩
    · simp [edgeCells, Cell.of]
    · simp [edgeCells, Cell.of]
    · simp [edgeCells, Cell.of]
  blank := by simp [edgeCells, edgeRecord, Cell.of]
  complete := by
    intro d a h
    simp only [edgeRecord] at h
    split at h
    · cases h
    · cases h
    · cases h
    · simp [edgeCells, Cell.of, *]
  assumed := by simp [edgeCells, Cell.of]

/-- The cells of the graph and the duration. -/
def logicCells : List (Cell LogicDraft) :=
  [ .of "nodes" (·.nodes) (fun d x => { d with nodes := some x })
      (understands_list described_node.understands),
    .of "edges" (·.edges) (fun d x => { d with edges := some x })
      (understands_list described_edge.understands),
    .of "temporal_threshold_seconds" (·.seconds) (fun d x => { d with seconds := some x })
      understands_int64 ]

theorem described_logic : Described logicRecord logicCells where
  fields := rfl
  separate := by
    refine ⟨?_, ?_, ?_, by decide⟩
    · simp [logicCells, Cell.of]
    · simp [logicCells, Cell.of]
    · simp [logicCells, Cell.of]
  blank := by simp [logicCells, logicRecord, Cell.of]
  complete := by
    intro d a h
    simp only [logicRecord] at h
    split at h
    · cases h
    · cases h
    · cases h
    · simp [logicCells, Cell.of, *]
  assumed := by simp [logicCells, Cell.of]

/-- The cell of the target objects. -/
def targetsCells : List (Cell (Option (List String))) :=
  [.of "target_objects" id (fun _ x => some x) (understands_list understands_string)]

theorem described_targets : Described targetsRecord targetsCells where
  fields := rfl
  separate := by
    refine ⟨?_, ?_, ?_, by decide⟩
    · simp [targetsCells, Cell.of]
    · simp [targetsCells, Cell.of]
    · simp [targetsCells, Cell.of]
  blank := by simp [targetsCells, targetsRecord, Cell.of]
  complete := by
    intro d a h
    simp only [targetsRecord] at h
    split at h
    · cases h
    · simp [targetsCells, Cell.of, *]
  assumed := by simp [targetsCells, Cell.of]

/-- The cells of a candidate. -/
def candidateCells : List (Cell CandidateDraft) :=
  [ .of "visual_detection" (·.targets) (fun d x => { d with targets := some x })
      described_targets.understands,
    .of "trigger_logic" (·.logic) (fun d x => { d with logic := some x })
      described_logic.understands,
    .of "alert_message" (·.alert) (fun d x => { d with alert := some x }) understands_string ]

theorem described_candidate : Described candidateRecord candidateCells where
  fields := rfl
  separate := by
    refine ⟨?_, ?_, ?_, by decide⟩
    · simp [candidateCells, Cell.of]
    · simp [candidateCells, Cell.of]
    · simp [candidateCells, Cell.of]
  blank := by simp [candidateCells, candidateRecord, Cell.of]
  complete := by
    intro d a h
    simp only [candidateRecord] at h
    split at h
    · cases h
    · cases h
    · cases h
    · simp [candidateCells, Cell.of, *]
  assumed := by simp [candidateCells, Cell.of]

theorem understands_candidate : Understands candidateRecord.read candidateShape
    (candidateRecord.Holds candidateCells) :=
  described_candidate.understands

/-! ## Documents -/

/-- **A document that holds a candidate holds the same one in every layout.** Whatever is
changed in the order of members, by members that are not known, between the two ways to
write a record and about empty labels, at any depth and any number of times, every text of
the form that comes out holds the candidate, with white space wherever it may stand. A
repeated field, and one less of those that have to be there, leave none. -/
theorem Candidate.ofText_relaid {text : String} {c : Candidate} (h : ofText text = .ok c) :
    (∃ f : Json.Form, f.Rendered text.toList) ∧
    ∀ f : Json.Form, f.Rendered text.toList →
      (∀ (f' : Json.Form) (text' : String), Relation.EqvGen (Relaid candidateShape) f f' →
        f'.Rendered text'.toList → ofText text' = .ok c) ∧
      ∀ (f' : Json.Form) (text' : String), Spoilt candidateShape f f' →
        f'.Rendered text'.toList → ∃ r, ofText text' = .error r := by
  refine ⟨understands_candidate.exists_rendered h, ?_⟩
  intro f hf
  have hholds := (understands_candidate.whole_iff hf).mp h
  constructor
  · intro f' text' hrelaid hf'
    exact (understands_candidate.whole_iff hf').mpr
      ((understands_candidate.relaid_many hrelaid).mp hholds)
  · intro f' text' hspoilt hf'
    cases hread : ofText text' with
    | error r => exact ⟨r, rfl⟩
    | ok c' =>
      have hholds' := (understands_candidate.whole_iff hf').mp hread
      exact absurd hholds' (understands_candidate.spoilt hspoilt hholds c')

/-! ## A document with one node -/

/-- A candidate with one node, written as lists around the form of its payload. -/
def documentAround (payload : Json.Form) : Json.Form :=
  .list
    [ .list [.list []],
      .list
        [ .list [.list [.quoted ['n'], .quoted ['c', 'o', 'n', 't', 'e', 'n', 't'], payload]],
          .list [], .mark ['1'] ],
      .quoted ['a'] ]

/-- The text around the text of the payload. -/
def textAround (payload : String) : String :=
  "[[[]],[[[\"n\",\"content\"," ++ payload ++ "]],[],1],\"a\"]"

theorem relaid_around {f f' : Json.Form} (h : Relaid payloadShape f f') :
    Relaid candidateShape (documentAround f) (documentAround f') :=
  .position [_] [_] rfl <| .position [] [_, _] rfl <| .entry [] [] <| .position [_, _] [] rfl h

theorem spoilt_around {f f' : Json.Form} (h : Spoilt payloadShape f f') :
    Spoilt candidateShape (documentAround f) (documentAround f') :=
  .position [_] [_] rfl <| .position [] [_, _] rfl <| .entry [] [] <| .position [_, _] [] rfl h

theorem spelled_one : (⟨false, ['1'], [], none⟩ : Json.Numeral).Spelled ['1'] :=
  .mk (by simp [Json.Digits]) (by simp) (.inl rfl) .none

theorem rendered_around {f : Json.Form} {payload : String}
    (h : Renders (.form f) payload.toList) :
    (documentAround f).Rendered (textAround payload).toList := by
  have hid := renders_quoted (k := ['n']) (stringText_self (by decide))
  have htype := renders_quoted (k := ['c', 'o', 'n', 't', 'e', 'n', 't'])
    (stringText_self (by decide))
  have halert := renders_quoted (k := ['a']) (stringText_self (by decide))
  have hnode := renders_list hid (renders_entry htype (renders_entry h renders_entriesEnd))
  have hnodes := renders_list hnode renders_entriesEnd
  have hlogic := renders_list hnodes (renders_entry renders_emptyList
    (renders_entry (.mark (.number spelled_one)) renders_entriesEnd))
  have htargets := renders_list renders_emptyList renders_entriesEnd
  have hdocument := renders_list htargets
    (renders_entry hlogic (renders_entry halert renders_entriesEnd))
  unfold textAround
  unfold documentAround
  simpa using hdocument.rendered

/-- The candidate in these documents. -/
def bareCandidate : Candidate where
  targetObjects := []
  logic := ⟨[.content "n" ""], [], 1⟩
  alertMessage := "a"

theorem ofText_bareCandidate :
    Candidate.ofText (textAround "\x7b\"label\":\"\",\"logicType\":\"\"\x7d") =
      .ok bareCandidate := by
  rfl

/-- The payload without its empty label and with a member that holds half of a pair of
surrogates, and the payload as a list of its first value; and the payload without its
operator. -/
theorem ofText_relaid_bareCandidate :
    Candidate.ofText (textAround "\x7b\"x\":\"\\ud800\",\"logicType\":\"\"\x7d") =
        .ok bareCandidate ∧
      Candidate.ofText (textAround "[\"\"]") = .ok bareCandidate ∧
      ∃ r, Candidate.ofText (textAround "\x7b\"label\":\"\"\x7d") = .error r := by
  have hlabel : IsKey "label" "label".toList := isKey_self (by decide)
  have hoperator : IsKey "logicType" "logicType".toList := isKey_self (by decide)
  have hx : IsKey "x" "x".toList := isKey_self (by decide)
  have hempty := renders_quoted (k := []) .nil
  have hlabelled : Renders (.form (.object
      [("label".toList, .quoted []), ("logicType".toList, .quoted [])]))
      "\x7b\"label\":\"\",\"logicType\":\"\"\x7d".toList := by
    simpa using renders_object hlabel.quoted hempty
      (renders_member hoperator.quoted hempty renders_membersEnd)
  have hextended : Renders (.form (.object
      [("x".toList, .quoted "\\ud800".toList), ("logicType".toList, .quoted [])]))
      "\x7b\"x\":\"\\ud800\",\"logicType\":\"\"\x7d".toList := by
    simpa [Json.Form.quoted] using renders_object hx.quoted (.mark (.string quotedText_half))
      (renders_member hoperator.quoted hempty renders_membersEnd)
  have hlisted : Renders (.form (.list [.quoted []])) "[\"\"]".toList := by
    simpa using renders_list hempty renders_entriesEnd
  have hspoilt : Renders (.form (.object [("label".toList, .quoted [])]))
      "\x7b\"label\":\"\"\x7d".toList := by
    simpa using renders_object hlabel.quoted hempty renders_membersEnd
  obtain ⟨hrelaid, hnone⟩ :=
    (Candidate.ofText_relaid ofText_bareCandidate).2 _ (rendered_around hlabelled)
  refine ⟨hrelaid _ _ ?_ (rendered_around hextended), hrelaid _ _ ?_ (rendered_around hlisted),
    hnone _ _ (spoilt_around ?_) (rendered_around hspoilt)⟩
  · -- the empty label goes, and another member comes in its place
    have hother : ∀ m ∈ [] ++ [("logicType".toList, Json.Form.quoted [])],
        ¬ IsKey "label" m.1 := by
      intro m hm hkey
      rw [List.nil_append, List.mem_singleton] at hm
      rw [hm] at hkey
      exact absurd (hkey.inj hoperator) (by decide)
    have homitted : Relaid payloadShape
        (.object [("label".toList, .quoted []), ("logicType".toList, .quoted [])])
        (.object [("logicType".toList, .quoted [])]) :=
      .omitted [] _ (.tail _ (.head _)) hlabel hother
    exact .trans _ _ _ (.rel _ _ (relaid_around homitted))
      (.rel _ _ (relaid_around (.extended [] _ hx (by decide))))
  · -- the members in the order of the fields, their values, and the label goes
    have hordered : Relaid payloadShape
        (.object [("label".toList, .quoted []), ("logicType".toList, .quoted [])])
        (.object [("logicType".toList, .quoted []), ("label".toList, .quoted [])]) :=
      .reordered (.swap _ _ _)
    have hvalues : Relaid payloadShape
        (.object [("logicType".toList, .quoted []), ("label".toList, .quoted [])])
        (.list [.quoted [], .quoted []]) :=
      .positional (.cons hoperator (.cons hlabel .nil))
    have hshort : Relaid payloadShape (.list [.quoted [], .quoted []]) (.list [.quoted []]) :=
      @Relaid.shortened _ _ _ _ [.quoted []] rfl
    exact .trans _ _ _ (.rel _ _ (relaid_around hordered)) (.trans _ _ _
      (.rel _ _ (relaid_around hvalues)) (.rel _ _ (relaid_around hshort)))
  · exact .removed [("label".toList, .quoted [])] [] (.head _) hoperator

end VisualRules
