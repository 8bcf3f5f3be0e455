import VisualRules.Proofs.Json.Refusing
import VisualRules.Proofs.Rule.Conformance
import VisualRules.Proofs.Rule.Writing

/-!
# The schema and the reader

The schema that the model is given and the reader of candidates describe the same
documents, if the duration is the literal of an integer of 64 bits. One literal is an
exception: the reader of numbers takes zero with a minus for a rounded number, and the
reader of candidates refuses it.
-/

namespace VisualRules

open Candidate (spelled_toValue)
open Json (Conforms Numeral Refuses Schema Tree Value)

namespace RuleSchema

variable {t : Tree}

/-! ## The duration -/

/-- The document of the duration. -/
def threshold? (t : Tree) : Option Tree :=
  (t.member? "trigger_logic").bind (·.member? "temporal_threshold_seconds")

theorem mem_of_member? {key : String} {u : Tree} (h : t.member? key = some u) :
    ∃ ms, t = .object ms ∧ (key, u) ∈ ms := by
  cases t with
  | object ms =>
    obtain ⟨before, behind, rfl, -⟩ := List.lookup_eq_some_iff.1 h
    exact ⟨_, rfl, by simp⟩
  | _ => cases h

theorem conforms_logic {description : String}
    (h : Conforms root (Schema.described description (.reference "CandidateTriggerLogic")).toValue
      t) : Conforms root triggerLogic.toValue t :=
  (conforms_reference triggerLogic rfl).1 (Schema.conforms_described.1 h)

/-! ### The literal of an integer other than minus zero -/

theorem exists_logic {x : Numeral} (hdistinct : t.KeysDistinct)
    (ht : Conforms root triggerLogic.toValue t)
    (hmember : t.member? "temporal_threshold_seconds" = some (.number x)) (hx : x.IsInt64)
    (hzero : ¬ x.IsMinusZero) : ∃ g, Tree.record? logicOf? t = some g := by
  obtain ⟨ms, rfl, h⟩ := fits_of_conforms hdistinct ht
  obtain ⟨nodes, hnodes⟩ :=
    h.required_field "nodes" rfl (by decide) (decodes_node.list.described _)
  obtain ⟨edges, hedges⟩ :=
    h.required_field "edges" rfl (by decide) (decodes_edge.list.described _)
  obtain ⟨_, ⟨⟩, hmem⟩ := mem_of_member? hmember
  have hseconds := Tree.field?_of_mem h.nodup hmem Tree.int64?
  rw [Json.int64?_of_isInt64 hx hzero] at hseconds
  exact ⟨⟨nodes, edges, Int64.ofInt x.integer⟩,
    by simp [Tree.record?, logicOf?, hnodes, hedges, hseconds]⟩

theorem exists_candidate {x : Numeral} (hdistinct : t.KeysDistinct) (ht : Conforms root root t)
    (hthreshold : threshold? t = some (.number x)) (hx : x.IsInt64) (hzero : ¬ x.IsMinusZero) :
    ∃ c, Tree.record? candidateOf? t = some c := by
  obtain ⟨u, hu, hseconds⟩ := Option.bind_eq_some_iff.1 hthreshold
  obtain ⟨ms, rfl, h⟩ :=
    fits_of_conforms hdistinct (Schema.conforms_described.1 (conforms_root.1 ht))
  obtain ⟨_, ⟨⟩, hmem⟩ := mem_of_member? hu
  obtain ⟨targets, htargets⟩ :=
    h.required_field "visual_detection" rfl (by decide) (decodes_targets.described _)
  obtain ⟨alert, halert⟩ :=
    h.required_field "alert_message" rfl (by decide) ((decodes_text none).described _)
  have hu := conforms_logic (h.conforms_of_lookup rfl hmem)
  obtain ⟨g, hg⟩ := exists_logic (h.distinct _ hmem) hu hseconds hx hzero
  have hlogic := Tree.field?_of_mem h.nodup hmem (Tree.record? logicOf?)
  rw [hg] at hlogic
  exact ⟨⟨targets, g, alert⟩, by simp [Tree.record?, candidateOf?, htargets, hlogic, halert]⟩

/-! ### Minus zero -/

theorem refuses_logic {x : Numeral} (hdistinct : t.KeysDistinct)
    (ht : Conforms root triggerLogic.toValue t)
    (hmember : t.member? "temporal_threshold_seconds" = some (.number x)) (hx : x.IsInteger)
    (hzero : x.IsMinusZero) : Refuses logicRecord.read t := by
  obtain ⟨ms, rfl, h⟩ := fits_of_conforms hdistinct ht
  obtain ⟨_, ⟨⟩, hmem⟩ := mem_of_member? hmember
  have hrefuses := Json.refuses_int64 hx hzero
  refine Json.refuses_record logicSlots rfl independent_logicSlots ?_
    ⟨_, hmem, _, .tail _ (.tail _ (.head _)), rfl, hrefuses⟩
  rintro ⟨name, u⟩ hu s hs rfl
  simp only [logicSlots, List.mem_cons, List.not_mem_nil, or_false] at hs
  rcases hs with rfl | rfl | rfl
  · exact .inl (h.decoded rfl (decodes_node.list.described _) hu)
  · exact .inl (h.decoded rfl (decodes_edge.list.described _) hu)
  · rw [h.unique hu hmem]
    exact .inr hrefuses

theorem refuses_candidate {x : Numeral} (hdistinct : t.KeysDistinct) (ht : Conforms root root t)
    (hthreshold : threshold? t = some (.number x)) (hx : x.IsInteger) (hzero : x.IsMinusZero) :
    Refuses candidateRecord.read t := by
  obtain ⟨u, hu, hseconds⟩ := Option.bind_eq_some_iff.1 hthreshold
  obtain ⟨ms, rfl, h⟩ :=
    fits_of_conforms hdistinct (Schema.conforms_described.1 (conforms_root.1 ht))
  obtain ⟨_, ⟨⟩, hmem⟩ := mem_of_member? hu
  have hu := conforms_logic (h.conforms_of_lookup rfl hmem)
  have hrefuses := refuses_logic (h.distinct _ hmem) hu hseconds hx hzero
  refine Json.refuses_record candidateSlots rfl independent_candidateSlots ?_
    ⟨_, hmem, _, .tail _ (.head _), rfl, hrefuses⟩
  rintro ⟨name, v⟩ hv s hs rfl
  simp only [candidateSlots, List.mem_cons, List.not_mem_nil, or_false] at hs
  rcases hs with rfl | rfl | rfl
  · exact .inl (h.decoded rfl (decodes_targets.described _) hv)
  · rw [h.unique hv hmem]
    exact .inr hrefuses
  · exact .inl (h.decoded rfl ((decodes_text none).described _) hv)

theorem refused_of_isMinusZero {text : String} {x : Numeral} (hdistinct : t.KeysDistinct)
    (ht : t.Spelled text.toList) (hconforms : Conforms root root t)
    (hthreshold : threshold? t = some (.number x)) (hx : x.IsInteger) (hzero : x.IsMinusZero) :
    ∃ e, Candidate.ofText text = .error e :=
  Json.whole_of_refuses (refuses_candidate hdistinct hconforms hthreshold hx hzero) ht

/-! ## Agreement -/

/-- What is written for a candidate conforms to the schema, and what conforms is read as
the candidate that it holds, if its duration is the literal of an integer of 64 bits
other than zero with a minus. -/
theorem describes_candidates :
    (∀ (c : Candidate) (s : Value.Setting),
      (Tree.ofValue c.toValue).Spelled (c.toValue.write s) ∧
        Conforms root root (.ofValue c.toValue)) ∧
    ∀ (t : Tree) (text : String) (x : Numeral), t.KeysDistinct → t.Spelled text.toList →
      Conforms root root t → threshold? t = some (.number x) → x.IsInt64 → ¬ x.IsMinusZero →
      ∃ c, Tree.record? candidateOf? t = some c ∧ Candidate.ofText text = .ok c := by
  constructor
  · exact fun c s => ⟨spelled_toValue c s, conforms_ofValue c⟩
  · intro t text x hdistinct ht hconforms hthreshold hx hzero
    obtain ⟨c, hc⟩ := exists_candidate hdistinct hconforms hthreshold hx hzero
    exact ⟨c, hc, Candidate.ofText_of_spelled hc ht⟩

/-- A candidate in other words: the members in another order, one of them unknown, and a
label left out. -/
def annotated : Value :=
  .object
    [ ("note", .list [.null, .boolean true]),
      ("alert_message", .string "Put on a \"helmet\"\n"),
      ("trigger_logic", .object
        [ ("temporal_threshold_seconds", .integer (-1)),
          ("edges", .list []),
          ("nodes", .list [.object
            [ ("type", .string "content"),
              ("data", .object [("logicType", .string "")]),
              ("id", .string "c") ]]) ]),
      ("visual_detection", .object [("target_objects", .strings ["person"])]) ]

theorem distinct_annotated : (Tree.ofValue annotated).KeysDistinct := by
  simp [annotated, Value.strings, Tree.ofValue, Tree.entriesOf, Tree.membersOf, Tree.KeysDistinct,
    Tree.EntriesDistinct, Tree.MembersDistinct]

theorem spelled_annotated : (Tree.ofValue annotated).Spelled annotated.prettyText.toList := by
  have hintegers : annotated.IntegersOnly := by
    simp [annotated, Value.strings, Value.IntegersOnly, Value.EntriesIntegersOnly,
      Value.MembersIntegersOnly]
  exact ⟨[], _, [], Json.gap_nil, Value.spells_write (.indented 0) _ hintegers, Json.gap_nil,
    by simp [Value.prettyText]⟩

theorem conforms_annotated : Conforms root root (.ofValue annotated) := by
  have htag : Conforms root (Schema.reference "LogicTypeTag").toValue (.string "") :=
    conforms_ofValue_operator .none
  have htype : Conforms root (Schema.reference "NodeType").toValue (.string "content") :=
    conforms_ofValue_type .content
  have hpayload : Conforms root (Schema.reference "CandidateNodeData").toValue
      (.object [("logicType", .string "")]) := by
    rw [conforms_reference nodeData rfl]
    simp [nodeData, Schema.conforms_described, Schema.conforms_record, htag]
  have hnode : Conforms root (Schema.reference "CandidateNode").toValue
      (.object [("type", .string "content"), ("data", .object [("logicType", .string "")]),
        ("id", .string "c")]) := by
    rw [conforms_reference node rfl]
    simp [node, text, Schema.conforms_described, Schema.conforms_record, Schema.conforms_text,
      hpayload, htype]
  have hlogic : Conforms root (Schema.reference "CandidateTriggerLogic").toValue
      (.object [("temporal_threshold_seconds", .number (.ofInt (-1))), ("edges", .list []),
        ("nodes", .list [.object [("type", .string "content"),
          ("data", .object [("logicType", .string "")]), ("id", .string "c")]])]) := by
    have hseconds : ∃ n : ℤ, (Numeral.ofInt (-1)).rat = n :=
      ⟨_, Numeral.rat_of_isInteger ⟨rfl, rfl⟩⟩
    rw [conforms_reference triggerLogic rfl]
    simp [triggerLogic, Schema.conforms_described, Schema.conforms_record, Schema.conforms_list,
      Schema.conforms_int64, hnode, hseconds]
  rw [conforms_root]
  simp [candidate, text, Schema.conforms_described, Schema.conforms_record, Schema.conforms_text,
    annotated, Tree.ofValue, Tree.membersOf, Tree.entriesOf, conforms_ofValue_targets, hlogic]

theorem describes_annotated :
    Candidate.ofText annotated.prettyText =
      .ok ⟨["person"], ⟨[⟨"c", .content, .none, ""⟩], [], -1⟩, "Put on a \"helmet\"\n"⟩ := by
  have hx : (Numeral.ofInt (-1)).IsInt64 := by decide
  have hzero : ¬ (Numeral.ofInt (-1)).IsMinusZero := by decide
  obtain ⟨c, hc, hread⟩ := describes_candidates.2 _ _ _ distinct_annotated spelled_annotated
    conforms_annotated rfl hx hzero
  rw [hread]
  have hheld : Tree.record? candidateOf? (.ofValue annotated) =
      some ⟨["person"], ⟨[⟨"c", .content, .none, ""⟩], [], -1⟩, "Put on a \"helmet\"\n"⟩ := by
    rfl
  rw [hc] at hheld
  rw [Option.some_inj.1 hheld]

/-- The text of an empty candidate whose duration is zero with a minus. -/
def minusZeroText : String :=
  "\x7b\"trigger_logic\":\x7b\"temporal_threshold_seconds\":-0,\"nodes\":[],\"edges\":[]\x7d," ++
    "\"visual_detection\":\x7b\"target_objects\":[]\x7d,\"alert_message\":\"\"\x7d"

/-- The document of that text. -/
def minusZero : Tree :=
  .object
    [ ("trigger_logic", .object
        [ ("temporal_threshold_seconds", .number ⟨true, ['0'], [], none⟩),
          ("nodes", .list []),
          ("edges", .list []) ]),
      ("visual_detection", .object [("target_objects", .list [])]),
      ("alert_message", .string "") ]

theorem spelled_minusZero : minusZero.Spelled minusZeroText.toList := by
  have hzero : Numeral.Spelled ⟨true, ['0'], [], none⟩ ['-', '0'] :=
    Json.spelled_of_isInteger ⟨rfl, rfl⟩ (by simp [Json.Digits]) (by simp)
  have hempty := Json.Spells.emptyList Json.gap_nil
  have hlogic := Json.Spells.object <|
    Value.spells_members .compact "temporal_threshold_seconds" Json.gap_nil (.number hzero) <|
    Value.spells_members .compact "nodes" Json.gap_nil hempty <|
    Value.spells_member .compact "edges" Json.gap_nil hempty Json.gap_nil
  have htargets := Json.Spells.object <|
    Value.spells_member .compact "target_objects" Json.gap_nil hempty Json.gap_nil
  have hwhole := Json.Spells.object <|
    Value.spells_members .compact "trigger_logic" Json.gap_nil hlogic <|
    Value.spells_members .compact "visual_detection" Json.gap_nil htargets <|
    Value.spells_member .compact "alert_message" Json.gap_nil
      (.string (Json.stringText_flatMap "".toList)) Json.gap_nil
  exact ⟨[], _, [], Json.gap_nil, hwhole, Json.gap_nil, by decide +kernel⟩

theorem conforms_minusZero : Conforms root root minusZero := by
  have hseconds : ∃ n : ℤ, Numeral.rat ⟨true, ['0'], [], none⟩ = n :=
    ⟨_, Numeral.rat_of_isInteger ⟨rfl, rfl⟩⟩
  have hlogic : Conforms root (Schema.reference "CandidateTriggerLogic").toValue
      (.object [("temporal_threshold_seconds", .number ⟨true, ['0'], [], none⟩),
        ("nodes", .list []), ("edges", .list [])]) := by
    rw [conforms_reference triggerLogic rfl]
    simp [triggerLogic, Schema.conforms_described, Schema.conforms_record, Schema.conforms_list,
      Schema.conforms_int64, hseconds]
  have htargets : Conforms root (Schema.reference "CandidateVisualDetection").toValue
      (.object [("target_objects", .list [])]) := conforms_ofValue_targets []
  rw [conforms_root]
  simp [candidate, text, Schema.conforms_described, Schema.conforms_record, Schema.conforms_text,
    minusZero, hlogic, htargets]

theorem distinct_minusZero : minusZero.KeysDistinct := by
  simp [minusZero, Tree.KeysDistinct, Tree.EntriesDistinct, Tree.MembersDistinct]

/-- Zero with a minus is the literal of an integer, and yet it is not read. -/
theorem minusZero_refused :
    ¬ ((∀ (c : Candidate) (s : Value.Setting),
        (Tree.ofValue c.toValue).Spelled (c.toValue.write s) ∧
          Conforms root root (.ofValue c.toValue)) ∧
      ∀ (t : Tree) (text : String) (x : Numeral), t.KeysDistinct → t.Spelled text.toList →
        Conforms root root t → threshold? t = some (.number x) → x.IsInt64 →
        ∃ c, Candidate.ofText text = .ok c) := by
  rintro ⟨-, h⟩
  have hx : Numeral.IsInt64 ⟨true, ['0'], [], none⟩ := by decide
  obtain ⟨c, hread⟩ :=
    h _ _ _ distinct_minusZero spelled_minusZero conforms_minusZero rfl hx
  obtain ⟨e, hrefused⟩ := refused_of_isMinusZero distinct_minusZero spelled_minusZero
    conforms_minusZero rfl hx.1 (by decide)
  rw [hread] at hrefused
  cases hrefused

end RuleSchema

end VisualRules
