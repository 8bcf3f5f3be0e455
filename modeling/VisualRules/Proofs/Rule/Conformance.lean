import VisualRules.Proofs.Json.Conformance
import VisualRules.Proofs.Rule.Document
import VisualRules.Rule.Encoding
import VisualRules.Rule.Schema

/-!
# Candidates and their schema

What is written for a candidate conforms to the schema, and each record that conforms
holds what its reader wants. The duration is left open: the schema asks for an integer
of any size, written in any way.
-/

namespace VisualRules

open Json (Conforms Numeral Schema Tree Value)

namespace RuleSchema

/-- The written schema. -/
def root : Value :=
  document.toValue

variable {t : Tree}

theorem conforms_root : Conforms root root t ↔ Conforms root candidate.toValue t :=
  Json.SchemaDocument.conforms_toValue

/-- A reference stands for the definition with its name. -/
theorem conforms_reference {name : String} (schema : Schema)
    (h : document.definitions.lookup name = some schema) :
    Conforms root (Schema.reference name).toValue t ↔ Conforms root schema.toValue t := by
  have hdefinition : root.definition? name = some schema.toValue := by
    rw [root, Json.SchemaDocument.definition?_toValue, h]
    rfl
  simp [Schema.conforms_reference, hdefinition]

/-! ## What is written conforms -/

theorem conforms_ofValue_edge (e : Edge) :
    Conforms root (Schema.reference "Edge").toValue (.ofValue e.toValue) := by
  rw [conforms_reference edge rfl]
  simp [edge, text, Schema.conforms_described, Schema.conforms_record, Schema.conforms_text,
    Edge.toValue, Tree.ofValue, Tree.membersOf]

theorem conforms_ofValue_type (type : NodeType) :
    Conforms root (Schema.reference "NodeType").toValue (.string type.name) := by
  rw [conforms_reference (.choice ["logic", "content"]) rfl, Schema.conforms_choice]
  cases type <;> exact ⟨_, by decide, rfl⟩

theorem conforms_ofValue_operator (operator : OperatorTag) :
    Conforms root (Schema.reference "LogicTypeTag").toValue (.string operator.name) := by
  rw [conforms_reference (.choice ["AND", "OR", ""]) rfl, Schema.conforms_choice]
  cases operator <;> exact ⟨_, by decide, rfl⟩

theorem conforms_ofValue_node (n : CandidateNode) :
    Conforms root (Schema.reference "CandidateNode").toValue (.ofValue n.toValue) := by
  have hdata : Conforms root (Schema.reference "CandidateNodeData").toValue
      (.object [("logicType", .string n.operator.name), ("label", .string n.label)]) := by
    rw [conforms_reference nodeData rfl]
    simp [nodeData, Schema.conforms_described, Schema.conforms_record, Schema.conforms_text,
      conforms_ofValue_operator]
  rw [conforms_reference node rfl]
  simp [node, text, Schema.conforms_described, Schema.conforms_record, Schema.conforms_text,
    CandidateNode.toValue, Tree.ofValue, Tree.membersOf, conforms_ofValue_type, hdata]

theorem conforms_ofValue_logic (g : CandidateLogic) :
    Conforms root (Schema.reference "CandidateTriggerLogic").toValue (.ofValue g.toValue) := by
  have hseconds : ∃ n : ℤ, (Numeral.ofInt g.thresholdSeconds.toInt).rat = n :=
    ⟨_, Numeral.rat_of_isInteger ⟨rfl, rfl⟩⟩
  rw [conforms_reference triggerLogic rfl]
  simp [triggerLogic, Schema.conforms_described, Schema.conforms_record, Schema.conforms_list,
    Schema.conforms_int64, CandidateLogic.toValue, Tree.ofValue, Tree.membersOf,
    Tree.entriesOf_eq_map, conforms_ofValue_edge, conforms_ofValue_node, hseconds]

theorem conforms_ofValue_targets (targets : List String) :
    Conforms root (Schema.reference "CandidateVisualDetection").toValue
      (.object [("target_objects", .ofValue (.strings targets))]) := by
  rw [conforms_reference visualDetection rfl]
  simp [visualDetection, Schema.conforms_described, Schema.conforms_record, Schema.conforms_list,
    Schema.conforms_text, Value.strings, Tree.ofValue, Tree.entriesOf_eq_map]

theorem conforms_ofValue (c : Candidate) : Conforms root root (.ofValue c.toValue) := by
  rw [conforms_root]
  simp [candidate, text, Schema.conforms_described, Schema.conforms_record, Schema.conforms_text,
    Candidate.toValue, Tree.ofValue, Tree.membersOf, conforms_ofValue_targets,
    conforms_ofValue_logic]

/-! ## What conforms is read -/

/-- Whatever conforms to a schema holds a value for a decoder. -/
def Decodes {α : Type} (schema : Schema) (decode : Tree → Option α) : Prop :=
  ∀ t : Tree, t.KeysDistinct → Conforms root schema.toValue t → ∃ a, decode t = some a

variable {α : Type} {schema : Schema} {decode : Tree → Option α}

theorem decodes_text (default : Option String) : Decodes (.text default) Tree.string? := by
  intro t _ h
  obtain ⟨s, rfl⟩ := Schema.conforms_text.1 h
  exact ⟨s, rfl⟩

theorem Decodes.described (h : Decodes schema decode) (description : String) :
    Decodes (.described description schema) decode :=
  fun t hdistinct ht => h t hdistinct (Schema.conforms_described.1 ht)

theorem Decodes.reference (h : Decodes schema decode) {name : String}
    (hname : document.definitions.lookup name = some schema) :
    Decodes (.reference name) decode :=
  fun t hdistinct ht => h t hdistinct ((conforms_reference schema hname).1 ht)

theorem decodes_choice (names : List String) {known : List (String × α)}
    (h : ∀ name ∈ names, ∃ a, known.lookup name = some a) :
    Decodes (.choice names) (Tree.choice? known) := by
  intro t _ ht
  obtain ⟨name, hname, rfl⟩ := Schema.conforms_choice.1 ht
  exact h name hname

theorem exists_mapM {ts : List Tree} (h : ∀ u ∈ ts, ∃ a, decode u = some a) :
    ∃ as, ts.mapM decode = some as := by
  induction ts with
  | nil => exact ⟨[], rfl⟩
  | cons t ts ih =>
    obtain ⟨a, ha⟩ := h t (by simp)
    obtain ⟨as, has⟩ := ih fun u hu => h u (by simp [hu])
    exact ⟨a :: as, by simp [List.mapM_cons, ha, has]⟩

theorem Decodes.list (h : Decodes schema decode) :
    Decodes (.list schema) (Tree.list? decode) := by
  intro t hdistinct ht
  obtain ⟨ts, rfl, hts⟩ := Schema.conforms_list.1 ht
  exact exists_mapM fun u hu => h u (Tree.entriesDistinct_iff.1 hdistinct u hu) (hts u hu)

/-- An object that conforms to a record, by its members. -/
structure Fits (properties : List (String × Schema)) (required : List String)
    (ms : List (String × Tree)) : Prop where
  nodup : (ms.map Prod.fst).Nodup
  distinct : ∀ m ∈ ms, m.2.KeysDistinct
  conforms : ∀ p ∈ properties, ∀ u, (p.1, u) ∈ ms → Conforms root p.2.toValue u
  required : ∀ name ∈ required, name ∈ ms.map Prod.fst

section Members

variable {properties : List (String × Schema)} {required : List String}
  {ms : List (String × Tree)}

theorem fits_of_conforms (hdistinct : t.KeysDistinct)
    (h : Conforms root (Schema.record properties required).toValue t) :
    ∃ ms, t = .object ms ∧ Fits properties required ms := by
  obtain ⟨ms, rfl, hconforms, hrequired⟩ := Schema.conforms_record.1 h
  exact ⟨ms, rfl, hdistinct.1, Tree.membersDistinct_iff.1 hdistinct.2, hconforms, hrequired⟩

theorem Decodes.record {decode : List (String × Tree) → Option α}
    (h : ∀ ms, Fits properties required ms → ∃ a, decode ms = some a) :
    Decodes (.record properties required) (Tree.record? decode) := by
  intro t hdistinct ht
  obtain ⟨ms, rfl, hfits⟩ := fits_of_conforms hdistinct ht
  exact h ms hfits

theorem Fits.conforms_of_lookup (h : Fits properties required ms) {name : String} {u : Tree}
    (hschema : properties.lookup name = some schema) (hu : (name, u) ∈ ms) :
    Conforms root schema.toValue u := by
  obtain ⟨before, behind, rfl, -⟩ := List.lookup_eq_some_iff.1 hschema
  exact h.conforms (name, schema) (by simp) u hu

theorem Fits.decoded (h : Fits properties required ms) {name : String} {u : Tree}
    (hschema : properties.lookup name = some schema) (hdecode : Decodes schema decode)
    (hu : (name, u) ∈ ms) : ∃ a, decode u = some a :=
  hdecode u (h.distinct _ hu) (h.conforms_of_lookup hschema hu)

/-- A member with a known name is decoded, if there is one. -/
theorem Fits.field (h : Fits properties required ms) (name : String)
    (hschema : properties.lookup name = some schema) (hdecode : Decodes schema decode) :
    ∃ o, Tree.field? ms name decode = some o := by
  by_cases hname : name ∈ ms.map Prod.fst
  · obtain ⟨m, hm, rfl⟩ := List.mem_map.1 hname
    obtain ⟨a, ha⟩ := h.decoded hschema hdecode hm
    exact ⟨some a, by rw [Tree.field?_of_mem h.nodup hm, ha]; rfl⟩
  · exact ⟨none, Tree.field?_of_not_mem hname decode⟩

theorem Fits.required_field (h : Fits properties required ms) (name : String)
    (hschema : properties.lookup name = some schema) (hname : name ∈ required)
    (hdecode : Decodes schema decode) :
    ∃ a, Tree.field? ms name decode = some (some a) := by
  obtain ⟨m, hm, rfl⟩ := List.mem_map.1 (h.required name hname)
  obtain ⟨a, ha⟩ := h.decoded hschema hdecode hm
  exact ⟨a, by rw [Tree.field?_of_mem h.nodup hm, ha]; rfl⟩

/-- With distinct keys a key has one value. -/
theorem Fits.unique (h : Fits properties required ms) {name : String} {u v : Tree}
    (hu : (name, u) ∈ ms) (hv : (name, v) ∈ ms) : u = v :=
  congrArg Prod.snd (List.inj_on_of_nodup_map h.nodup hu hv rfl)

end Members

theorem decodes_edge : Decodes (.reference "Edge") (Tree.record? edgeOf?) := by
  refine Decodes.reference (Decodes.described (Decodes.record fun ms h => ?_) _) rfl
  obtain ⟨id, hid⟩ := h.required_field "id" rfl (by decide) ((decodes_text none).described _)
  obtain ⟨source, hsource⟩ :=
    h.required_field "source" rfl (by decide) ((decodes_text none).described _)
  obtain ⟨target, htarget⟩ :=
    h.required_field "target" rfl (by decide) ((decodes_text none).described _)
  exact ⟨⟨id, source, target⟩, by simp [edgeOf?, hid, hsource, htarget]⟩

theorem decodes_type : Decodes (.reference "NodeType") (Tree.choice? NodeType.names) := by
  refine Decodes.reference (decodes_choice ["logic", "content"] fun name hname => ?_) rfl
  simp only [List.mem_cons, List.not_mem_nil, or_false] at hname
  rcases hname with rfl | rfl
  · exact ⟨.logic, rfl⟩
  · exact ⟨.content, rfl⟩

theorem decodes_operator :
    Decodes (.reference "LogicTypeTag") (Tree.choice? OperatorTag.names) := by
  refine Decodes.reference (decodes_choice ["AND", "OR", ""] fun name hname => ?_) rfl
  simp only [List.mem_cons, List.not_mem_nil, or_false] at hname
  rcases hname with rfl | rfl | rfl
  · exact ⟨.and, rfl⟩
  · exact ⟨.or, rfl⟩
  · exact ⟨.none, rfl⟩

theorem decodes_payload :
    Decodes (.reference "CandidateNodeData") (Tree.record? payloadOf?) := by
  refine Decodes.reference (Decodes.described (Decodes.record fun ms h => ?_) _) rfl
  obtain ⟨operator, hoperator⟩ :=
    h.required_field "logicType" rfl (by decide) (decodes_operator.described _)
  obtain ⟨label, hlabel⟩ := h.field "label" rfl ((decodes_text _).described _)
  exact ⟨(operator, label.getD ""), by simp [payloadOf?, hoperator, hlabel]⟩

theorem decodes_node : Decodes (.reference "CandidateNode") (Tree.record? nodeOf?) := by
  refine Decodes.reference (Decodes.described (Decodes.record fun ms h => ?_) _) rfl
  obtain ⟨id, hid⟩ := h.required_field "id" rfl (by decide) ((decodes_text none).described _)
  obtain ⟨type, htype⟩ := h.required_field "type" rfl (by decide) (decodes_type.described _)
  obtain ⟨payload, hpayload⟩ := h.required_field "data" rfl (by decide) decodes_payload
  exact ⟨⟨id, type, payload.1, payload.2⟩, by simp [nodeOf?, hid, htype, hpayload]⟩

theorem decodes_targets :
    Decodes (.reference "CandidateVisualDetection") (Tree.record? targetsOf?) := by
  refine Decodes.reference (Decodes.record fun ms h => ?_) rfl
  obtain ⟨targets, htargets⟩ :=
    h.required_field "target_objects" rfl (by decide) ((decodes_text none).list.described _)
  exact ⟨targets, by simp [targetsOf?, htargets]⟩

end RuleSchema

end VisualRules
