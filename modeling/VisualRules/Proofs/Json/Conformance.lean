import VisualRules.Json.Schema
import VisualRules.Proofs.Json.Tree

/-!
# Conformance to a schema

A schema is a JSON document itself, and a document conforms to it if it meets all
of its keywords. The keywords are those of draft 2020-12 that a written schema
uses; what a schema of the project demands is read off from them.
-/

namespace VisualRules.Json

/-! ## Keywords -/

/-- The member of a value with a key. -/
def Value.member? (key : String) : Value → Option Value
  | .object ms => ms.lookup key
  | _ => none

/-- The schema that a schema document keeps under a name. -/
def Value.definition? (root : Value) (name : String) : Option Value :=
  (root.member? "$defs").bind (·.member? name)

/-- Whether a document is of the type with a name. A number without a fraction is
an integer, however it is written. -/
def Tree.HasType (name : String) : Tree → Prop
  | .null => name = "null"
  | .boolean _ => name = "boolean"
  | .number x => name = "number" ∨ name = "integer" ∧ ∃ n : ℤ, x.rat = n
  | .string _ => name = "string"
  | .list _ => name = "array"
  | .object _ => name = "object"

/-- Keywords that demand nothing. -/
def remarks : List String :=
  ["$schema", "title", "description", "default", "format", "$defs"]

mutual

/-- A document meets all keywords of a schema. -/
inductive Conforms (root : Value) : Value → Tree → Prop
  | all {keywords : List (String × Value)} {t : Tree}
      (h : ∀ key v, (key, v) ∈ keywords → Meets root key v t) :
      Conforms root (.object keywords) t

/-- A document meets a keyword with its value. -/
inductive Meets (root : Value) : String → Value → Tree → Prop
  | remark {key : String} {v : Value} {t : Tree} (h : key ∈ remarks) :
      Meets root key v t
  | reference {name : String} {schema : Value} {t : Tree}
      (hschema : root.definition? name = some schema) (h : Conforms root schema t) :
      Meets root "$ref" (.string ("#/$defs/" ++ name)) t
  | type {name : String} {t : Tree} (h : t.HasType name) : Meets root "type" (.string name) t
  | enum {options : List Value} {v : Value} (h : v ∈ options) :
      Meets root "enum" (.list options) (.ofValue v)
  | items {schema : Value} {t : Tree}
      (h : ∀ ts, t = .list ts → ∀ u ∈ ts, Conforms root schema u) : Meets root "items" schema t
  | properties {schemas : List (String × Value)} {t : Tree}
      (h : ∀ ms, t = .object ms → ∀ name u, (name, u) ∈ ms →
        ∀ schema, (name, schema) ∈ schemas → Conforms root schema u) :
      Meets root "properties" (.object schemas) t
  | required {names : List Value} {t : Tree}
      (h : ∀ ms, t = .object ms → ∀ name, Value.string name ∈ names → name ∈ ms.map Prod.fst) :
      Meets root "required" (.list names) t

end

/-! ## What the keywords of a schema demand -/

variable {root : Value} {t : Tree} {keywords : List (String × Value)}

theorem conforms_nil : Conforms root (.object []) t :=
  .all fun _ _ h => nomatch h

theorem conforms_cons {key : String} {v : Value} :
    Conforms root (.object ((key, v) :: keywords)) t ↔
      Meets root key v t ∧ Conforms root (.object keywords) t := by
  constructor
  · rintro ⟨h⟩
    exact ⟨h key v (by simp), .all fun key v hv => h key v (by simp [hv])⟩
  · rintro ⟨hfirst, ⟨hrest⟩⟩
    refine .all fun key' v' hv => ?_
    rcases List.mem_cons.1 hv with heq | hv
    · cases heq
      exact hfirst
    · exact hrest key' v' hv

theorem conforms_append {more : List (String × Value)} :
    Conforms root (.object (keywords ++ more)) t ↔
      Conforms root (.object keywords) t ∧ Conforms root (.object more) t := by
  induction keywords with
  | nil => simp [conforms_nil]
  | cons k ks ih => rw [List.cons_append, conforms_cons, conforms_cons, ih, and_assoc]

theorem meets_iff {key : String} {v : Value} :
    Meets root key v t ↔
      key ∈ remarks ∨
      (key = "$ref" ∧ ∃ name, v = .string ("#/$defs/" ++ name) ∧
        ∃ schema, root.definition? name = some schema ∧ Conforms root schema t) ∨
      (key = "type" ∧ ∃ name, v = .string name ∧ t.HasType name) ∨
      (key = "enum" ∧ ∃ options, v = .list options ∧ ∃ o ∈ options, t = .ofValue o) ∨
      (key = "items" ∧ ∀ ts, t = .list ts → ∀ u ∈ ts, Conforms root v u) ∨
      (key = "properties" ∧ ∃ schemas, v = .object schemas ∧
        ∀ ms, t = .object ms → ∀ name u, (name, u) ∈ ms →
          ∀ schema, (name, schema) ∈ schemas → Conforms root schema u) ∨
      (key = "required" ∧ ∃ names, v = .list names ∧
        ∀ ms, t = .object ms → ∀ name, Value.string name ∈ names → name ∈ ms.map Prod.fst) := by
  constructor
  · intro h
    cases h with
    | remark h => exact .inl h
    | reference hschema h => exact .inr (.inl ⟨rfl, _, rfl, _, hschema, h⟩)
    | type h => exact .inr (.inr (.inl ⟨rfl, _, rfl, h⟩))
    | enum h => exact .inr (.inr (.inr (.inl ⟨rfl, _, rfl, _, h, rfl⟩)))
    | items h => exact .inr (.inr (.inr (.inr (.inl ⟨rfl, h⟩))))
    | properties h => exact .inr (.inr (.inr (.inr (.inr (.inl ⟨rfl, _, rfl, h⟩)))))
    | required h => exact .inr (.inr (.inr (.inr (.inr (.inr ⟨rfl, _, rfl, h⟩)))))
  · rintro (h | ⟨rfl, name, rfl, schema, hschema, h⟩ | ⟨rfl, name, rfl, h⟩ |
      ⟨rfl, options, rfl, o, h, rfl⟩ | ⟨rfl, h⟩ | ⟨rfl, schemas, rfl, h⟩ | ⟨rfl, names, rfl, h⟩)
    · exact .remark h
    · exact .reference hschema h
    · exact .type h
    · exact .enum h
    · exact .items h
    · exact .properties h
    · exact .required h

theorem conforms_remark {key : String} {v : Value} (h : key ∈ remarks) :
    Conforms root (.object ((key, v) :: keywords)) t ↔ Conforms root (.object keywords) t :=
  conforms_cons.trans (and_iff_right (.remark h))

theorem meets_reference {name : String} :
    Meets root "$ref" (.string ("#/$defs/" ++ name)) t ↔
      ∃ schema, root.definition? name = some schema ∧ Conforms root schema t := by
  simp [meets_iff, remarks]

theorem meets_type {name : String} :
    Meets root "type" (.string name) t ↔ t.HasType name := by
  simp [meets_iff, remarks]

theorem meets_enum {names : List String} :
    Meets root "enum" (Value.strings names) t ↔ ∃ name ∈ names, t = .string name := by
  simp [meets_iff, remarks, Value.strings, Tree.ofValue]

theorem meets_items {schema : Value} :
    Meets root "items" schema t ↔ ∀ ts, t = .list ts → ∀ u ∈ ts, Conforms root schema u := by
  simp [meets_iff, remarks]

theorem meets_required {names : List String} :
    Meets root "required" (Value.strings names) t ↔
      ∀ ms, t = .object ms → ∀ name ∈ names, name ∈ ms.map Prod.fst := by
  simp [meets_iff, remarks, Value.strings]

theorem meets_properties {schemas : List (String × Value)} :
    Meets root "properties" (.object schemas) t ↔
      ∀ ms, t = .object ms → ∀ name u, (name, u) ∈ ms →
        ∀ schema, (name, schema) ∈ schemas → Conforms root schema u := by
  simp [meets_iff, remarks]

/-! ## What a schema demands -/

namespace Schema

theorem conforms_text {default : Option String} :
    Conforms root (text default).toValue t ↔ ∃ s, t = .string s := by
  have htype : Conforms root (.object [("type", .string "string")]) t ↔ ∃ s, t = .string s := by
    cases t <;> simp [conforms_cons, conforms_nil, meets_type, Tree.HasType]
  cases default with
  | none => exact htype
  | some d =>
    have hdefault : Conforms root (.object [("default", .string d)]) t :=
      (conforms_remark (by decide)).2 conforms_nil
    rw [← htype, toValue, keywords, conforms_cons, iff_true_intro hdefault, and_true, conforms_cons,
      iff_true_intro conforms_nil, and_true]

theorem conforms_int64 :
    Conforms root int64.toValue t ↔ ∃ x, t = .number x ∧ ∃ n : ℤ, x.rat = n := by
  rw [toValue, keywords, conforms_cons, conforms_remark (by decide), meets_type]
  cases t <;> simp [conforms_nil, Tree.HasType]

theorem conforms_choice {names : List String} :
    Conforms root (choice names).toValue t ↔ ∃ name ∈ names, t = .string name := by
  cases t <;>
    simp [toValue, keywords, conforms_cons, conforms_nil, meets_type, meets_enum, Tree.HasType]

theorem conforms_list {entries : Schema} :
    Conforms root (list entries).toValue t ↔
      ∃ ts, t = .list ts ∧ ∀ u ∈ ts, Conforms root entries.toValue u := by
  cases t <;>
    simp [toValue, keywords, conforms_cons, conforms_nil, meets_type, meets_items, Tree.HasType]

theorem conforms_reference {name : String} :
    Conforms root (reference name).toValue t ↔
      ∃ schema, root.definition? name = some schema ∧ Conforms root schema t := by
  simp [toValue, keywords, conforms_cons, conforms_nil, meets_reference]

theorem conforms_described {description : String} {schema : Schema} :
    Conforms root (described description schema).toValue t ↔ Conforms root schema.toValue t := by
  rw [toValue, keywords, conforms_remark (by decide), toValue]

theorem mem_propertyKeywords {properties : List (String × Schema)} {name : String} {v : Value} :
    (name, v) ∈ propertyKeywords properties ↔
      ∃ schema, (name, schema) ∈ properties ∧ v = schema.toValue := by
  induction properties with
  | nil => simp [propertyKeywords]
  | cons p ps ih =>
    obtain ⟨name', schema⟩ := p
    simp only [propertyKeywords, List.mem_cons, ih, Prod.mk.injEq]
    constructor
    · rintro (⟨rfl, rfl⟩ | ⟨schema', hmem, rfl⟩)
      · exact ⟨schema, .inl ⟨rfl, rfl⟩, rfl⟩
      · exact ⟨schema', .inr hmem, rfl⟩
    · rintro ⟨schema', ⟨rfl, rfl⟩ | hmem, rfl⟩
      · exact .inl ⟨rfl, rfl⟩
      · exact .inr ⟨schema', hmem, rfl⟩

theorem conforms_record {properties : List (String × Schema)} {required : List String} :
    Conforms root (record properties required).toValue t ↔
      ∃ ms, t = .object ms ∧
        (∀ p ∈ properties, ∀ u, (p.1, u) ∈ ms → Conforms root p.2.toValue u) ∧
        ∀ name ∈ required, name ∈ ms.map Prod.fst := by
  have hproperties {ms : List (String × Tree)} :
      (∀ name u, (name, u) ∈ ms → ∀ v, (name, v) ∈ propertyKeywords properties →
        Conforms root v u) ↔
      ∀ p ∈ properties, ∀ u, (p.1, u) ∈ ms → Conforms root p.2.toValue u := by
    simp only [mem_propertyKeywords]
    constructor
    · exact fun h p hp u hu => h p.1 u hu _ ⟨p.2, hp, rfl⟩
    · rintro h name u hu _ ⟨schema, hschema, rfl⟩
      exact h (name, schema) hschema u hu
  rw [toValue, keywords, conforms_cons, conforms_cons, conforms_cons, meets_type,
    meets_properties, meets_required]
  cases t with
  | object ms =>
    simp only [Tree.HasType, Tree.object.injEq, forall_eq', exists_eq_left', hproperties,
      conforms_nil, and_true, true_and]
  | _ => simp [Tree.HasType]

/-- Definitions stand in documents only. -/
theorem lookup_defs_keywords : ∀ s : Schema, s.keywords.lookup "$defs" = none
  | .text none | .text (some _) | .int64 | .choice _ | .list _ | .record _ _ | .reference _ => rfl
  | .described _ s => lookup_defs_keywords s

end Schema

namespace SchemaDocument

/-- Around its schema a document has annotations only. -/
theorem conforms_toValue {d : SchemaDocument} :
    Conforms root d.toValue t ↔ Conforms root d.schema.toValue t := by
  rw [toValue, List.cons_append, List.cons_append, conforms_remark (by decide),
    conforms_remark (by decide), conforms_append]
  exact and_iff_left ((conforms_remark (by decide)).2 conforms_nil)

theorem lookup_map {α β : Type} (f : α → β) (key : String) (ms : List (String × α)) :
    (ms.map fun m => (m.1, f m.2)).lookup key = (ms.lookup key).map f := by
  induction ms with
  | nil => rfl
  | cons m ms ih =>
    obtain ⟨key', a⟩ := m
    rw [List.map_cons, List.lookup_cons, List.lookup_cons]
    cases key == key' with
    | true => rfl
    | false => exact ih

theorem definition?_toValue (d : SchemaDocument) (name : String) :
    d.toValue.definition? name = (d.definitions.lookup name).map Schema.toValue := by
  have hdefs : d.toValue.member? "$defs" =
      some (.object (d.definitions.map fun m => (m.1, m.2.toValue))) := by
    show List.lookup "$defs" (d.schema.keywords ++ _) = _
    rw [List.lookup_append, Schema.lookup_defs_keywords]
    rfl
  rw [Value.definition?, hdefs]
  exact lookup_map Schema.toValue name d.definitions

end SchemaDocument

end VisualRules.Json
