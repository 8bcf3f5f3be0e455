import VisualRules.Json.Value

/-!
# Schemas

A schema describes which JSON values a document may hold. Only what the program describes is
covered: texts, integers of 64 bits, choices, lists, records and references to named definitions.
-/

namespace VisualRules.Json

/-- A description of values. -/
inductive Schema
  | text (default : Option String)
  | int64
  | choice (names : List String)
  | list (entries : Schema)
  | record (properties : List (String × Schema)) (required : List String)
  | reference (name : String)
  | described (description : String) (of : Schema)
deriving Repr, Inhabited

/-- A schema with a title and the definitions it refers to. -/
structure SchemaDocument where
  title : String
  schema : Schema
  definitions : List (String × Schema)

namespace Schema

mutual

/-- The keywords that write a schema down. -/
def keywords : Schema → List (String × Value)
  | .text none => [("type", .string "string")]
  | .text (some d) => [("type", .string "string"), ("default", .string d)]
  | .int64 => [("type", .string "integer"), ("format", .string "int64")]
  | .choice names => [("type", .string "string"), ("enum", .strings names)]
  | .list entries => [("type", .string "array"), ("items", .object entries.keywords)]
  | .record properties required =>
    [("type", .string "object"), ("properties", .object (propertyKeywords properties)),
      ("required", .strings required)]
  | .reference name => [("$ref", .string ("#/$defs/" ++ name))]
  | .described description schema => ("description", .string description) :: schema.keywords

/-- The written schema of each property. -/
def propertyKeywords : List (String × Schema) → List (String × Value)
  | [] => []
  | (name, schema) :: rest => (name, .object schema.keywords) :: propertyKeywords rest

end

/-- The value that writes a schema down. -/
def toValue (s : Schema) : Value :=
  .object s.keywords

end Schema

/-- The dialect that schema documents are written in. -/
def schemaDialect : String :=
  "https://json-schema.org/draft/2020-12/schema"

/-- The value that writes a document down. -/
def SchemaDocument.toValue (d : SchemaDocument) : Value :=
  .object
    (("$schema", .string schemaDialect) :: ("title", .string d.title) :: d.schema.keywords ++
      [("$defs", .object (d.definitions.map fun (name, s) => (name, s.toValue)))])

end VisualRules.Json
