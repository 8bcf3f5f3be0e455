import VisualRules.Decimal.Reading
import VisualRules.Yaml.Node

/-!
# Fields of a document

Values of a wanted type. Only a plain scalar is ever a number, a truth value or nothing; a text is
what any scalar holds, whatever else it might be read as. Records and lists may be left empty.
-/

namespace VisualRules.Yaml

/-- The full name of a tag of the language. -/
def coreTag (name : String) : String :=
  "tag:yaml.org,2002:" ++ name

namespace Node

/-- Whether a node is a place in which nothing is written. -/
def isEmptyPlain : Node → Bool
  | .scalar "" .plain _ => true
  | _ => false

/-- The text of a scalar. -/
def text? : Node → Option String
  | .scalar text _ _ => some text
  | _ => none

/-- The text of a scalar that may be read as something other than text: a plain one, or a literal
block with the tag for it. -/
def typedText? (tag : String) : Node → Option String
  | .scalar text .plain _ => some text
  | .scalar text .literal t => if t = some (coreTag tag) then some text else none
  | _ => none

/-- The written forms of nothing. -/
def isNothing (text : String) : Bool :=
  ["~", "null", "Null", "NULL"].contains text

/-- A text or nothing. A plain scalar with a tag is a text, unless the tag is that of nothing, which
has to be true of it. -/
def optionalText? : Node → Option (Option String)
  | .scalar text .plain none => some (if text.isEmpty || isNothing text then none else some text)
  | .scalar text .plain (some tag) =>
    if tag ≠ coreTag "null" then some (some text)
    else if isNothing text then some none
    else none
  | .scalar text _ _ => some (some text)
  | _ => none

/-- A truth value. -/
def truth? (x : Node) : Option Bool := do
  let text ← x.typedText? "bool"
  if ["true", "True", "TRUE"].contains text then return true
  if ["false", "False", "FALSE"].contains text then return false
  none

/-- The value of a digit to a base. -/
def digit? (base : Nat) (c : Char) : Option Nat := do
  let d ← hexNumber? [c]
  if d < base then return d else none

/-- The number that digits to a base write; there has to be one. -/
def number? (base : Nat) (cs : List Char) : Option Nat :=
  if cs.isEmpty then none
  else cs.foldl (fun n c => do return (← n) * base + (← digit? base c)) (some 0)

/-- The size of an integer without its sign. In decimal, a zero in front of a digit is no number.
-/
def size? (cs : List Char) : Option Nat :=
  match cs with
  | '0' :: 'x' :: ds => number? 16 ds
  | '0' :: 'o' :: ds => number? 8 ds
  | '0' :: 'b' :: ds => number? 2 ds
  | '0' :: _ :: _ => none
  | ds => number? 10 ds

/-- An integer from zero to a limit. -/
def natural? (limit : Nat) (x : Node) : Option Nat := do
  let text ← x.typedText? "int"
  let n ← match text.toList with
    | '-' :: cs => (size? cs).filter (· = 0)
    | '+' :: cs => size? cs
    | cs => size? cs
  if n ≤ limit then return n else none

/-- A natural number of 16 bits. -/
def word16? (x : Node) : Option UInt16 :=
  (x.natural? 65535).map .ofNat

/-- A natural number of 64 bits. -/
def word64? (x : Node) : Option UInt64 :=
  (x.natural? (UInt64.size - 1)).map .ofNat

/-- A number of 64 bits: a finite decimal, an infinity, or none at all. -/
def double? (x : Node) : Option Float := do
  let text ← x.typedText? "float"
  let cs := text.toList
  let unsigned := match cs with
    | '+' :: cs => cs
    | cs => cs
  let isNamed := fun (cs : List Char) (names : List String) => names.contains (String.ofList cs)
  if isNamed unsigned [".inf", ".Inf", ".INF"] then return 1 / 0
  if isNamed cs ["-.inf", "-.Inf", "-.INF"] then return -1 / 0
  if isNamed cs [".nan", ".NaN", ".NAN"] then return 0 / 0
  if cs.head? = some '+' && unsigned.head?.any (['+', '-'].contains ·) then none
  let number := (← Decimal.ofChars? unsigned).toFloat
  if number.isFinite then return number else none

/-- A number of 32 bits, by way of 64. -/
def single? (x : Node) : Option Float32 :=
  x.double?.map Float.toFloat32

end Node

namespace Document

/-- The texts of a sequence. -/
def texts? (d : Document) (x : Node) : Option (List String) :=
  match x with
  | .sequence items => items.mapM fun item => (d.resolve item).bind Node.text?
  | x => if x.isEmptyPlain then some [] else none

/-- The entries of a record under the names that it knows, each at most once. Other entries are
passed over, but every key has to be a text. -/
def knownEntries (d : Document) (known : List String) :
    List (String × Node) → List (Node × Node) → Option (List (String × Node))
  | found, [] => some found
  | found, (k, v) :: entries => do
    let name ← (← d.resolve k).text?
    if !known.contains name then knownEntries d known found entries
    else if (found.lookup name).isSome then none
    else knownEntries d known ((name, ← d.resolve v) :: found) entries

/-- The fields of a record. -/
def record? (d : Document) (known : List String) (x : Node) : Option (List (String × Node)) :=
  match x with
  | .mapping entries => d.knownEntries known [] entries
  | x => if x.isEmptyPlain then some [] else none

end Document

/-- A field of a record, or its default where it is not given. -/
def fieldOr {α : Type} (fields : List (String × Node)) (name : String) (read : Node → Option α)
    (default : α) : Option α :=
  match fields.lookup name with
  | none => some default
  | some x => read x

end VisualRules.Yaml
