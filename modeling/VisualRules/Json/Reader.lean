import VisualRules.Json.Skip

/-!
# Reading values of a wanted type

A reader takes one value of its type off the front of a text. Readers for strings, 64-bit integers,
lists, absent values and named variants are built here; readers for records in `Json.Record`.
-/

namespace VisualRules.Json

/-- Takes a value off the front of a text. -/
abbrev Reader (α : Type) := List Char → Except Refusal (α × List Char)

namespace Reader

variable {α β : Type}

/-- Refuses the text at the place of the reader. -/
def fail (f : Fault) : Except Refusal α :=
  .error { fault := f }

/-- Turns a fault of a mark into a refusal at the place of the reader. -/
def lift (x : Except Fault α) : Except Refusal α :=
  x.mapError fun f => { fault := f }

/-- Adds a step in front of the place of a refusal. -/
def within (s : Step) (x : Except Refusal α) : Except Refusal α :=
  x.mapError fun r => { r with place := s :: r.place }

/-- Applies a function to the value read. -/
def map (f : α → β) (r : Reader α) : Reader β := fun cs => do
  let (a, cs) ← r cs
  return (f a, cs)

/-- Refuses a value of another type than the wanted one. What has a syntax of its own is read
first, up to the opening bracket of a list or an object; the text starts with a mark. -/
def wrongType (wanted : String) : List Char → Except Refusal α
  | 'n' :: cs => do
    let _ ← lift (scanWord ['u', 'l', 'l'] cs)
    fail (.wrongType .null wanted)
  | 't' :: cs => do
    let _ ← lift (scanWord ['r', 'u', 'e'] cs)
    fail (.wrongType (.boolean true) wanted)
  | 'f' :: cs => do
    let _ ← lift (scanWord ['a', 'l', 's', 'e'] cs)
    fail (.wrongType (.boolean false) wanted)
  | '"' :: cs => do
    let (s, _) ← lift (scanString [] cs)
    fail (.wrongType (.string (String.ofList s)) wanted)
  | '[' :: _ => fail (.wrongType .sequence wanted)
  | '{' :: _ => fail (.wrongType .map wanted)
  | [] => fail .endOfValue
  | c :: cs =>
    if c = '-' || c.isDigit then do
      match ← lift (scanNumber (c :: cs)) with
      | (.integer n, _) => fail (.wrongType (.integer n) wanted)
      | (.decimal d, _) => fail (.wrongType (.decimal d) wanted)
    else fail .valueExpected

/-- A string; `wanted` names the type in a refusal. -/
def stringAs (wanted : String) : Reader String := fun cs =>
  match dropGap cs with
  | '"' :: cs => do
    let (s, cs) ← lift (scanString [] cs)
    return (String.ofList s, cs)
  | cs => wrongType wanted cs

/-- A string. -/
def string : Reader String := stringAs "a string"

/-- The least integer of 64 bits with a sign. -/
def leastInt64 : Int := -9223372036854775808

/-- The greatest integer of 64 bits with a sign. -/
def greatestInt64 : Int := 9223372036854775807

/-- An integer of 64 bits with a sign. -/
def int64 : Reader Int64 := fun cs =>
  match dropGap cs with
  | c :: cs =>
    if c = '-' || c.isDigit then do
      match ← lift (scanNumber (c :: cs)) with
      | (.integer n, rest) =>
        if leastInt64 ≤ n && n ≤ greatestInt64 then return (Int64.ofInt n, rest)
        else fail (.wrongInteger n "i64")
      | (.decimal d, _) => fail (.wrongType (.decimal d) "i64")
    else wrongType "i64" (c :: cs)
  | [] => fail .endOfValue

/-- A value that may be `null` instead. -/
def optional (r : Reader α) : Reader (Option α) := fun cs =>
  match dropGap cs with
  | 'n' :: cs => do
    let cs ← lift (scanWord ['u', 'l', 'l'] cs)
    return (none, cs)
  | cs => do
    let (a, cs) ← r cs
    return (some a, cs)

/-! ## Lists -/

/-- Where the next entry of an open list starts; none when the list ends. `fresh` holds before the
first entry. -/
def nextEntry (fresh : Bool) (cs : List Char) : Except Refusal (Option (List Char)) :=
  match fresh, dropGap cs with
  | _, [] => fail .endOfList
  | _, ']' :: _ => return none
  | true, cs => return some cs
  | false, ',' :: cs =>
    match dropGap cs with
    | [] => fail .endOfValue
    | ']' :: _ => fail .trailingComma
    | cs => return some cs
  | false, _ => fail .listEndExpected

/-- Closes a list in which no further entry is wanted. -/
def closeList (cs : List Char) : Except Refusal (List Char) :=
  match dropGap cs with
  | [] => fail .endOfList
  | ']' :: cs => return cs
  | ',' :: cs =>
    match dropGap cs with
    | ']' :: _ => fail .trailingComma
    | _ => fail .trailingCharacters
  | _ => fail .trailingCharacters

/-- The entries of an open list after those in `read`, which stand in reverse order. An entry takes
a character at least, so the length of the text is enough fuel. -/
def entries (item : Reader α) : Nat → List α → Reader (List α)
  | 0, _, _ => fail .endOfList
  | n + 1, read, cs => do
    match ← nextEntry read.isEmpty cs with
    | none => return (read.reverse, ← closeList cs)
    | some cs =>
      let (a, cs) ← within (.index read.length) (item cs)
      entries item n (a :: read) cs

/-- A list. -/
def list (item : Reader α) : Reader (List α) := fun cs =>
  match dropGap cs with
  | '[' :: cs => entries item (cs.length + 1) [] cs
  | cs => wrongType "a sequence" cs

/-! ## Named variants -/

/-- The value that belongs to a name. -/
def named (known : List (String × α)) (name : String) : Except Refusal α :=
  match known.lookup name with
  | some a => .ok a
  | none => fail (.unknownVariant name (known.map Prod.fst))

/-- The `null` that stands for the missing content of a variant. -/
def noContent : Reader Unit := fun cs =>
  match dropGap cs with
  | 'n' :: cs => do
    let cs ← lift (scanWord ['u', 'l', 'l'] cs)
    return ((), cs)
  | cs => wrongType "unit" cs

/-- One of several names, or an object whose only key is such a name and whose value is `null`. -/
def variant (known : List (String × α)) : Reader α := fun cs =>
  match dropGap cs with
  | '"' :: cs => do
    let (s, cs) ← lift (scanString [] cs)
    let a ← named known (String.ofList s)
    return (a, cs)
  | '{' :: cs => do
    let (name, cs) ← stringAs "variant identifier" cs
    let a ← named known name
    match dropGap cs with
    | [] => fail .endOfObject
    | ':' :: cs =>
      let ((), cs) ← within (.variant name) (noContent cs)
      match dropGap cs with
      | [] => fail .endOfObject
      | '}' :: cs => return (a, cs)
      | _ => fail .valueExpected
    | _ => fail .colonExpected
  | [] => fail .endOfValue
  | _ => fail .valueExpected

/-! ## Whole texts -/

/-- Reads a document and ignores what follows it. -/
def front (r : Reader α) (cs : List Char) : Except Refusal α := do
  let (a, _) ← r cs
  return a

/-- Nothing but white space may follow a document. -/
def atEnd (cs : List Char) : Except Refusal Unit :=
  if (dropGap cs).isEmpty then return () else fail .trailingCharacters

/-- Reads a text that is one document. -/
def whole (r : Reader α) (cs : List Char) : Except Refusal α := do
  let (a, cs) ← r cs
  atEnd cs
  return a

end Reader

end VisualRules.Json
