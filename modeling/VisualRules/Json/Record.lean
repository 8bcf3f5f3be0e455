import VisualRules.Json.Reader

/-!
# Records

A record is a table of fields. It is read from an object, whose members may come in any order and
may include unknown ones, or from a list that holds the values in the order of the fields. Values
are collected in a draft, which is turned into the record at the end.
-/

namespace VisualRules.Json

variable {δ α β : Type}

/-- A field of a record that is collected in a draft of type `δ`. -/
structure Field (δ : Type) where
  name : String
  /-- Whether the draft holds the field already. -/
  isRead : δ → Bool
  /-- Reads the value into the draft. -/
  read : δ → Reader δ
  /-- Whether a list may end before the field. -/
  mayEnd : Bool := false

/-- A field whose value is read by `item` and put into its slot of the draft. -/
def Field.slot (name : String) (get : δ → Option β) (set : δ → β → δ) (item : Reader β) :
    Field δ where
  name := name
  isRead d := (get d).isSome
  read d := item.map (set d)

/-- A record: its name in refusals, its fields in their order, and how it is made from a draft. -/
structure Record (δ α : Type) where
  title : String
  blank : δ
  fields : List (Field δ)
  /-- Names the first missing field, if there is one. -/
  finish : δ → Except String α

namespace Record

/-- What a record is called where another type was found. -/
def wanted (r : Record δ α) : String :=
  "struct " ++ r.title

/-- Makes the record from its draft. -/
def settle (r : Record δ α) (d : δ) : Except Refusal α :=
  match r.finish d with
  | .ok a => .ok a
  | .error name => Reader.fail (.missingField name)

/-- Where the next key of an open object starts, after its quote; none when the object ends.
`fresh` holds before the first member. -/
def nextKey (fresh : Bool) (cs : List Char) : Except Refusal (Option (List Char)) :=
  match fresh, dropGap cs with
  | _, [] => Reader.fail .endOfObject
  | _, '}' :: _ => return none
  | true, '"' :: cs => return some cs
  | true, _ => Reader.fail .keyExpected
  | false, ',' :: cs =>
    match dropGap cs with
    | [] => Reader.fail .endOfValue
    | '"' :: cs => return some cs
    | '}' :: _ => Reader.fail .trailingComma
    | _ => Reader.fail .keyExpected
  | false, _ => Reader.fail .objectEndExpected

/-- Passes over the colon after a key. -/
def colon (cs : List Char) : Except Refusal (List Char) :=
  match dropGap cs with
  | [] => Reader.fail .endOfObject
  | ':' :: cs => return cs
  | _ => Reader.fail .colonExpected

/-- Reads a member whose key has been read. A known key may come once; the value of an unknown one
is passed over. -/
def member (fields : List (Field δ)) (key : String) (d : δ) : Reader δ := fun cs =>
  match fields.find? (·.name == key) with
  | some field =>
    if field.isRead d then Reader.fail (.repeatedField key)
    else do
      let cs ← colon cs
      Reader.within (.key key) (field.read d cs)
  | none => do
    let cs ← colon cs
    let cs ← Reader.lift (skipValue cs)
    return (d, cs)

/-- The members of an open object, up to its end. A member takes a character at least, so the
length of the text is enough fuel. -/
def members (fields : List (Field δ)) : Nat → Bool → δ → Reader δ
  | 0, _, _, _ => Reader.fail .endOfObject
  | n + 1, fresh, d, cs => do
    match ← nextKey fresh cs with
    | none => return (d, (dropGap cs).drop 1)
    | some cs =>
      let (key, cs) ← Reader.lift (scanString [] cs)
      let (d, cs) ← member fields (String.ofList key) d cs
      members fields n false d cs

/-- The entries of an open list, taken for the fields in their order; `i` of them have been
read. -/
def positions (r : Record δ α) : Nat → List (Field δ) → δ → Reader δ
  | _, [], d, cs => return (d, cs)
  | i, field :: fields, d, cs => do
    match ← Reader.nextEntry (i = 0) cs with
    | some cs =>
      let (d, cs) ← Reader.within (.index i) (field.read d cs)
      positions r (i + 1) fields d cs
    | none =>
      if field.mayEnd then positions r i fields d cs
      else Reader.fail (.wrongLength i r.title r.fields.length)

/-- A record in either of its two forms. -/
def read (r : Record δ α) : Reader α := fun cs =>
  match dropGap cs with
  | '{' :: cs => do
    let (d, cs) ← members r.fields (cs.length + 1) true r.blank cs
    return (← r.settle d, cs)
  | '[' :: cs => do
    let (d, cs) ← positions r 0 r.fields r.blank cs
    let a ← r.settle d
    return (a, ← Reader.closeList cs)
  | cs => Reader.wrongType r.wanted cs

end Record

end VisualRules.Json
