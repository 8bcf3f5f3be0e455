import VisualRules.Text.Blank

/-!
# Media types

The value of a `Content-Type` header: a type and a subtype, perhaps with a suffix behind a plus
sign, and then parameters. Names do not depend on case; the values of parameters keep theirs.
-/

namespace VisualRules

/-- A media type. -/
structure MediaType where
  top : String
  /-- The subtype without its suffix. -/
  subtype : String
  /-- What stands behind the last plus sign of the subtype. -/
  suffix : Option String
  parameters : List (String × String)
  /-- The whole type as text. -/
  text : String
deriving DecidableEq, Repr, Inhabited

namespace MediaType

/-- Characters of names and of values without quotes. -/
def isToken (c : Char) : Bool :=
  c.isAlphanum || "!#$%&'*+-.^_|~`".toList.contains c

/-- Characters of values in quotes. -/
def isQuotable (c : Char) : Bool :=
  ' ' ≤ c && c < '\x7f'

/-- What follows a parameter: the end, or a semicolon in front of the next one. -/
def afterParameter? : List Char → Option (List Char)
  | [] => some []
  | ';' :: cs => some cs
  | _ :: _ => none

/-- A value in quotes whose opening quote has been read. A quote that comes first belongs to the
value, so that a value in quotes is never empty. -/
def quotedValue? : List Char → Option (List Char × List Char)
  | [] => none
  | c :: cs =>
    if !isQuotable c then none
    else
      let inner := fun d => d ≠ '"' && isQuotable d
      match cs.dropWhile inner with
      | '"' :: rest => some (c :: cs.takeWhile inner, rest)
      | _ => none

/-- A value and what follows its parameter. A value without quotes may be empty only at the end. -/
def value? : List Char → Option (List Char × List Char)
  | '"' :: cs => do
    let (value, rest) ← quotedValue? cs
    return (value, ← afterParameter? (rest.dropWhile (· = ' ')))
  | cs =>
    match cs.takeWhile isToken, cs.dropWhile isToken with
    | value, [] => some (value, [])
    | [], _ => none
    | value, rest => (afterParameter? rest).map (value, ·)

/-- A parameter and what follows it. -/
def parameter? (cs : List Char) : Option ((String × String) × List Char) :=
  match cs.takeWhile isToken, cs.dropWhile isToken with
  | [], _ => none
  | name, '=' :: rest =>
    (value? rest).map fun (value, rest) =>
      ((Text.lowerAscii (String.ofList name), String.ofList value), rest)
  | _, _ => none

/-- The parameters in a text; spaces in front of each are ignored. A parameter has two characters
at least, so the length of the text is enough fuel. -/
def parameters? : Nat → List Char → Option (List (String × String))
  | 0, _ => some []
  | n + 1, cs =>
    match cs.dropWhile (· = ' ') with
    | [] => some []
    | cs => do
      let (p, rest) ← parameter? cs
      return p :: (← parameters? n rest)

/-- A subtype without its suffix, and the suffix. A plus sign that comes first starts none. -/
def splitSuffix : List Char → List Char × Option (List Char)
  | [] => ([], none)
  | c :: cs =>
    let back := cs.reverse
    match back.dropWhile (· ≠ '+') with
    | [] => (c :: cs, none)
    | _ :: front => (c :: front.reverse, some (back.takeWhile (· ≠ '+')).reverse)

/-- The media type that a text stands for. -/
def ofText? (s : String) : Option MediaType := do
  let cs := s.toList
  let top := cs.takeWhile isToken
  if top.isEmpty then none
  let '/' :: rest := cs.dropWhile isToken | none
  let subtype := rest.takeWhile isToken
  let essence := Text.lowerAscii (String.ofList (top ++ '/' :: subtype))
  let (parameters, text) ← match rest.dropWhile isToken with
    | [] => some ([], essence)
    | ';' :: tail =>
      if subtype.isEmpty then none
      else
        (parameters? tail.length tail).map fun
          | [] => ([], essence)
          | ps => (ps, essence ++ String.ofList (';' :: tail))
    | _ => none
  let lower := fun cs => Text.lowerAscii (String.ofList cs)
  let (main, suffix) := splitSuffix subtype
  return ⟨lower top, lower main, suffix.map lower, parameters, text⟩

/-- The value of the first parameter with a name. -/
def parameter (m : MediaType) (name : String) : Option String :=
  m.parameters.lookup name

/-- Whether the type is JSON or a format that is written in JSON. -/
def isJson (m : MediaType) : Bool :=
  m.top == "application" && (m.subtype == "json" || m.suffix == some "json")

/-- The boundary of a form, if the type is one that has parts with boundaries between them. -/
def formBoundary? (m : MediaType) : Option String :=
  if m.top == "multipart" && m.subtype == "form-data" then m.parameter "boundary" else none

end MediaType

end VisualRules
