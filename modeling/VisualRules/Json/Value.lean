import VisualRules.Json.Fault

/-!
# JSON values and their text

Values as the program writes them: an object keeps its members in the order given. A text is written
either without any white space or with one entry a line, indented by two spaces.
-/

namespace VisualRules.Json

/-- A JSON value. -/
inductive Value
  | null
  | boolean (b : Bool)
  | integer (n : Int)
  | decimal (d : Decimal)
  | string (s : String)
  | list (entries : List Value)
  | object (members : List (String × Value))
deriving Repr, Inhabited

namespace Value

/-- A list of strings. -/
def strings (ss : List String) : Value :=
  .list (ss.map .string)

/-- A string, or `null` without one. -/
def ofOption : Option String → Value
  | some s => .string s
  | none => .null

/-- A decimal number; what has no decimal is written as `null`. -/
def ofDecimal? : Option Decimal → Value
  | some d => .decimal d
  | none => .null

/-! ## Writing -/

/-- How a character stands in a written string. -/
def escapeChar (c : Char) : List Char :=
  match c with
  | '"' => ['\\', '"']
  | '\\' => ['\\', '\\']
  | '\n' => ['\\', 'n']
  | '\r' => ['\\', 'r']
  | '\t' => ['\\', 't']
  | '\x08' => ['\\', 'b']
  | '\x0c' => ['\\', 'f']
  | c =>
    if c < ' ' then
      '\\' :: 'u' :: Decimal.padded 4 (Nat.toDigits 16 c.toNat)
    else [c]

/-- A string between its quotes. -/
def writeString (s : String) : List Char :=
  '"' :: (s.toList.flatMap escapeChar ++ ['"'])

/-- An integer in decimal digits. -/
def writeInteger (n : Int) : List Char :=
  if n < 0 then '-' :: Decimal.digits n.natAbs else Decimal.digits n.natAbs

/-- What one level of a text is set in: nothing, or a new line with its indentation. -/
inductive Setting
  | compact
  | indented (depth : Nat)

namespace Setting

/-- The setting of the entries of a bracket. -/
def inner : Setting → Setting
  | .compact => .compact
  | .indented depth => .indented (depth + 1)

/-- What stands in front of an entry and of a closing bracket. -/
def lineBreak : Setting → List Char
  | .compact => []
  | .indented depth => '\n' :: List.replicate (2 * depth) ' '

/-- What stands between a key and its value. -/
def colon : Setting → List Char
  | .compact => [':']
  | .indented _ => [':', ' ']

end Setting

mutual

/-- The text of a value. -/
def write (s : Setting) : Value → List Char
  | .null => ['n', 'u', 'l', 'l']
  | .boolean true => ['t', 'r', 'u', 'e']
  | .boolean false => ['f', 'a', 'l', 's', 'e']
  | .integer n => writeInteger n
  | .decimal d => (d.text numberStyle).toList
  | .string t => writeString t
  | .list [] => ['[', ']']
  | .list (v :: vs) =>
    '[' :: (s.inner.lineBreak ++ write s.inner v ++ writeEntries s.inner vs ++ s.lineBreak ++ [']'])
  | .object [] => ['{', '}']
  | .object ((key, v) :: ms) =>
    '{' :: (s.inner.lineBreak ++ writeString key ++ s.colon ++ write s.inner v ++
      writeMembers s.inner ms ++ s.lineBreak ++ ['}'])

/-- The entries of a list after the first. -/
def writeEntries (s : Setting) : List Value → List Char
  | [] => []
  | v :: vs => ',' :: (s.lineBreak ++ write s v ++ writeEntries s vs)

/-- The members of an object after the first. -/
def writeMembers (s : Setting) : List (String × Value) → List Char
  | [] => []
  | (key, v) :: ms =>
    ',' :: (s.lineBreak ++ writeString key ++ s.colon ++ write s v ++ writeMembers s ms)

end

/-- The text of a value without white space. -/
def text (v : Value) : String :=
  String.ofList (v.write .compact)

/-- The text of a value with one entry a line. -/
def prettyText (v : Value) : String :=
  String.ofList (v.write (.indented 0))

end Value

end VisualRules.Json
