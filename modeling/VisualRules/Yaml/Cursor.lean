import VisualRules.Text.Blank

/-!
# A place in a YAML text

YAML is laid out by lines and columns, so a reader carries its place along: what follows, and how
many characters, lines and columns lie behind it.
-/

namespace VisualRules.Yaml

/-- Ends a line. -/
def isBreak (c : Char) : Bool :=
  c = '\n' || c = '\r' || [0x85, 0x2028, 0x2029].contains c.toNat

/-- A space or a tab. -/
def isSpace (c : Char) : Bool :=
  c = ' ' || c = '\t'

/-- Whether a place is between words: a space, the end of a line or of the text. -/
def isGap (c : Option Char) : Bool :=
  match c with
  | none => true
  | some c => isSpace c || isBreak c

/-- Whether a place is at the end of a line or of the text. -/
def isLineEnd (c : Option Char) : Bool :=
  match c with
  | none => true
  | some c => isBreak c

/-- Characters that a text may hold. -/
def isAllowed (c : Char) : Bool :=
  let n := c.toNat
  Text.inRanges [(0x09, 0x0A), (0x0D, 0x0D), (0x20, 0x7E), (0x85, 0x85), (0xA0, 0xD7FF),
    (0xE000, 0xFFFD), (0x10000, 0x10FFFF)] n

/-- A place in a text. -/
structure Cursor where
  rest : List Char
  index : Nat
  line : Nat
  column : Nat

namespace Cursor

/-- The place at the front of a text. -/
def start (cs : List Char) : Cursor :=
  ⟨cs, 0, 0, 0⟩

/-- The character at the place. -/
def head (c : Cursor) : Option Char :=
  c.rest.head?

/-- A character behind the place. -/
def ahead (c : Cursor) (k : Nat) : Option Char :=
  c.rest[k]?

/-- Whether a certain character stands at the place. -/
def at_ (c : Cursor) (x : Char) : Bool :=
  c.head = some x

/-- Fuel for a loop that takes a character at least each time. -/
def fuel (c : Cursor) : Nat :=
  c.rest.length + 1

/-- Passes over characters that end no line. -/
def skip (c : Cursor) (n : Nat) : Cursor :=
  ⟨c.rest.drop n, c.index + n, c.line, c.column + n⟩

/-- Passes over the end of a line; a carriage return and a line feed are one. -/
def skipBreak (c : Cursor) : Cursor :=
  let n := match c.rest with
    | '\r' :: '\n' :: _ => 2
    | _ => 1
  ⟨c.rest.drop n, c.index + n, c.line + 1, 0⟩

/-- The end of a line as it counts in a scalar: a line feed, or one of the two separators of
lines and paragraphs. -/
def breakText (c : Cursor) : List Char :=
  match c.head with
  | some x => if x.toNat = 0x2028 || x.toNat = 0x2029 then [x] else ['\n']
  | none => []

/-- Passes over the characters of a class, none of which ends a line, and gives them. -/
def takeWhile (c : Cursor) (p : Char → Bool) : List Char × Cursor :=
  let cs := c.rest.takeWhile p
  (cs, c.skip cs.length)

/-- Passes over the characters of a class. -/
def skipWhile (c : Cursor) (p : Char → Bool) : Cursor :=
  (c.takeWhile p).2

/-- Passes over a comment if one starts here. -/
def skipComment (c : Cursor) : Cursor :=
  if c.at_ '#' then c.skipWhile (!isBreak ·) else c

/-- Whether three equal characters stand alone at the start of a line. -/
def atMark (c : Cursor) (x : Char) : Bool :=
  c.column = 0 && c.rest.take 3 = [x, x, x] && isGap (c.ahead 3)

/-- Whether a document starts or ends here. -/
def atDocumentMark (c : Cursor) : Bool :=
  c.atMark '-' || c.atMark '.'

end Cursor

end VisualRules.Yaml
