import VisualRules.Bytes.Utf8
import VisualRules.Yaml.Scalar

/-!
# Tokens

A text is cut into tokens from left to right. Indentation opens and closes blocks, and a word is
known to be a key only when its colon is met: the place of each word that may turn out to be a key
is kept, one for each flow around it, and the tokens that make it one are put in there.
-/

namespace VisualRules.Yaml

/-- A piece of a text. -/
inductive Token
  /-- The version of the language that the text is written in. -/
  | version (major minor : Nat)
  /-- Declares what a handle stands for. -/
  | tagHandle (handle start : String)
  | documentStart
  | documentEnd
  | blockSequence
  | blockMapping
  | blockEnd
  | flowSequence
  | flowSequenceEnd
  | flowMapping
  | flowMappingEnd
  | entry
  | flowEntry
  | key
  | value
  | alias (name : String)
  | anchor (name : String)
  | tag (handle suffix : String)
  | scalar (text : String) (style : Style)
deriving DecidableEq, Repr, Inhabited

/-! ## Names, tags and directives -/

/-- Characters of a name. -/
def isNameChar (c : Char) : Bool :=
  c.isAlphanum || c = '_' || c = '-'

/-- The name of an anchor or an alias. -/
def scanName (c : Cursor) : Option (String × Cursor) :=
  let (name, c) := c.takeWhile isNameChar
  let isEnd := isGap c.head || c.head.any (['?', ':', ',', ']', '}', '%', '@', '`'].contains ·)
  if name.isEmpty || !isEnd then none else some (String.ofList name, c)

/-- The handle of a tag, between exclamation marks. Outside a directive the second may be missing;
in one only the handle of a single mark does without it. -/
def scanHandle (inDirective : Bool) (c : Cursor) : Option (String × Cursor) :=
  if !c.at_ '!' then none
  else
    let (name, c) := (c.skip 1).takeWhile isNameChar
    if c.at_ '!' then some (String.ofList ('!' :: name ++ ['!']), c.skip 1)
    else if inDirective && !name.isEmpty then none
    else some (String.ofList ('!' :: name), c)

/-- Characters of the suffix of a tag. -/
def isTagChar (full : Bool) (c : Char) : Bool :=
  isNameChar c || [';', '/', '?', ':', '@', '&', '=', '+', '$', '.', '!', '~', '*', '\'', '(', ')',
    '%'].contains c || (full && [',', '[', ']'].contains c)

/-- The bytes that percent signs and two digits each stand for. -/
def escapedBytes? : List Char → Option (List UInt8)
  | [] => some []
  | '%' :: a :: b :: cs => do
    let n ← hexNumber? [a, b]
    let bs ← escapedBytes? cs
    return UInt8.ofNat n :: bs
  | _ => none

/-- The length that the first byte of a character gives. -/
def byteCount? (b : UInt8) : Option Nat :=
  if b < 0x80 then some 1
  else if b &&& 0xE0 = 0xC0 then some 2
  else if b &&& 0xF0 = 0xE0 then some 3
  else if b &&& 0xF8 = 0xF0 then some 4
  else none

/-- Reads percent signs in the suffix of a tag: each run of escapes writes one character in bytes.
-/
def unescapeTag : Nat → List Char → Option (List Char)
  | 0, _ => none
  | _ + 1, [] => some []
  | n + 1, '%' :: cs => do
    let first ← escapedBytes? ('%' :: cs.take 2)
    let count ← first.head?.bind byteCount?
    let bytes ← escapedBytes? (('%' :: cs).take (3 * count))
    if bytes.length < count || (bytes.drop 1).any (· &&& 0xC0 ≠ 0x80) then none
    let rest ← unescapeTag n (('%' :: cs).drop (3 * count))
    return Bytes.toChars bytes ++ rest
  | n + 1, c :: cs => (unescapeTag n cs).map (c :: ·)

/-- The suffix of a tag behind a start that has been read already. -/
def scanSuffix (full : Bool) (start : List Char) (c : Cursor) : Option (String × Cursor) := do
  let (written, c) := c.takeWhile (isTagChar full)
  let text ← unescapeTag (written.length + 1) written
  if start.isEmpty && text.isEmpty then none
  return (String.ofList (start.drop 1 ++ text), c)

/-- A tag: a whole name in angle brackets, or a handle and a suffix. The mark alone has no handle.
-/
def scanTag (inFlow : Bool) (c : Cursor) : Option (Token × Cursor) := do
  let (token, c) ← do
    if c.ahead 1 = some '<' then
      let (suffix, c) ← scanSuffix true [] (c.skip 2)
      if !c.at_ '>' then none
      pure (Token.tag "" suffix, c.skip 1)
    else
      let (handle, c) ← scanHandle false c
      if handle ≠ "!" && handle.endsWith "!" then
        let (suffix, c) ← scanSuffix false [] c
        pure (Token.tag handle suffix, c)
      else
        let (suffix, c) ← scanSuffix false handle.toList c
        pure (if suffix.isEmpty then Token.tag "" "!" else Token.tag "!" suffix, c)
  if isGap c.head || (inFlow && c.at_ ',') then return (token, c) else none

/-- A number of at most nine digits in a version. -/
def scanVersionNumber (c : Cursor) : Option (Nat × Cursor) :=
  let (digits, c) := c.takeWhile Char.isDigit
  if digits.isEmpty || 9 < digits.length then none
  else some (digits.foldl (fun n d => n * 10 + (d.toNat - 48)) 0, c)

/-- A directive: a line of its own that starts with a percent sign. -/
def scanDirective (c : Cursor) : Option (Token × Cursor) := do
  let (name, c) := (c.skip 1).takeWhile isNameChar
  if !isGap c.head then none
  let c := c.skipWhile isSpace
  let (token, c) ← match String.ofList name with
    | "YAML" => do
      let (major, c) ← scanVersionNumber c
      if !c.at_ '.' then none
      let (minor, c) ← scanVersionNumber (c.skip 1)
      pure (Token.version major minor, c)
    | "TAG" => do
      let (handle, c) ← scanHandle true c
      if !(c.head.any isSpace) then none
      let (start, c) ← scanSuffix true [] (c.skipWhile isSpace)
      if !isGap c.head then none
      pure (Token.tagHandle handle start, c)
    | _ => none
  let c := (c.skipWhile isSpace).skipComment
  if !isLineEnd c.head then none
  return (token, if c.head.isNone then c else c.skipBreak)

/-! ## Scanning -/

/-- Where a key may have started: the number of tokens in front of it and its place. In a block, a
word at the indentation of a mapping has to be a key. -/
structure KeyPlace where
  number : Nat
  index : Nat
  line : Nat
  column : Nat
  isRequired : Bool

/-- A text that is being cut up. -/
structure Scan where
  cursor : Cursor
  tokens : Array Token := #[]
  /-- The indentation of the block, and of those around it, innermost first; none is minus one. -/
  indent : Int := -1
  outer : List Int := []
  /-- Whether a key may start here. -/
  allowsKey : Bool := true
  /-- Where the key of the innermost flow may have started, and those of what is around it. -/
  keyPlace : Option KeyPlace := none
  outerPlaces : List (Option KeyPlace) := []

namespace Scan

/-- Whether the place is in a flow. -/
def inFlow (s : Scan) : Bool :=
  !s.outerPlaces.isEmpty

/-- Adds a token and passes over a number of characters. -/
def emit (s : Scan) (t : Token) (length : Nat) : Scan :=
  { s with tokens := s.tokens.push t, cursor := s.cursor.skip length }

/-- Puts a token behind the first `number` tokens. -/
def insert (s : Scan) (number : Nat) (t : Token) : Scan :=
  { s with tokens := s.tokens.extract 0 number ++ #[t] ++ s.tokens.extract number s.tokens.size }

/-- Gives up the place of a key, which is an error if there has to be one. -/
def dropKey (s : Scan) : Option Scan :=
  if s.keyPlace.any (·.isRequired) then none else some { s with keyPlace := none }

/-- Notes that a key may start here. -/
def noteKey (s : Scan) : Option Scan :=
  if !s.allowsKey then some s
  else do
    let s ← s.dropKey
    let isRequired := !s.inFlow && s.indent = s.cursor.column
    let c := s.cursor
    return { s with keyPlace := some ⟨s.tokens.size, c.index, c.line, c.column, isRequired⟩ }

/-- Whether a key that starts at a place can still end at the cursor: keys are on one line and not
long. -/
def isFresh (c : Cursor) (k : KeyPlace) : Bool :=
  !(k.line < c.line || k.index + 1024 < c.index)

/-- Gives up the places of keys that can no longer end. -/
def dropStaleKeys (s : Scan) : Option Scan :=
  let isLost := fun (k : Option KeyPlace) =>
    k.any fun k => !isFresh s.cursor k && k.isRequired
  let fresh := fun (k : Option KeyPlace) => k.filter (isFresh s.cursor)
  if isLost s.keyPlace || s.outerPlaces.any isLost then none
  else some { s with keyPlace := fresh s.keyPlace, outerPlaces := s.outerPlaces.map fresh }

/-- Opens a block at a column to the right of the present one; its token goes behind the first
`number` tokens. -/
def openBlock (s : Scan) (column number : Nat) (t : Token) : Scan :=
  if s.inFlow || (column : Int) ≤ s.indent then s
  else { s.insert number t with indent := column, outer := s.indent :: s.outer }

/-- The blocks that a column closes: their number, and the indentations that remain. -/
def closedBlocks (column : Int) (indent : Int) : List Int → Nat × Int × List Int
  | [] => (0, indent, [])
  | next :: outer =>
    if column < indent then
      let (n, indent, outer) := closedBlocks column next outer
      (n + 1, indent, outer)
    else (0, indent, next :: outer)

/-- Closes the blocks to the right of a column. -/
def closeBlocks (s : Scan) (column : Int) : Scan :=
  if s.inFlow then s
  else
    let (n, indent, outer) := closedBlocks column s.indent s.outer
    { s with tokens := s.tokens ++ Array.replicate n .blockEnd, indent := indent, outer := outer }

/-- Passes over spaces, comments and ends of lines. A tab counts as a space only where it cannot
be taken for indentation. -/
def skipBlanks : Nat → Scan → Scan
  | 0, s => s
  | n + 1, s =>
    let c := if s.cursor.column = 0 && s.cursor.at_ '\uFEFF' then s.cursor.skip 1 else s.cursor
    let c := c.skipWhile fun x => x = ' ' || ((s.inFlow || !s.allowsKey) && x = '\t')
    let c := c.skipComment
    if c.head.any isBreak then
      skipBlanks n { s with cursor := c.skipBreak, allowsKey := s.allowsKey || !s.inFlow }
    else { s with cursor := c }

/-! ### One token each -/

/-- A line of three equal marks. -/
def documentMark (s : Scan) (t : Token) : Option Scan := do
  let s ← (s.closeBlocks (-1)).dropKey
  return { s.emit t 3 with allowsKey := false }

def directive (s : Scan) : Option Scan := do
  let s ← (s.closeBlocks (-1)).dropKey
  let (t, c) ← scanDirective s.cursor
  return { s with tokens := s.tokens.push t, cursor := c, allowsKey := false }

def flowStart (s : Scan) (t : Token) : Option Scan := do
  let s ← s.noteKey
  return { s.emit t 1 with
    keyPlace := none, outerPlaces := s.keyPlace :: s.outerPlaces, allowsKey := true }

def flowEnd (s : Scan) (t : Token) : Option Scan := do
  let s ← s.dropKey
  let s := match s.outerPlaces with
    | [] => s
    | k :: ks => { s with keyPlace := k, outerPlaces := ks }
  return { s.emit t 1 with allowsKey := false }

def flowEntry (s : Scan) : Option Scan := do
  let s ← s.dropKey
  return { s.emit .flowEntry 1 with allowsKey := true }

/-- A dash or a mark of a key opens a block where no key has been read on the line. -/
def opener (s : Scan) (block t : Token) (allowsKey : Bool) : Option Scan := do
  if !s.inFlow && !s.allowsKey then none
  let s ← (s.openBlock s.cursor.column s.tokens.size block).dropKey
  return { s.emit t 1 with allowsKey := allowsKey }

/-- A colon makes a key of what may be one. -/
def value (s : Scan) : Option Scan :=
  match s.keyPlace with
  | some k =>
    let s := (s.insert k.number .key).openBlock k.column k.number .blockMapping
    some { s.emit .value 1 with keyPlace := none, allowsKey := false }
  | none =>
    if s.inFlow then some { s.emit .value 1 with allowsKey := false }
    else if !s.allowsKey then none
    else
      let s := s.openBlock s.cursor.column s.tokens.size .blockMapping
      some { s.emit .value 1 with allowsKey := true }

/-- What may be a key and is read in one go. -/
def word (s : Scan) (read : Scan → Option (Token × Cursor)) : Option Scan := do
  let s ← s.noteKey
  let (t, c) ← read s
  return { s with tokens := s.tokens.push t, cursor := c, allowsKey := false }

def named (s : Scan) (t : String → Token) : Option Scan :=
  s.word fun s => (scanName (s.cursor.skip 1)).map fun (name, c) => (t name, c)

def quoted (s : Scan) (quote : Char) : Option Scan :=
  s.word fun s => (scanQuoted quote s.cursor.fuel [] (s.cursor.skip 1)).map fun (text, c) =>
    (.scalar (String.ofList text) .quoted, c)

def plain (s : Scan) : Option Scan := do
  let s ← s.noteKey
  let (text, broken, c) ← scanPlain s.inFlow (s.indent + 1).toNat s.cursor.fuel [] {} s.cursor
  return { s with
    tokens := s.tokens.push (.scalar (String.ofList text) .plain), cursor := c,
    allowsKey := broken }

def block (s : Scan) (folded : Bool) : Option Scan := do
  let s ← s.dropKey
  let (text, c) ← scanBlock folded s.indent (s.cursor.skip 1)
  let t := Token.scalar (String.ofList text) (if folded then .folded else .literal)
  return { s with tokens := s.tokens.push t, cursor := c, allowsKey := true }

/-- Characters that start no plain scalar of themselves. -/
def isIndicator (x : Char) : Bool :=
  ['-', '?', ':', ',', '[', ']', '{', '}', '#', '&', '*', '!', '|', '>', '\'', '"', '%', '@',
    '`'].contains x

/-- Whether a plain scalar starts here. A dash does in front of a word, and so do a question mark
and a colon in a block. -/
def startsPlain (s : Scan) (x : Char) : Bool :=
  let next := s.cursor.ahead 1
  !(isSpace x || isBreak x || isIndicator x) ||
    (x = '-' && !(next.any isSpace)) ||
    (!s.inFlow && (x = '?' || x = ':') && !isGap next)

/-- The token that starts at a character. -/
def step (s : Scan) (x : Char) : Option Scan :=
  let c := s.cursor
  let beforeGap := isGap (c.ahead 1)
  if c.column = 0 && x = '%' then s.directive
  else if c.atMark '-' then s.documentMark .documentStart
  else if c.atMark '.' then s.documentMark .documentEnd
  else if x = '[' then s.flowStart .flowSequence
  else if x = '{' then s.flowStart .flowMapping
  else if x = ']' then s.flowEnd .flowSequenceEnd
  else if x = '}' then s.flowEnd .flowMappingEnd
  else if x = ',' then s.flowEntry
  else if x = '-' && beforeGap then s.opener .blockSequence .entry true
  else if x = '?' && (s.inFlow || beforeGap) then s.opener .blockMapping .key !s.inFlow
  else if x = ':' && (s.inFlow || beforeGap) then s.value
  else if x = '*' then s.named .alias
  else if x = '&' then s.named .anchor
  else if x = '!' then s.word fun s => scanTag s.inFlow s.cursor
  else if x = '|' && !s.inFlow then s.block false
  else if x = '>' && !s.inFlow then s.block true
  else if x = '\'' || x = '"' then s.quoted x
  else if s.startsPlain x then s.plain
  else none

/-- All tokens up to the end of the text, where every block closes. -/
def run : Nat → Scan → Option (List Token)
  | 0, _ => none
  | n + 1, s => do
    let s ← (s.skipBlanks s.cursor.fuel).dropStaleKeys
    let s := s.closeBlocks s.cursor.column
    match s.cursor.head with
    | some x => do
      let s ← s.step x
      run n s
    | none => do
      let s ← (s.closeBlocks (-1)).dropKey
      return s.tokens.toList

end Scan

/-- The tokens of a text; `none` if it is none of the language. -/
def Token.ofText? (text : String) : Option (List Token) :=
  let cs := text.toList
  if cs.all isAllowed then
    let c := Cursor.start cs
    Scan.run c.fuel { cursor := c }
  else none

end VisualRules.Yaml
