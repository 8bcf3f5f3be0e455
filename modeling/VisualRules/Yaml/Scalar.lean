import VisualRules.Yaml.Cursor

/-!
# Scalars

The written forms of a text: plain words, quoted text with or without escapes, and blocks of lines
that are kept or folded. Lines of a plain or quoted scalar are joined by a space, and each further
empty line in between counts as a line feed.
-/

namespace VisualRules.Yaml

/-- How a scalar is written. -/
inductive Style
  | plain
  | quoted
  | literal
  | folded
deriving DecidableEq, Repr, Inhabited

/-! ## Gaps between words -/

/-- What stands between two words: spaces in reverse order until a line ends, the first end of a
line, and the later ones in reverse order. -/
structure Gap where
  spaces : List Char := []
  broken : Bool := false
  first : List Char := []
  later : List Char := []

/-- What a gap counts as. -/
def Gap.text (g : Gap) : List Char :=
  if !g.broken then g.spaces.reverse
  else if g.first = ['\n'] then (if g.later.isEmpty then [' '] else g.later.reverse)
  else g.first ++ g.later.reverse

/-- Passes over a gap. A tab in front of column `tabs` is refused at the start of a line. -/
def scanGap (tabs : Nat) : Nat → Gap → Cursor → Option (Gap × Cursor)
  | 0, g, c => some (g, c)
  | n + 1, g, c =>
    match c.head with
    | none => some (g, c)
    | some x =>
      if isSpace x then
        if g.broken then
          if x = '\t' && c.column < tabs then none else scanGap tabs n g (c.skip 1)
        else scanGap tabs n { g with spaces := x :: g.spaces } (c.skip 1)
      else if isBreak x then
        if g.broken then
          scanGap tabs n { g with later := c.breakText.reverse ++ g.later } c.skipBreak
        else scanGap tabs n { g with broken := true, first := c.breakText } c.skipBreak
      else some (g, c)

/-! ## Plain scalars -/

/-- Characters that structure a flow. -/
def isFlowMark (c : Char) : Bool :=
  [',', '[', ']', '{', '}'].contains c

/-- Passes over a word of a plain scalar. It ends at a colon in front of a gap and, in a flow, at
a mark; there a colon may not stand in front of a mark. -/
def scanWord (inFlow : Bool) : Nat → List Char → Cursor → Option (List Char × Cursor)
  | 0, word, c => some (word, c)
  | n + 1, word, c =>
    match c.head with
    | none => some (word, c)
    | some x =>
      if isSpace x || isBreak x then some (word, c)
      else if inFlow && x = ':' && ((c.ahead 1).map fun y => isFlowMark y || y = '?') = some true
      then none
      else if (x = ':' && isGap (c.ahead 1)) || (inFlow && isFlowMark x) then some (word, c)
      else scanWord inFlow n (x :: word) (c.skip 1)

/-- The words of a plain scalar and whether a line ended behind the last one. `text` is in reverse
order. In a block the lines must be indented by `indent` at least. -/
def scanPlain (inFlow : Bool) (indent : Nat) :
    Nat → List Char → Gap → Cursor → Option (List Char × Bool × Cursor)
  | 0, text, g, c => some (text.reverse, g.broken, c)
  | n + 1, text, g, c =>
    if c.atDocumentMark || c.at_ '#' then some (text.reverse, g.broken, c)
    else do
      let (word, c') ← scanWord inFlow c.fuel [] c
      let text := if word.isEmpty then text else word ++ (g.text.reverse ++ text)
      let broken := word.isEmpty && g.broken
      match c'.head with
      | none => return (text.reverse, broken, c')
      | some x =>
        if !(isSpace x || isBreak x) then return (text.reverse, broken, c')
        else
          let (g, c') ← scanGap indent c'.fuel { broken := broken } c'
          if !inFlow && c'.column < indent then return (text.reverse, g.broken, c')
          else scanPlain inFlow indent n text g c'

/-! ## Quoted scalars -/

/-- The character that a one-letter escape stands for. -/
def escaped? (c : Char) : Option Char :=
  [ ('0', 0x00), ('a', 0x07), ('b', 0x08), ('t', 0x09), ('\t', 0x09), ('n', 0x0A), ('v', 0x0B),
    ('f', 0x0C), ('r', 0x0D), ('e', 0x1B), (' ', 0x20), ('"', 0x22), ('/', 0x2F), ('\\', 0x5C),
    ('N', 0x85), ('_', 0xA0), ('L', 0x2028), ('P', 0x2029) ].lookup c |>.map Char.ofNat

/-- The number of digits after the letter of an escape by number. -/
def escapeDigits? (c : Char) : Option Nat :=
  [('x', 2), ('u', 4), ('U', 8)].lookup c

/-- The number that hexadecimal digits write. -/
def hexNumber? (cs : List Char) : Option Nat :=
  cs.foldl (fun n c => do
    let n ← n
    if c.isDigit then some (n * 16 + (c.toNat - 48))
    else if 'a' ≤ c && c ≤ 'f' then some (n * 16 + (c.toNat - 87))
    else if 'A' ≤ c && c ≤ 'F' then some (n * 16 + (c.toNat - 55))
    else none) (some 0)

/-- The character of an escape, behind its backslash. -/
def scanEscape (c : Cursor) : Option (Char × Cursor) := do
  let x ← c.head
  match escaped? x with
  | some y => return (y, c.skip 1)
  | none =>
    let k ← escapeDigits? x
    let digits := (c.rest.drop 1).take k
    if digits.length < k then none
    let n ← hexNumber? digits
    if (0xD800 ≤ n && n ≤ 0xDFFF) || 0x10FFFF < n then none
    return (Char.ofNat n, c.skip (k + 1))

/-- Passes over characters of a quoted scalar up to a gap or its end; `true` when a line ended
behind a backslash. `text` is in reverse order. -/
def scanQuotedWord (quote : Char) : Nat → List Char → Cursor → Option (List Char × Bool × Cursor)
  | 0, text, c => some (text, false, c)
  | n + 1, text, c =>
    match c.head with
    | none => some (text, false, c)
    | some x =>
      if isSpace x || isBreak x then some (text, false, c)
      else if quote ≠ '"' && x = quote && c.ahead 1 = some quote then
        scanQuotedWord quote n (quote :: text) (c.skip 2)
      else if x = quote then some (text, false, c)
      else if quote = '"' && x = '\\' then
        if ((c.ahead 1).map isBreak) = some true then some (text, true, (c.skip 1).skipBreak)
        else do
          let (y, c) ← scanEscape (c.skip 1)
          scanQuotedWord quote n (y :: text) c
      else scanQuotedWord quote n (x :: text) (c.skip 1)

/-- The text of a quoted scalar whose opening quote has been read. -/
def scanQuoted (quote : Char) : Nat → List Char → Cursor → Option (List Char × Cursor)
  | 0, _, _ => none
  | n + 1, text, c => do
    if c.atDocumentMark || c.head.isNone then none
    let (text, joined, c) ← scanQuotedWord quote c.fuel text c
    if !joined && c.at_ quote then return (text.reverse, c.skip 1)
    let (g, c) ← scanGap 0 c.fuel { broken := joined } c
    scanQuoted quote n (g.text.reverse ++ text) c

/-! ## Block scalars -/

/-- What happens to the line ends behind the last line of a block. -/
inductive Chomping
  | strip
  | clip
  | keep
deriving DecidableEq, Repr

/-- The indicator of a chomping. -/
def chomping? (c : Char) : Option Chomping :=
  if c = '+' then some .keep else if c = '-' then some .strip else none

/-- The two indicators behind the mark of a block, in any order: chomping and indentation. -/
def scanBlockHeader (c : Cursor) : Option (Chomping × Option Nat × Cursor) :=
  let chomp := fun (c : Cursor) => match c.head.bind chomping? with
    | some k => (k, c.skip 1)
    | none => (.clip, c)
  let digit := fun (c : Cursor) => match c.head with
    | some x =>
      if x = '0' then none
      else if x.isDigit then some (some (x.toNat - 48), c.skip 1)
      else some (none, c)
    | none => some (none, c)
  do
    if (c.head.map Char.isDigit) = some true then
      let (d, c) ← digit c
      let (k, c) := chomp c
      return (k, d, c)
    else
      let (k, c) := chomp c
      if k = .clip then return (k, none, c)
      let (d, c) ← digit c
      return (k, d, c)

/-- Passes over empty lines and the indentation of the next line; with no indentation set, notes
the deepest one. A tab in place of the indentation is refused. `breaks` is in reverse order. -/
def scanBreaks (indent : Option Nat) :
    Nat → Nat → List Char → Cursor → Option (Nat × List Char × Cursor)
  | 0, deepest, breaks, c => some (deepest, breaks, c)
  | n + 1, deepest, breaks, c =>
    let spaces := (c.rest.takeWhile (· = ' ')).length
    let c := c.skip (match indent with
      | none => spaces
      | some k => min spaces (k - c.column))
    let deepest := max deepest c.column
    if (indent.all (c.column < ·)) && c.at_ '\t' then none
    else
      match c.head with
      | some x =>
        if isBreak x then scanBreaks indent n deepest (c.breakText.reverse ++ breaks) c.skipBreak
        else some (deepest, breaks, c)
      | none => some (deepest, breaks, c)

/-- A block under way: its text in reverse order, the end of the line before, the ends of the
empty lines after it in reverse order, and whether that line started with a space. -/
structure Block where
  text : List Char := []
  lineEnd : List Char := []
  breaks : List Char := []
  wasSpaced : Bool := false

/-- What stands between two lines of a block. -/
def Block.joint (b : Block) (folded isSpaced : Bool) : List Char :=
  if folded && b.lineEnd = ['\n'] && !b.wasSpaced && !isSpaced then
    (if b.breaks.isEmpty then [' '] else []) ++ b.breaks.reverse
  else b.lineEnd ++ b.breaks.reverse

/-- The lines of a block. -/
def scanLines (folded : Bool) (indent : Nat) : Nat → Block → Cursor → Option (Block × Cursor)
  | 0, b, c => some (b, c)
  | n + 1, b, c =>
    match c.head with
    | none => some (b, c)
    | some x =>
      if c.column ≠ indent then some (b, c)
      else do
        let isSpaced := isSpace x
        let (line, c) := c.takeWhile (!isBreak ·)
        let text := line.reverse ++ ((b.joint folded isSpaced).reverse ++ b.text)
        let lineEnd := c.breakText
        let c := if c.head.isNone then c else c.skipBreak
        let (_, breaks, c) ← scanBreaks (some indent) c.fuel 0 [] c
        scanLines folded indent n ⟨text, lineEnd, breaks, isSpaced⟩ c

/-- The text of a block scalar, behind its mark. `outer` is the indentation of the block around
it, minus one for none. -/
def scanBlock (folded : Bool) (outer : Int) (c : Cursor) : Option (List Char × Cursor) := do
  let (chomping, increment, c) ← scanBlockHeader c
  let c := (c.skipWhile isSpace).skipComment
  if !isLineEnd c.head then none
  let c := if c.head.isNone then c else c.skipBreak
  let given := increment.map fun k => (if 0 ≤ outer then outer.toNat + k else k)
  let (deepest, breaks, c) ← scanBreaks given c.fuel 0 [] c
  let indent := given.getD (max deepest (max (outer + 1).toNat 1))
  let (b, c) ← scanLines folded indent c.fuel { breaks := breaks } c
  let lineEnd := if chomping = .strip then [] else b.lineEnd
  let breaks := if chomping = .keep then b.breaks.reverse else []
  return (b.text.reverse ++ lineEnd ++ breaks, c)

end VisualRules.Yaml
