import VisualRules.Bytes.Search
import VisualRules.Http.MediaType

/-!
# Heads of parts

Each part of a form starts with header lines that name the part, and its file if it has one.
-/

namespace VisualRules

/-- A header line; the name is in lower case. -/
structure HeaderLine where
  name : String
  value : Bytes
deriving DecidableEq, Repr

/-- What the head of a part says. -/
structure PartHead where
  name : Option String
  fileName : Option String
  contentType : Option String
deriving DecidableEq, Repr, Inhabited

namespace HeaderLine

/-- Bytes of header names. -/
def isNameByte (b : UInt8) : Bool :=
  MediaType.isToken (Char.ofNat b.toNat)

/-- Bytes of header values: no controls but the tab. -/
def isValueByte (b : UInt8) : Bool :=
  b = 9 || 32 ≤ b && b ≠ 127

/-- A space or a tab. -/
def isPadding (b : UInt8) : Bool :=
  b = 32 || b = 9

/-- What follows the end of a line; a line feed alone ends a line too. -/
def afterEnd? : Bytes → Option Bytes
  | 13 :: 10 :: bs => some bs
  | 10 :: bs => some bs
  | _ => none

/-- A header line and what follows it. Padding around the value is ignored. -/
def read? (bs : Bytes) : Option (HeaderLine × Bytes) :=
  match bs.takeWhile isNameByte, bs.dropWhile isNameByte with
  | [], _ => none
  | name, 58 :: rest =>
    let rest := rest.dropWhile isPadding
    let value := ((rest.takeWhile isValueByte).reverse.dropWhile isPadding).reverse
    (afterEnd? (rest.dropWhile isValueByte)).map fun tail =>
      (⟨Text.lowerAscii (Bytes.toText name), value⟩, tail)
  | _, _ => none

/-- The lines up to the first empty one, if they are not more than a number. -/
def readAll? : Nat → Bytes → Option (List HeaderLine)
  | 0, bs => (afterEnd? bs).map fun _ => []
  | n + 1, bs =>
    match afterEnd? bs with
    | some _ => some []
    | none => do
      let (line, rest) ← read? bs
      return line :: (← readAll? n rest)

/-- The value of the last line with a name. -/
def value? (lines : List HeaderLine) (name : String) : Option Bytes :=
  (lines.reverse.find? (·.name == name)).map (·.value)

end HeaderLine

/-! ## Attributes -/

namespace PartHead

/-- White space between the words of a header value. -/
def isSpaceByte (b : UInt8) : Bool :=
  b = 32 || 9 ≤ b && b ≤ 13 && b ≠ 11

/-- A value in quotes whose opening quote has been read. A backslash takes a quote into the
value. -/
def unquoted? : Bytes → Option Bytes
  | [] => none
  | 34 :: _ => some []
  | 92 :: 34 :: bs => (unquoted? bs).map (34 :: ·)
  | b :: bs => (unquoted? bs).map (b :: ·)

/-- The value of an attribute whose name has been read. -/
def attributeValue? (bs : Bytes) : Option Bytes :=
  match bs.dropWhile isSpaceByte with
  | 61 :: rest =>
    match rest.dropWhile isSpaceByte with
    | 34 :: quoted => unquoted? quoted
    | plain => some (plain.takeWhile fun b => b ≠ 59 && b ≠ 32)
  | _ => none

/-- The value of an attribute by its name. The name has to start the text or to follow white space
or a semicolon; an occurrence that does not is passed over. Each one takes a byte at least, so the
number of bytes is enough fuel. -/
def findAttribute? (name : Bytes) : Nat → Bytes → Option Bytes
  | 0, _ => none
  | n + 1, bs =>
    match Bytes.cut? name bs with
    | none => none
    | some (before, behind) =>
      if before.getLast?.all (fun b => isSpaceByte b || b = 59) then attributeValue? behind
      else findAttribute? name n behind

/-- The value of an attribute, if it is text. -/
def attribute? (name : String) (value : Bytes) : Option String :=
  ((findAttribute? (Bytes.ofText name) (value.length + 1) value).filter Bytes.isText).map
    Bytes.toText

/-- What header lines say of their part. A content type that is none is ignored. -/
def ofLines (lines : List HeaderLine) : PartHead :=
  let disposition := HeaderLine.value? lines "content-disposition"
  let mediaType := (HeaderLine.value? lines "content-type").bind fun v =>
    MediaType.ofText? (Bytes.toText v)
  { name := disposition.bind (attribute? "name")
    fileName := disposition.bind (attribute? "filename")
    contentType := mediaType.map (·.text) }

/-- The most header lines that a part may have. -/
def mostLines : Nat := 32

/-- The head of a part from its header lines. -/
def ofBytes? (bs : Bytes) : Option PartHead :=
  (HeaderLine.readAll? mostLines bs).map ofLines

end PartHead

end VisualRules
