import VisualRules.Bytes.Utf8

/-!
# Truncated text

A text that may take a number of bytes at most is cut between two of its characters, and three dots
show that something is left out. The place of the cut is searched backwards from the last byte that
is allowed.
-/

namespace VisualRules.Text

/-- Whether a byte is the first one of a character. -/
def startsChar (b : UInt8) : Bool :=
  b < 0x80 || 0xC0 ≤ b

/-- Whether a text may be cut in front of a byte: at its start, at its end, and where a character
starts. -/
def isBoundary (bs : Bytes) (n : Nat) : Bool :=
  n = 0 || match bs[n]? with
    | some b => startsChar b
    | none => n = bs.length

/-- The last place for a cut up to a byte; none when the search gets below the start of the text. -/
def boundaryFrom? (bs : Bytes) : Nat → Option Nat
  | 0 => if isBoundary bs 0 then some 0 else none
  | n + 1 => if isBoundary bs (n + 1) then some (n + 1) else boundaryFrom? bs n

/-- A text in a number of bytes, not counting the three dots. -/
def truncated (limit : Nat) (s : String) : String :=
  if s.utf8ByteSize ≤ limit then s
  else
    let bs := Bytes.ofText s
    Bytes.toText (bs.take ((boundaryFrom? bs limit).getD 0)) ++ "..."

end VisualRules.Text
