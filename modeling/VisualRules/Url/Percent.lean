import VisualRules.Bytes.Utf8

/-!
# Percent encoding

A byte that may not stand in a part of a URL is written as a percent sign and two digits. Which
characters may stand depends on the part; bytes beyond ASCII never do.
-/

namespace VisualRules.Url

/-- The part of a URL that a text stands in. -/
inductive Part
  | plain
  | credentials
  | path
  | query
  | specialQuery
  | fragment
deriving DecidableEq, Repr

/-- The printable ASCII characters that a part encodes. -/
def Part.encodes : Part → List Char
  | .plain => []
  | .fragment => [' ', '"', '<', '>', Char.ofNat 0x60]
  | .path => [' ', '"', '<', '>', Char.ofNat 0x60, '#', '?', '{', '}']
  | .credentials =>
    [' ', '"', '<', '>', Char.ofNat 0x60, '#', '?', '{', '}', '/', ':', ';', '=', '@', '[', '\\',
      ']', '^', '|']
  | .query => [' ', '"', '#', '<', '>']
  | .specialQuery => [' ', '"', '#', '<', '>', Char.ofNat 0x27]

/-- Whether a character stands for itself in a part. -/
def Part.keeps (p : Part) (c : Char) : Bool :=
  0x20 ≤ c.toNat && c.toNat < 0x7F && !p.encodes.contains c

/-- An upper-case hexadecimal digit. -/
def upperHexDigit (n : Nat) : Char :=
  (Nat.digitChar n).toUpper

/-- The three characters that stand for a byte. -/
def encodeByte (b : UInt8) : List Char :=
  ['%', upperHexDigit (b.toNat / 16), upperHexDigit (b.toNat % 16)]

/-- A text as it stands in a part. -/
def encode (p : Part) (cs : List Char) : List Char :=
  cs.flatMap fun c =>
    if p.keeps c then [c] else (Bytes.ofText c.toString).flatMap encodeByte

/-- The value of a hexadecimal digit. -/
def hexDigit? (c : Char) : Option Nat :=
  if c.isDigit then some (c.toNat - 48)
  else if 'a' ≤ c && c ≤ 'f' then some (c.toNat - 87)
  else if 'A' ≤ c && c ≤ 'F' then some (c.toNat - 55)
  else none

/-- The byte that two digits at the front of a text stand for. -/
def byteOf? : List Char → Option UInt8
  | a :: b :: _ => do return UInt8.ofNat (16 * (← hexDigit? a) + (← hexDigit? b))
  | _ => none

/-- The bytes of a text after some characters that have been read already. -/
def decodeFrom : Nat → List Char → Bytes
  | _, [] => []
  | n + 1, _ :: cs => decodeFrom n cs
  | 0, c :: cs =>
    match if c = '%' then byteOf? cs else none with
    | some b => b :: decodeFrom 2 cs
    | none => Bytes.ofText c.toString ++ decodeFrom 0 cs

/-- The bytes that a text stands for; a percent sign without two digits stands for itself. -/
def decode (cs : List Char) : Bytes :=
  decodeFrom 0 cs

end VisualRules.Url
