/-!
# Bytes and text

Text travels as UTF-8. Reading bytes back never fails: each longest run of bytes that could begin
a character but does not complete one becomes a single replacement character.
-/

namespace VisualRules

/-- A sequence of bytes. -/
abbrev Bytes := List UInt8

namespace Bytes

/-- The bytes of a text. -/
def ofText (s : String) : Bytes :=
  s.toList.flatMap String.utf8EncodeChar

/-- What stands for bytes that are no text. -/
def replacement : Char := '\uFFFD'

/-- The number of bytes after the first one of a character, the bits that the first one carries,
and the range of the second one; none if no character starts with the byte. -/
def leading? (b : UInt8) : Option (Nat × Nat × Nat × Nat) :=
  let n := b.toNat
  if 0xC2 ≤ n && n ≤ 0xDF then some (1, n - 0xC0, 0x80, 0xBF)
  else if n = 0xE0 then some (2, 0, 0xA0, 0xBF)
  else if n = 0xED then some (2, 0xD, 0x80, 0x9F)
  else if 0xE1 ≤ n && n ≤ 0xEF then some (2, n - 0xE0, 0x80, 0xBF)
  else if n = 0xF0 then some (3, 0, 0x90, 0xBF)
  else if 0xF1 ≤ n && n ≤ 0xF3 then some (3, n - 0xF0, 0x80, 0xBF)
  else if n = 0xF4 then some (3, 4, 0x80, 0x8F)
  else none

/-- A character that has begun: the bytes still to come, its bits so far and the range of the
next byte. -/
structure Partial where
  missing : Nat
  bits : Nat
  low : Nat
  high : Nat

/-- Reads a byte that starts a character: the character, or the beginning of one; a byte that
starts none is refused. -/
def start? (b : UInt8) : Option (Char ⊕ Partial) :=
  if b < 0x80 then some (.inl (Char.ofNat b.toNat))
  else (leading? b).map fun (missing, bits, low, high) => .inr ⟨missing, bits, low, high⟩

/-- The characters of a sequence of bytes, none in the place of each run of bytes that is no
character. -/
def decode : Option Partial → Bytes → List (Option Char)
  | none, [] => []
  | some _, [] => [none]
  | none, b :: bs =>
    match start? b with
    | none => none :: decode none bs
    | some (.inl c) => some c :: decode none bs
    | some (.inr p) => decode (some p) bs
  | some p, b :: bs =>
    if p.low ≤ b.toNat && b.toNat ≤ p.high then
      let bits := p.bits * 64 + (b.toNat - 0x80)
      if p.missing = 1 then some (Char.ofNat bits) :: decode none bs
      else decode (some ⟨p.missing - 1, bits, 0x80, 0xBF⟩) bs
    else
      match start? b with
      | none => none :: none :: decode none bs
      | some (.inl c) => none :: some c :: decode none bs
      | some (.inr q) => none :: decode (some q) bs

/-- The characters of a text, with replacements. -/
def toChars (bs : Bytes) : List Char :=
  (decode none bs).map (·.getD replacement)

/-- The text of a sequence of bytes, with replacements. -/
def toText (bs : Bytes) : String :=
  String.ofList bs.toChars

/-- Whether the bytes are a text as they stand. -/
def isText (bs : Bytes) : Bool :=
  (decode none bs).all Option.isSome

end Bytes

end VisualRules
