import VisualRules.Bytes.Utf8
import VisualRules.Text.Surrogate

/-!
# Text with a byte order mark

A mark in front of a text tells how the text is written: in units of sixteen bits, with the higher
or the lower half first, or in UTF-8. The mark is not part of the text. Without one it is UTF-8.
-/

namespace VisualRules.Bytes

/-- The units that bytes make two by two, and whether a byte is left over. -/
def units (unit : UInt8 → UInt8 → Nat) : Bytes → List Nat × Bool
  | [] => ([], false)
  | [_] => ([], true)
  | a :: b :: bs =>
    let (us, odd) := units unit bs
    (unit a b :: us, odd)

/-- The characters of units behind one that opens a pair, if there is such a one. Each unit without
its partner is replaced, and so is what is left over at the end. -/
def ofUnits (odd : Bool) : Option Nat → List Nat → List Char
  | none, [] => if odd then [replacement] else []
  | some _, [] => [replacement]
  | none, u :: us =>
    if Text.isHighSurrogate u then ofUnits odd (some u) us
    else if Text.isLowSurrogate u then replacement :: ofUnits odd none us
    else Char.ofNat u :: ofUnits odd none us
  | some h, u :: us =>
    if Text.isLowSurrogate u then Text.pairedChar h u :: ofUnits odd none us
    else if Text.isHighSurrogate u then replacement :: ofUnits odd (some u) us
    else replacement :: Char.ofNat u :: ofUnits odd none us

/-- The text of bytes in units of sixteen bits. -/
def toWideText (unit : UInt8 → UInt8 → Nat) (bs : Bytes) : String :=
  let (us, odd) := units unit bs
  String.ofList (ofUnits odd none us)

/-- The text behind a byte order mark, or the text as UTF-8. -/
def toMarkedText : Bytes → String
  | 0xEF :: 0xBB :: 0xBF :: bs => toText bs
  | 0xFE :: 0xFF :: bs => toWideText (fun a b => a.toNat * 256 + b.toNat) bs
  | 0xFF :: 0xFE :: bs => toWideText (fun a b => b.toNat * 256 + a.toNat) bs
  | bs => toText bs

end VisualRules.Bytes
