/-!
# Surrogates

Sixteen bits do not hold every character. A character beyond them is written as a pair of units
from two ranges that hold no characters of their own.
-/

namespace VisualRules.Text

/-- A unit that opens a pair. -/
def isHighSurrogate (n : Nat) : Bool :=
  0xD800 ≤ n && n ≤ 0xDBFF

/-- A unit that closes a pair. -/
def isLowSurrogate (n : Nat) : Bool :=
  0xDC00 ≤ n && n ≤ 0xDFFF

/-- The character of a pair of units. -/
def pairedChar (high low : Nat) : Char :=
  Char.ofNat (0x10000 + (high - 0xD800) * 0x400 + (low - 0xDC00))

end VisualRules.Text
