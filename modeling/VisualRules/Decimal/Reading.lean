import VisualRules.Decimal.Basic

/-!
# Reading decimal numbers

The written forms of a decimal number, and the 64-bit number nearest to one.
-/

namespace VisualRules.Decimal

/-- The number that decimal digits write. -/
def digitsValue (ds : List Char) : Nat :=
  ds.foldl (fun n d => n * 10 + (d.toNat - '0'.toNat)) 0

/-- A sign, if one comes first: whether it is a minus, and what follows. -/
def splitSign : List Char → Bool × List Char
  | '-' :: cs => (true, cs)
  | '+' :: cs => (false, cs)
  | cs => (false, cs)

/-- The power of ten behind a coefficient: nothing, or a letter and an integer. -/
def readPower? : List Char → Option Int
  | [] => some 0
  | c :: cs =>
    let (negative, ds) := splitSign cs
    if (c ≠ 'e' && c ≠ 'E') || ds.isEmpty || !ds.all Char.isDigit then none
    else some (if negative then -(digitsValue ds : Int) else digitsValue ds)

/-- Reads a sign, digits around a point of which some have to be there, and a power of ten; the
sign, the point and the power may be missing. -/
def ofChars? (cs : List Char) : Option Decimal := do
  let (negative, cs) := splitSign cs
  let whole := cs.takeWhile Char.isDigit
  let cs := cs.dropWhile Char.isDigit
  let (fraction, cs) := match cs with
    | '.' :: cs => (cs.takeWhile Char.isDigit, cs.dropWhile Char.isDigit)
    | cs => ([], cs)
  if whole.isEmpty && fraction.isEmpty then none
  let power ← readPower? cs
  return ⟨negative, digitsValue (whole ++ fraction), power - fraction.length⟩

/-- The 64-bit number nearest to a decimal, which is an infinity or a zero for one whose leading
digit is far from the point. -/
def toFloat (d : Decimal) : Float :=
  let leading := (digits d.coefficient).length + d.exponent
  let size :=
    if d.coefficient = 0 || leading < -400 then 0
    else if 400 < leading then Float.ofScientific 1 false 400
    else Float.ofScientific d.coefficient (d.exponent < 0) d.exponent.natAbs
  if d.negative then -size else size

end VisualRules.Decimal
