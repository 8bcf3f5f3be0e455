/-!
# Decimal numbers

A decimal number is a sign, a coefficient and a power of ten. Its written form is positional while
its leading digit stands near the point, and scientific beyond.
-/

namespace VisualRules

/-- The number `coefficient · 10 ^ exponent`, with its sign kept apart so that zero has one. -/
structure Decimal where
  negative : Bool
  coefficient : Nat
  exponent : Int
deriving DecidableEq, Repr, Inhabited

namespace Decimal

/-- Which decimal numbers are written positionally, by the power of ten of their leading digit,
and how many digits the exponent of the others has at least. -/
structure Style where
  leastPositional : Int
  mostPositional : Int
  exponentDigits : Nat

/-- The decimal digits of a natural number. -/
def digits (n : Nat) : List Char :=
  Nat.toDigits 10 n

/-- Fills a list of digits with zeros in front up to a width. -/
def padded (width : Nat) (ds : List Char) : List Char :=
  List.replicate (width - ds.length) '0' ++ ds

/-- Digits around a point: `point` of them stand before it, and at least one on each side. -/
def positional (ds : List Char) (point : Int) : List Char :=
  if point ≤ 0 then '0' :: '.' :: (List.replicate (-point).toNat '0' ++ ds)
  else
    let k := point.toNat
    if ds.length ≤ k then ds ++ List.replicate (k - ds.length) '0' ++ ['.', '0']
    else ds.take k ++ '.' :: ds.drop k

/-- One digit, a point if more follow, and the power of ten. -/
def scientific (style : Style) (ds : List Char) (power : Int) : List Char :=
  let fraction := ds.drop 1
  ds.take 1 ++ (if fraction.isEmpty then [] else '.' :: fraction) ++
    'e' :: (if power < 0 then '-' else '+') :: padded style.exponentDigits (digits power.natAbs)

/-- The written form of a decimal number whose coefficient does not end in a zero. -/
def text (style : Style) (d : Decimal) : String :=
  let ds := digits d.coefficient
  let power := if d.coefficient = 0 then 0 else d.exponent + ds.length - 1
  let body :=
    if style.leastPositional ≤ power && power ≤ style.mostPositional then
      positional ds (power + 1)
    else scientific style ds power
  String.ofList (if d.negative then '-' :: body else body)

end Decimal

end VisualRules
