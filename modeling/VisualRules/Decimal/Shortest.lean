import VisualRules.Decimal.Basic

/-!
# The shortest decimal that reads back

A binary floating-point number stands for all reals that round to it. Its shortest decimal is the
one with the fewest digits among those reals and, of two with equally many digits, the nearer one.
-/

namespace VisualRules.Decimal

/-- The number `mantissa · 2 ^ exponent`. At the foot of a binade the gap to the number below is
half the gap to the one above. -/
structure Dyadic where
  mantissa : Nat
  exponent : Int
  atFoot : Bool
deriving DecidableEq, Repr

/-- The reals that round to a positive dyadic number, as fractions over one denominator. The ends
belong to it when the mantissa is even, because ties are rounded to even. -/
structure Rounding where
  low : Nat
  value : Nat
  high : Nat
  denominator : Nat
  closed : Bool

/-- The rounding interval: half a gap to each side, counted in quarters of the upper gap. -/
def Dyadic.rounding (x : Dyadic) : Rounding :=
  let q := x.exponent - 2
  let scale := Nat.pow 2 q.toNat
  { low := (4 * x.mantissa - (if x.atFoot then 1 else 2)) * scale
    value := 4 * x.mantissa * scale
    high := (4 * x.mantissa + 2) * scale
    denominator := Nat.pow 2 (-q).toNat
    closed := x.mantissa % 2 = 0 }

/-- Whether `coefficient · 10 ^ exponent` lies in the interval. -/
def Rounding.holds (r : Rounding) (coefficient : Nat) (exponent : Int) : Bool :=
  let left := coefficient * Nat.pow 10 exponent.toNat * r.denominator
  let unit := Nat.pow 10 (-exponent).toNat
  if r.closed then r.low * unit ≤ left && left ≤ r.high * unit
  else r.low * unit < left && left < r.high * unit

/-- The largest coefficient whose multiple of `10 ^ exponent` is at most the value. -/
def Rounding.below (r : Rounding) (exponent : Int) : Nat :=
  r.value * Nat.pow 10 (-exponent).toNat / (r.denominator * Nat.pow 10 exponent.toNat)

/-- Whether twice the distance from the multiple below to the value exceeds the grid's step, or
meets it exactly at an odd multiple. -/
def Rounding.nearerAbove (r : Rounding) (below : Nat) (exponent : Int) : Bool :=
  let unit := r.denominator * Nat.pow 10 exponent.toNat
  let twice := 2 * (r.value * Nat.pow 10 (-exponent).toNat - below * unit)
  unit < twice || (unit == twice && below % 2 == 1)

/-- The one or two neighbours of the value on the grid of `10 ^ exponent` that lie in the
interval; the nearer one if both do. -/
def Rounding.onGrid (r : Rounding) (exponent : Int) : Option Nat :=
  let d := r.below exponent
  match r.holds d exponent, r.holds (d + 1) exponent with
  | true, true => some (if r.nearerAbove d exponent then d + 1 else d)
  | true, false => some d
  | false, true => some (d + 1)
  | false, false => none

/-- Tries ever finer grids, from `10 ^ exponent` downwards. -/
def Rounding.coarsest (r : Rounding) : Nat → Int → Nat × Int
  | 0, e => (r.below e, e)
  | n + 1, e =>
    match r.onGrid e with
    | some d => if d = 0 then coarsest r n (e - 1) else (d, e)
    | none => coarsest r n (e - 1)

/-- A power of ten that is at least the value and at most a few powers above it. -/
def Rounding.magnitude (r : Rounding) : Int :=
  ((r.value.log2 : Int) - r.denominator.log2 + 1) * 30103 / 100000 + 1

/-- Moves zeros at the end of a coefficient into its exponent. -/
def stripZeros : Nat → Nat → Int → Nat × Int
  | 0, d, e => (d, e)
  | n + 1, d, e => if d ≠ 0 && d % 10 = 0 then stripZeros n (d / 10) (e + 1) else (d, e)

/-- The shortest decimal of a dyadic number with a sign. At most seventeen digits are needed, and
the search starts at most two powers of ten above the leading one. -/
def Dyadic.shortest (negative : Bool) (x : Dyadic) : Decimal :=
  if x.mantissa = 0 then ⟨negative, 0, 0⟩
  else
    let r := x.rounding
    let (d, e) := r.coarsest 20 r.magnitude
    let (d, e) := stripZeros 20 d e
    ⟨negative, d, e⟩

/-- A layout of binary floating-point numbers: the bits of the fraction and of the exponent. -/
structure Layout where
  fractionBits : Nat
  exponentBits : Nat

/-- Numbers of 64 bits. -/
def Layout.double : Layout := ⟨52, 11⟩

/-- Numbers of 32 bits. -/
def Layout.single : Layout := ⟨23, 8⟩

/-- The shortest decimal of a bit pattern; none for an infinity and for what is not a number. -/
def Layout.decimal? (l : Layout) (bits : Nat) : Option Decimal :=
  let fraction := bits % Nat.pow 2 l.fractionBits
  let rest := bits / Nat.pow 2 l.fractionBits
  let biased := rest % Nat.pow 2 l.exponentBits
  let negative := rest / Nat.pow 2 l.exponentBits = 1
  let bias := Nat.pow 2 (l.exponentBits - 1) - 1
  if biased = Nat.pow 2 l.exponentBits - 1 then none
  else if biased = 0 then
    some (Dyadic.shortest negative ⟨fraction, 1 - (bias : Int) - l.fractionBits, false⟩)
  else
    some (Dyadic.shortest negative
      ⟨Nat.pow 2 l.fractionBits + fraction, (biased : Int) - bias - l.fractionBits,
        fraction = 0 && biased ≠ 1⟩)

/-- The shortest decimal of a 64-bit number. -/
def ofFloat? (x : Float) : Option Decimal :=
  Layout.double.decimal? x.toBits.toNat

/-- The shortest decimal of a 32-bit number. -/
def ofFloat32? (x : Float32) : Option Decimal :=
  Layout.single.decimal? x.toBits.toNat

end VisualRules.Decimal
