import VisualRules.Decimal.Basic

/-!
# Durations in messages

A duration is written in the largest unit of which it has a whole one, with as many decimal places
as it needs.
-/

namespace VisualRules.Text

/-- A number of units with the rest as decimal places; zeros at the end are dropped. -/
def withPlaces (places whole rest : Nat) : String :=
  let ds := Decimal.padded places (Decimal.digits rest)
  let ds := (ds.reverse.dropWhile (· = '0')).reverse
  toString whole ++ (if rest = 0 then "" else "." ++ String.ofList ds)

/-- The text of a number of nanoseconds. -/
def durationText (nanos : Nat) : String :=
  if 1000000000 ≤ nanos then withPlaces 9 (nanos / 1000000000) (nanos % 1000000000) ++ "s"
  else if 1000000 ≤ nanos then withPlaces 6 (nanos / 1000000) (nanos % 1000000) ++ "ms"
  else if 1000 ≤ nanos then withPlaces 3 (nanos / 1000) (nanos % 1000) ++ "µs"
  else toString nanos ++ "ns"

end VisualRules.Text
