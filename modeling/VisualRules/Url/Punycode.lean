/-!
# Punycode

A label of a host that starts with `xn--` writes a text beyond ASCII by its ASCII characters and a
sequence of differences, each of which places one further character.
-/

namespace VisualRules.Url.Punycode

/-- The value of a digit: letters come before figures. -/
def digit? (c : Char) : Option Nat :=
  if 'a' ≤ c && c ≤ 'z' then some (c.toNat - 97)
  else if c.isDigit then some (c.toNat - 22)
  else none

/-- Halves a difference until it is small, counting thirty-fives; then the bias that follows. -/
def settle : Nat → Nat → Nat → Nat
  | 0, k, delta => k + 36 * delta / (delta + 38)
  | n + 1, k, delta =>
    if 455 < delta then settle n (k + 36) (delta / 35) else k + 36 * delta / (delta + 38)

/-- The bias after a difference, given how many characters have been placed. -/
def adapt (delta count : Nat) (first : Bool) : Nat :=
  let delta := if first then delta / 700 else delta / 2
  settle 64 0 (delta + delta / count)

/-- Reads one difference: its digits weigh more and more until one falls below the threshold that
the bias sets. -/
def difference? (bias : Nat) : Nat → Nat → Nat → List Char → Option (Nat × List Char)
  | _, _, _, [] => none
  | k, weight, sum, c :: cs => do
    let d ← digit? c
    let sum := sum + d * weight
    if UInt32.size ≤ sum then none
    let threshold := if k ≤ bias then 1 else if bias + 26 ≤ k then 26 else k - bias
    if d < threshold then return (sum, cs)
    else difference? bias (k + 36) (weight * (36 - threshold)) sum cs

/-- Where the next character goes: the code point and the place that the last one had, and the
bias of the next difference, none before the first. -/
structure Cursor where
  code : Nat
  place : Nat
  bias : Option Nat

/-- Places characters until the text ends; each takes a digit at least, so the length of the text
is enough fuel. -/
def placeAll : Nat → Cursor → List Nat → List Char → Option (List Nat)
  | _, _, out, [] => some out
  | 0, _, _, _ => none
  | n + 1, cursor, out, cs => do
    let (delta, rest) ← difference? (cursor.bias.getD 72) 36 1 0 cs
    let count := out.length + 1
    let target := cursor.place + delta
    let code := cursor.code + target / count
    let place := target % count
    if 0x110000 ≤ code || (0xD800 ≤ code && code ≤ 0xDFFF) then none
    placeAll n ⟨code, place + 1, some (adapt delta count cursor.bias.isNone)⟩
      (out.insertIdx place code) rest

/-- The ASCII characters in front of the last hyphen, and the differences after it. -/
def split (cs : List Char) : List Char × List Char :=
  match cs.reverse.dropWhile (· ≠ '-') with
  | [] => ([], cs)
  | _ :: front => (front.reverse, (cs.reverse.takeWhile (· ≠ '-')).reverse)

/-- The code points of a label without its mark. -/
def decode? (cs : List Char) : Option (List Nat) :=
  let (front, differences) := split cs
  placeAll differences.length ⟨128, 0, none⟩ (front.map Char.toNat) differences

end VisualRules.Url.Punycode
