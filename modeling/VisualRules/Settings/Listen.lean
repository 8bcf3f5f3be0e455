import VisualRules.Text.Blank

/-!
# Listen addresses

The address that a service listens at is a number: four parts with points in between, or eight parts
with colons in between, in brackets. Names are not looked up.
-/

namespace VisualRules

/-- A numeric address: its parts, and the number of the network for one of eight parts. -/
inductive ListenAddress
  | four (parts : List UInt8)
  | six (parts : List UInt16) (network : UInt32)
deriving DecidableEq, Repr

namespace ListenAddress

/-- The pieces of a text between separators. -/
def pieces (separator : Char) (cs : List Char) : List (List Char) :=
  cs.splitOnP (· = separator)

/-- A decimal part, up to 255 and without needless zeros. -/
def part4? (ds : List Char) : Option UInt8 :=
  let n := ds.foldl (fun n d => n * 10 + (d.toNat - '0'.toNat)) 0
  if ds.isEmpty || 3 < ds.length || !ds.all Char.isDigit then none
  else if (ds.head? = some '0' && 1 < ds.length) || 255 < n then none
  else some (.ofNat n)

/-- Four parts with points in between. -/
def four? (cs : List Char) : Option (List UInt8) := do
  let parts ← (pieces '.' cs).mapM part4?
  if parts.length = 4 then return parts else none

/-- The value of a hexadecimal digit. -/
def hexDigit? (c : Char) : Option Nat :=
  if c.isDigit then some (c.toNat - '0'.toNat)
  else if 'a' ≤ c && c ≤ 'f' then some (c.toNat - 'a'.toNat + 10)
  else if 'A' ≤ c && c ≤ 'F' then some (c.toNat - 'A'.toNat + 10)
  else none

/-- A hexadecimal part of up to four digits. -/
def part6? (ds : List Char) : Option UInt16 := do
  if ds.isEmpty || 4 < ds.length then none
  let digits ← ds.mapM hexDigit?
  return .ofNat (digits.foldl (fun n d => n * 16 + d) 0)

/-- Parts with colons in between. The last may be an address of four parts and counts as two. -/
def parts6? (allowsFour : Bool) : List (List Char) → Option (List UInt16)
  | [] => some []
  | [p] =>
    match four? p with
    | some [a, b, c, d] =>
      if allowsFour then
        some [.ofNat (a.toNat * 256 + b.toNat), .ofNat (c.toNat * 256 + d.toNat)]
      else none
    | _ => (part6? p).map ([·])
  | p :: ps => do return (← part6? p) :: (← parts6? allowsFour ps)

/-- The parts of a text, which may be empty. -/
def run6? (allowsFour : Bool) (cs : List Char) : Option (List UInt16) :=
  if cs.isEmpty then some [] else parts6? allowsFour (pieces ':' cs)

/-- Splits a text at its first pair of colons. -/
def splitPair : List Char → Option (List Char × List Char)
  | ':' :: ':' :: cs => some ([], cs)
  | c :: cs => (splitPair cs).map fun (front, back) => (c :: front, back)
  | [] => none

/-- Eight parts, where a pair of colons stands for one zero at least. -/
def six? (cs : List Char) : Option (List UInt16) := do
  match splitPair cs with
  | none =>
    let parts ← run6? true cs
    if parts.length = 8 then return parts else none
  | some (front, back) =>
    let front ← run6? false front
    let back ← run6? true back
    let given := front.length + back.length
    if 7 < given then none
    return front ++ List.replicate (8 - given) 0 ++ back

/-- The number of a network: decimal, of 32 bits. -/
def network? (ds : List Char) : Option UInt32 :=
  let n := ds.foldl (fun n d => n * 10 + (d.toNat - '0'.toNat)) 0
  if ds.isEmpty || !ds.all Char.isDigit || UInt32.size ≤ n then none else some (.ofNat n)

/-- Reads an address. -/
def ofText? (text : String) : Option ListenAddress :=
  match text.toList with
  | '[' :: cs => do
    let inner := cs.takeWhile (· ≠ ']')
    if cs.dropWhile (· ≠ ']') ≠ [']'] then none
    let parts ← six? (inner.takeWhile (· ≠ '%'))
    match inner.dropWhile (· ≠ '%') with
    | '%' :: ds => return .six parts (← network? ds)
    | _ => return .six parts 0
  | cs => (four? cs).map .four

end ListenAddress

end VisualRules
