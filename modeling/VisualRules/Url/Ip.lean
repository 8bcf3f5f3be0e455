import VisualRules.Url.Percent

/-!
# Internet addresses

An address of version 4 is four octets and may be written with one to four numbers in base eight,
ten or sixteen. An address of version 6 is eight groups of sixteen bits; one run of zero groups
may be left out, and its last two groups may be written as an address of version 4.
-/

namespace VisualRules.Url

/-- An address of version 4. -/
structure Ipv4 where
  a : UInt8
  b : UInt8
  c : UInt8
  d : UInt8
deriving DecidableEq, Repr

/-- An address of version 6. -/
structure Ipv6 where
  groups : Vector UInt16 8
deriving DecidableEq

namespace Ipv4

/-- The address with a number below 2^32. -/
def ofNat (n : Nat) : Ipv4 :=
  ⟨UInt8.ofNat (n / 16777216), UInt8.ofNat (n / 65536), UInt8.ofNat (n / 256), UInt8.ofNat n⟩

/-- Four decimal numbers between points. -/
def text (x : Ipv4) : String :=
  toString x.a ++ "." ++ toString x.b ++ "." ++ toString x.c ++ "." ++ toString x.d

/-! ## Reading -/

/-- The number that the digits of a base write; none if one of them is not a digit of it. -/
def numberIn? (base : Nat) (cs : List Char) : Option Nat :=
  cs.foldl (fun n c => do
    let d ← hexDigit? c
    if d < base then return (← n) * base + d else none) (some 0)

/-- A number in base sixteen after `0x`, in base eight after a zero, else in base ten. No digits
after the mark of a base are zero. -/
def number? : List Char → Option Nat
  | [] => none
  | '0' :: 'x' :: cs => numberIn? 16 cs
  | '0' :: 'X' :: cs => numberIn? 16 cs
  | '0' :: c :: cs => numberIn? 8 (c :: cs)
  | cs => numberIn? 10 cs

/-- The pieces of a text between its points; a point at the end counts for nothing. -/
def pieces (cs : List Char) : List (List Char) :=
  let ps := cs.splitOn '.'
  if ps.getLast? = some [] then ps.dropLast else ps

/-- Whether the last piece of a host is a number, so that the host must be an address. -/
def endsInNumber (cs : List Char) : Bool :=
  match (pieces cs).getLast? with
  | none => false
  | some last => (!last.isEmpty && last.all Char.isDigit) || (number? last).isSome

/-- The number of an address from its parts: all but the last are octets, and the last fills what
is left of the four octets. -/
def combine : Nat → List Nat → Option Nat
  | _, [] => none
  | left, [n] => if n < Nat.pow 256 left then some n else none
  | left, n :: ns =>
    if n < 256 then (combine (left - 1) ns).map (n * Nat.pow 256 (left - 1) + ·) else none

/-- The address that a text writes. -/
def ofChars? (cs : List Char) : Option Ipv4 := do
  let ps := pieces cs
  if 4 < ps.length then none
  let ns ← ps.mapM number?
  let n ← combine 4 ns
  return ofNat n

end Ipv4

namespace Ipv6

/-! ## Reading -/

/-- The groups read so far, in reverse order, and those after the gap once it has been read. -/
structure Draft where
  before : List Nat
  after : Option (List Nat)

/-- Adds a group. -/
def Draft.push (d : Draft) (n : Nat) : Draft :=
  match d.after with
  | none => { d with before := n :: d.before }
  | some ns => { d with after := some (n :: ns) }

/-- The number of groups so far; a gap stands for one at least. -/
def Draft.count (d : Draft) : Nat :=
  match d.after with
  | none => d.before.length
  | some ns => d.before.length + 1 + ns.length

/-- The address of a draft: without a gap it needs eight groups, and a gap is filled with zeros. -/
def Draft.finish (d : Draft) : Option Ipv6 :=
  let groups := match d.after with
    | none => d.before.reverse
    | some ns =>
      d.before.reverse ++ List.replicate (8 - d.before.length - ns.length) 0 ++ ns.reverse
  let groups := groups.map UInt16.ofNat
  if h : groups.length = 8 then some ⟨⟨groups.toArray, by simpa using h⟩⟩ else none

/-- A decimal octet without zeros in front. -/
def octet? (cs : List Char) : Option Nat :=
  match cs with
  | [] => none
  | '0' :: _ :: _ => none
  | _ => if cs.all Char.isDigit then (Ipv4.numberIn? 10 cs).filter (· < 256) else none

/-- The two groups of four decimal octets. -/
def dotted? (cs : List Char) : Option (Nat × Nat) := do
  match ← (cs.splitOn '.').mapM octet? with
  | [a, b, c, d] => return (a * 256 + b, c * 256 + d)
  | _ => none

/-- Reads groups up to the end of the text. A group takes a character at least, so the length of
the text is enough fuel. -/
def readGroups : Nat → Draft → List Char → Option Ipv6
  | 0, _, _ => none
  | _ + 1, d, [] => d.finish
  | n + 1, d, ':' :: cs =>
    if d.count = 8 || d.after.isSome then none else readGroups n { d with after := some [] } cs
  | n + 1, d, cs =>
    if d.count = 8 then none
    else
      let digits := (cs.take 4).takeWhile fun c => (hexDigit? c).isSome
      let value := (Ipv4.numberIn? 16 digits).getD 0
      match cs.drop digits.length with
      | [] => (d.push value).finish
      | ':' :: rest => if rest.isEmpty then none else readGroups n (d.push value) rest
      | '.' :: _ =>
        if digits.isEmpty || 6 < d.count then none
        else
          match dotted? cs with
          | none => none
          | some (m, k) => ((d.push m).push k).finish
      | _ => none

/-- The address that a text writes. -/
def ofChars? (cs : List Char) : Option Ipv6 :=
  match cs with
  | ':' :: ':' :: rest => readGroups (rest.length + 1) ⟨[], some []⟩ rest
  | [] | [_] | ':' :: _ => none
  | _ => readGroups (cs.length + 1) ⟨[], none⟩ cs

/-! ## Writing -/

/-- The lengths of the runs of zeros that start at each place of a list. -/
def zeroRuns : List UInt16 → List Nat
  | [] => []
  | g :: gs =>
    let runs := zeroRuns gs
    (if g = 0 then runs.headD 0 + 1 else 0) :: runs

/-- The first longest run of two zeros or more: where it starts and how long it is. -/
def gap? (gs : List UInt16) : Option (Nat × Nat) :=
  let runs := zeroRuns gs
  let longest := runs.foldl max 0
  if longest < 2 then none else some (runs.findIdx (· = longest), longest)

/-- Groups in base sixteen between colons. -/
def groupsText (gs : List UInt16) : String :=
  ":".intercalate (gs.map fun g => String.ofList (Nat.toDigits 16 g.toNat))

/-- The shortest text of an address. -/
def text (x : Ipv6) : String :=
  let gs := x.groups.toList
  match gap? gs with
  | none => groupsText gs
  | some (start, length) =>
    groupsText (gs.take start) ++ "::" ++ groupsText (gs.drop (start + length))

/-- The address of version 4 that an address of version 6 stands for. -/
def mapped? (x : Ipv6) : Option Ipv4 :=
  match x.groups.toList with
  | [0, 0, 0, 0, 0, 0xFFFF, g, h] => some (Ipv4.ofNat (g.toNat * 65536 + h.toNat))
  | _ => none

end Ipv6

end VisualRules.Url
