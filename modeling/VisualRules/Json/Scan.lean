import VisualRules.Decimal.Shortest
import VisualRules.Json.Fault
import VisualRules.Text.Surrogate

/-!
# The marks of a JSON text

White space, the three words, strings and numbers: what can be read without knowing which type is
wanted. A string and a number have two readings, a strict one that gives their value and a lax one
that only passes over them.
-/

namespace VisualRules.Json

open Text (isHighSurrogate isLowSurrogate pairedChar)

/-! ## White space and words -/

/-- White space between marks. -/
def isGap (c : Char) : Bool :=
  c == ' ' || c == '\t' || c == '\n' || c == '\r'

/-- The text from its first mark on. -/
def dropGap (cs : List Char) : List Char :=
  cs.dropWhile isGap

/-- Passes over the rest of a word whose first letter has been read. -/
def scanWord : List Char → List Char → Except Fault (List Char)
  | [], cs => .ok cs
  | _ :: _, [] => .error .endOfValue
  | w :: ws, c :: cs => if c = w then scanWord ws cs else .error .wordExpected

/-! ## Strings -/

/-- The value of a hexadecimal digit. -/
def hexDigit? (c : Char) : Option Nat :=
  if '0' ≤ c && c ≤ '9' then some (c.toNat - 48)
  else if 'a' ≤ c && c ≤ 'f' then some (c.toNat - 87)
  else if 'A' ≤ c && c ≤ 'F' then some (c.toNat - 55)
  else none

/-- The value of four hexadecimal digits. -/
def hexUnit? (a b c d : Char) : Option Nat := do
  return (((← hexDigit? a) * 16 + (← hexDigit? b)) * 16 + (← hexDigit? c)) * 16 + (← hexDigit? d)

/-- What is wrong when fewer than four characters follow the `u` of an escape: four bytes that are
no digits are a bad escape, less is the end of the text. -/
def shortUnit (cs : List Char) : Fault :=
  if 4 ≤ cs.foldl (fun n c => n + c.utf8Size) 0 then .badEscape else .endOfString

/-- The character that a one-letter escape stands for. -/
def escaped? : Char → Option Char
  | '"' => some '"'
  | '\\' => some '\\'
  | '/' => some '/'
  | 'b' => some '\x08'
  | 'f' => some '\x0c'
  | 'n' => some '\n'
  | 'r' => some '\r'
  | 't' => some '\t'
  | _ => none

/-- What is wrong when no complete unit follows the one that opens a pair. -/
def unpaired : List Char → Fault
  | [] | ['\\'] => .endOfString
  | '\\' :: 'u' :: cs => shortUnit cs
  | _ => .endOfEscape

/-- The characters of a string whose opening quote has been read, after those in `read`, which
stand in reverse order. -/
def scanString (read : List Char) : List Char → Except Fault (List Char × List Char)
  | [] => .error .endOfString
  | '"' :: cs => .ok (read.reverse, cs)
  | '\\' :: 'u' :: a :: b :: c :: d :: cs =>
    match hexUnit? a b c d with
    | none => .error .badEscape
    | some n =>
      if isLowSurrogate n then .error .loneSurrogate
      else if isHighSurrogate n then
        match cs with
        | '\\' :: 'u' :: e :: f :: g :: h :: ds =>
          match hexUnit? e f g h with
          | none => .error .badEscape
          | some m =>
            if isLowSurrogate m then scanString (pairedChar n m :: read) ds
            else .error .loneSurrogate
        | ds => .error (unpaired ds)
      else scanString (Char.ofNat n :: read) cs
  | '\\' :: 'u' :: cs => .error (shortUnit cs)
  | '\\' :: c :: cs =>
    match escaped? c with
    | some x => scanString (x :: read) cs
    | none => .error .badEscape
  | ['\\'] => .error .endOfString
  | c :: cs => if c < ' ' then .error .controlCharacter else scanString (c :: read) cs

/-- Passes over a string whose opening quote has been read; units need not make pairs. -/
def skipString : List Char → Except Fault (List Char)
  | [] => .error .endOfString
  | '"' :: cs => .ok cs
  | '\\' :: 'u' :: a :: b :: c :: d :: cs =>
    match hexUnit? a b c d with
    | none => .error .badEscape
    | some _ => skipString cs
  | '\\' :: 'u' :: cs => .error (shortUnit cs)
  | '\\' :: c :: cs =>
    match escaped? c with
    | some _ => skipString cs
    | none => .error .badEscape
  | ['\\'] => .error .endOfString
  | c :: cs => if c < ' ' then .error .controlCharacter else skipString cs

/-! ## Numbers -/

/-- The parts of a written number: no digits after the point mean that there is no point. -/
structure Numeral where
  negative : Bool
  whole : List Char
  fraction : List Char
  exponent : Option (Bool × List Char)
deriving DecidableEq, Repr

/-- The digits at the front of a text, and the rest. -/
def digitRun (cs : List Char) : List Char × List Char :=
  (cs.takeWhile Char.isDigit, cs.dropWhile Char.isDigit)

/-- One digit or more; `atEnd` is the fault when the text ends instead. -/
def scanDigits (atEnd : Fault) (cs : List Char) : Except Fault (List Char × List Char) :=
  match digitRun cs with
  | ([], []) => .error atEnd
  | ([], _ :: _) => .error .badNumber
  | (ds, rest) => .ok (ds, rest)

/-- The digits after a point, if there is one. -/
def scanFraction (atEnd : Fault) : List Char → Except Fault (List Char × List Char)
  | '.' :: cs => scanDigits atEnd cs
  | cs => .ok ([], cs)

/-- The sign and the digits of an exponent, if there is one; `true` is a negative sign. -/
def scanExponent (atEnd : Fault) : List Char → Except Fault (Option (Bool × List Char) × List Char)
  | c :: cs =>
    if c = 'e' || c = 'E' then do
      let (negative, cs) := match cs with
        | '-' :: cs => (true, cs)
        | '+' :: cs => (false, cs)
        | cs => (false, cs)
      let (ds, cs) ← scanDigits atEnd cs
      return (some (negative, ds), cs)
    else .ok (none, c :: cs)
  | [] => .ok (none, [])

/-- A number from its sign or first digit on. A zero in front of another digit is refused. -/
def scanNumeral (atEnd : Fault) (cs : List Char) : Except Fault (Numeral × List Char) := do
  let (negative, cs) := match cs with
    | '-' :: cs => (true, cs)
    | cs => (false, cs)
  let (whole, cs) ← scanDigits atEnd cs
  match whole with
  | '0' :: _ :: _ => throw .badNumber
  | _ =>
    let (fraction, cs) ← scanFraction atEnd cs
    let (exponent, cs) ← scanExponent atEnd cs
    return (⟨negative, whole, fraction, exponent⟩, cs)

/-- A number as its reader takes it: integers of 64 bits stay exact, all others are rounded. -/
inductive Number
  | integer (n : Int)
  | decimal (d : Decimal)
deriving DecidableEq, Repr

/-- The number that decimal digits stand for. -/
def digitsValue (ds : List Char) : Nat :=
  ds.foldl (fun n c => n * 10 + (c.toNat - 48)) 0

/-- Takes digits into a significand while it fits 64 bits, and leaves the others. -/
def takeDigits (n : Nat) : List Char → Nat × List Char
  | [] => (n, [])
  | c :: cs =>
    let m := n * 10 + (c.toNat - 48)
    if m < UInt64.size then takeDigits m cs else (n, c :: cs)

/-- The significand scaled by a power of ten, by one rounded multiplication or division, or by a
few divisions when the power is below the least one. None when the result is too large. -/
def scaled : Nat → Float → Int → Option Float
  | 0, _, _ => some 0.0
  | n + 1, x, e =>
    if e.natAbs ≤ 308 then
      let p := Float.ofScientific 1 false e.natAbs
      if 0 ≤ e then
        let y := x * p
        if y.isInf then none else some y
      else some (x / p)
    else if x == 0.0 then some 0.0
    else if 0 ≤ e then none
    else scaled n (x / Float.ofScientific 1 false 308) (e + 308)

/-- A rounded number from its sign, its significand and its power of ten. -/
def roundedNumber (negative : Bool) (significand : Nat) (power : Int) : Except Fault Number :=
  match scaled 4 (UInt64.ofNat significand).toFloat power with
  | none => .error .numberOutOfRange
  | some x =>
    let d := (Decimal.ofFloat? x).getD ⟨false, 0, 0⟩
    .ok (.decimal { d with negative := negative })

/-- The value of a numeral. Digits beyond 64 bits count as zeros before the point and as nothing
after it. -/
def Numeral.value (x : Numeral) : Except Fault Number :=
  let (significand, extra) := takeDigits 0 x.whole
  match x.fraction, x.exponent with
  | [], none =>
    match extra with
    | [] =>
      if !x.negative then .ok (.integer significand)
      else if significand = 0 || UInt64.size / 2 < significand then roundedNumber true significand 0
      else .ok (.integer (-significand))
    | _ :: _ => roundedNumber x.negative significand extra.length
  | fraction, exponent =>
    let (significand, rest) := takeDigits significand fraction
    let power : Int := extra.length - (fraction.length - rest.length : Nat)
    let shift : Int := match exponent with
      | none => 0
      | some (true, ds) => -(digitsValue ds : Int)
      | some (false, ds) => digitsValue ds
    roundedNumber x.negative significand (power + shift)

/-- A number and its value. -/
def scanNumber (cs : List Char) : Except Fault (Number × List Char) := do
  let (numeral, cs) ← scanNumeral .endOfValue cs
  let value ← numeral.value
  return (value, cs)

/-- Passes over a number; it may be too large for any type. -/
def skipNumber (cs : List Char) : Except Fault (List Char) := do
  let (_, cs) ← scanNumeral .badNumber cs
  return cs

end VisualRules.Json
