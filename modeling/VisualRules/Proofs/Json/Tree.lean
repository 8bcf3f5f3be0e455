import Mathlib.Algebra.Field.Rat
import VisualRules.Json.Scan
import VisualRules.Json.Value

/-!
# Documents and their texts

A document is a value whose numbers keep the digits that they are written with.
A grammar says which texts a document has: white space may stand between all
marks, and the characters of a string may be written as they are or as escapes.
-/

namespace VisualRules.Json

/-! ## Documents -/

/-- A document. -/
inductive Tree
  | null
  | boolean (b : Bool)
  | number (x : Numeral)
  | string (s : String)
  | list (entries : List Tree)
  | object (members : List (String × Tree))

namespace Numeral

/-- Whether a numeral is the literal of an integer. -/
def IsInteger (x : Numeral) : Prop :=
  x.fraction = [] ∧ x.exponent = none

instance (x : Numeral) : Decidable x.IsInteger :=
  inferInstanceAs (Decidable (_ ∧ _))

/-- The integer that the digits in front of the point stand for. -/
def integer (x : Numeral) : Int :=
  if x.negative then -(digitsValue x.whole : Int) else digitsValue x.whole

/-- The power of ten that is written behind the digits. -/
def power (x : Numeral) : Int :=
  match x.exponent with
  | none => 0
  | some (true, ds) => -(digitsValue ds : Int)
  | some (false, ds) => digitsValue ds

/-- The number that a numeral stands for. -/
def rat (x : Numeral) : ℚ :=
  (if x.negative then -1 else 1) * digitsValue (x.whole ++ x.fraction) *
    10 ^ (x.power - x.fraction.length)

/-- The literal of an integer. -/
def ofInt (n : Int) : Numeral :=
  ⟨n < 0, Decimal.digits n.natAbs, [], none⟩

/-- A literal for a decimal number. -/
def ofDecimal (d : Decimal) : Numeral :=
  ⟨d.negative, Decimal.digits d.coefficient, [],
    some (d.exponent < 0, Decimal.digits d.exponent.natAbs)⟩

theorem rat_of_isInteger {x : Numeral} (h : x.IsInteger) : x.rat = x.integer := by
  cases hneg : x.negative <;> simp [rat, integer, power, h.1, h.2, hneg]

end Numeral

namespace Tree

/-- The member of an object with a key. -/
def member? (key : String) : Tree → Option Tree
  | .object ms => ms.lookup key
  | _ => none

mutual

/-- No object has two members with the same key. -/
def KeysDistinct : Tree → Prop
  | .list ts => EntriesDistinct ts
  | .object ms => (ms.map Prod.fst).Nodup ∧ MembersDistinct ms
  | .null | .boolean _ | .number _ | .string _ => True

/-- The same for all entries of a list. -/
def EntriesDistinct : List Tree → Prop
  | [] => True
  | t :: ts => t.KeysDistinct ∧ EntriesDistinct ts

/-- The same for the values of all members. -/
def MembersDistinct : List (String × Tree) → Prop
  | [] => True
  | (_, t) :: ms => t.KeysDistinct ∧ MembersDistinct ms

end

mutual

/-- The document of a value. A decimal number stands as digits and a power of ten. -/
def ofValue : Value → Tree
  | .null => .null
  | .boolean b => .boolean b
  | .integer n => .number (.ofInt n)
  | .decimal d => .number (.ofDecimal d)
  | .string s => .string s
  | .list vs => .list (entriesOf vs)
  | .object ms => .object (membersOf ms)

/-- The documents of the entries of a list. -/
def entriesOf : List Value → List Tree
  | [] => []
  | v :: vs => ofValue v :: entriesOf vs

/-- The members of an object with the documents of their values. -/
def membersOf : List (String × Value) → List (String × Tree)
  | [] => []
  | (key, v) :: ms => (key, ofValue v) :: membersOf ms

end

theorem entriesDistinct_iff {ts : List Tree} :
    EntriesDistinct ts ↔ ∀ t ∈ ts, t.KeysDistinct := by
  induction ts with
  | nil => simp [EntriesDistinct]
  | cons t ts ih => simp [EntriesDistinct, ih]

theorem membersDistinct_iff {ms : List (String × Tree)} :
    MembersDistinct ms ↔ ∀ m ∈ ms, m.2.KeysDistinct := by
  induction ms with
  | nil => simp [MembersDistinct]
  | cons m ms ih => simp [MembersDistinct, ih]

theorem entriesOf_eq_map (vs : List Value) : entriesOf vs = vs.map ofValue := by
  induction vs with
  | nil => rfl
  | cons v vs ih => rw [entriesOf, ih, List.map_cons]

end Tree

/-! ## Texts -/

/-- White space between marks. -/
def Gap (cs : List Char) : Prop :=
  ∀ c ∈ cs, isGap c = true

theorem gap_nil : Gap [] := by
  simp [Gap]

/-- What stands between the last thing read and the next one: nothing in front of
the first, a comma in front of the others. -/
inductive Lead : Bool → List Char → Prop
  | fresh : Lead true []
  | comma {g : List Char} (hg : Gap g) : Lead false (g ++ [','])

/-- Decimal digits, one at least. -/
def Digits (ds : List Char) : Prop :=
  ds ≠ [] ∧ ∀ c ∈ ds, c.isDigit = true

/-- The text of a power of ten. A plus may be left out. -/
inductive PowerText : Option (Bool × List Char) → List Char → Prop
  | none : PowerText none []
  | plain {e : Char} {ds : List Char} (he : e = 'e' ∨ e = 'E') (hds : Digits ds) :
      PowerText (some (false, ds)) (e :: ds)
  | plus {e : Char} {ds : List Char} (he : e = 'e' ∨ e = 'E') (hds : Digits ds) :
      PowerText (some (false, ds)) (e :: '+' :: ds)
  | minus {e : Char} {ds : List Char} (he : e = 'e' ∨ e = 'E') (hds : Digits ds) :
      PowerText (some (true, ds)) (e :: '-' :: ds)

namespace Numeral

/-- The sign of a numeral. -/
def signText (x : Numeral) : List Char :=
  if x.negative then ['-'] else []

/-- The point of a numeral and the digits behind it. -/
def fractionText (x : Numeral) : List Char :=
  match x.fraction with
  | [] => []
  | ds => '.' :: ds

/-- The text of a numeral. No zero stands in front of another digit. -/
inductive Spelled (x : Numeral) : List Char → Prop
  | mk {power : List Char} (hwhole : Digits x.whole)
      (hzero : ∀ c ds, x.whole ≠ '0' :: c :: ds) (hfraction : x.fraction = [] ∨ Digits x.fraction)
      (hpower : PowerText x.exponent power) :
      Spelled x (x.signText ++ (x.whole ++ (x.fractionText ++ power)))

end Numeral

/-- The text between the quotes of a string. -/
inductive StringText : List Char → List Char → Prop
  | nil : StringText [] []
  | plain {c : Char} {s cs : List Char} (hc : ¬ c < ' ') (hquote : c ≠ '"') (hslash : c ≠ '\\')
      (hrest : StringText s cs) : StringText (c :: s) (c :: cs)
  | escape {e c : Char} {s cs : List Char} (he : escaped? e = some c)
      (hrest : StringText s cs) : StringText (c :: s) ('\\' :: e :: cs)
  | unit {a b c d : Char} {n : Nat} {s cs : List Char} (hunit : hexUnit? a b c d = some n)
      (hlow : Text.isLowSurrogate n = false) (hhigh : Text.isHighSurrogate n = false)
      (hrest : StringText s cs) :
      StringText (Char.ofNat n :: s) ('\\' :: 'u' :: a :: b :: c :: d :: cs)
  | pair {a b c d e f g h : Char} {n m : Nat} {s cs : List Char}
      (hunit : hexUnit? a b c d = some n) (hhigh : Text.isHighSurrogate n = true)
      (hunit' : hexUnit? e f g h = some m) (hlow : Text.isLowSurrogate m = true)
      (hrest : StringText s cs) :
      StringText (Text.pairedChar n m :: s)
        ('\\' :: 'u' :: a :: b :: c :: d :: '\\' :: 'u' :: e :: f :: g :: h :: cs)

/-- A document, or what stands between the brackets of a list or an object that
is not empty. -/
inductive Piece
  | document (t : Tree)
  | entries (ts : List Tree)
  | members (ms : List (String × Tree))

/-- The texts of documents. A document starts and ends with a mark; entries and
members may have white space around them. -/
inductive Spells : Piece → List Char → Prop
  | null : Spells (.document .null) ['n', 'u', 'l', 'l']
  | yes : Spells (.document (.boolean true)) ['t', 'r', 'u', 'e']
  | no : Spells (.document (.boolean false)) ['f', 'a', 'l', 's', 'e']
  | number {x : Numeral} {cs : List Char} (hx : x.Spelled cs) : Spells (.document (.number x)) cs
  | string {s : String} {cs : List Char} (hs : StringText s.toList cs) :
      Spells (.document (.string s)) ('"' :: (cs ++ ['"']))
  | emptyList {g : List Char} (hg : Gap g) : Spells (.document (.list [])) ('[' :: (g ++ [']']))
  | list {ts : List Tree} {cs : List Char} (hts : Spells (.entries ts) cs) :
      Spells (.document (.list ts)) ('[' :: (cs ++ [']']))
  | emptyObject {g : List Char} (hg : Gap g) :
      Spells (.document (.object [])) ('{' :: (g ++ ['}']))
  | object {ms : List (String × Tree)} {cs : List Char} (hms : Spells (.members ms) cs) :
      Spells (.document (.object ms)) ('{' :: (cs ++ ['}']))
  | lastEntry {t : Tree} {g cs g' : List Char} (hg : Gap g) (ht : Spells (.document t) cs)
      (hg' : Gap g') : Spells (.entries [t]) (g ++ (cs ++ g'))
  | entry {t : Tree} {ts : List Tree} {g cs g' rest : List Char} (hg : Gap g)
      (ht : Spells (.document t) cs) (hg' : Gap g') (hts : Spells (.entries ts) rest) :
      Spells (.entries (t :: ts)) (g ++ (cs ++ (g' ++ ',' :: rest)))
  | lastMember {key : String} {t : Tree} {g k h h' cs g' : List Char} (hg : Gap g)
      (hk : StringText key.toList k) (hh : Gap h) (hh' : Gap h')
      (ht : Spells (.document t) cs) (hg' : Gap g') :
      Spells (.members [(key, t)]) (g ++ '"' :: (k ++ '"' :: (h ++ ':' :: (h' ++ (cs ++ g')))))
  | member {key : String} {t : Tree} {ms : List (String × Tree)} {g k h h' cs g' rest : List Char}
      (hg : Gap g) (hk : StringText key.toList k) (hh : Gap h) (hh' : Gap h')
      (ht : Spells (.document t) cs) (hg' : Gap g') (hms : Spells (.members ms) rest) :
      Spells (.members ((key, t) :: ms))
        (g ++ '"' :: (k ++ '"' :: (h ++ ':' :: (h' ++ (cs ++ (g' ++ ',' :: rest))))))

/-- A text of a document; white space may stand around it. -/
def Tree.Spelled (t : Tree) (text : List Char) : Prop :=
  ∃ g cs g', Gap g ∧ Spells (.document t) cs ∧ Gap g' ∧ text = g ++ (cs ++ g')

end VisualRules.Json
