import VisualRules.Bytes.Base64

/-!
# Reading Base64

A reader that goes by the alphabet alone gets back exactly the bytes that were
written, however many letters the last group has.
-/

namespace VisualRules.Base64

/-- The letters in the order of their numbers. -/
def alphabet : List Char :=
  "ABCDEFGHIJKLMNOPQRSTUVWXYZabcdefghijklmnopqrstuvwxyz0123456789+/".toList

/-- The number of a letter. -/
def number? (c : Char) : Option Nat :=
  alphabet.idxOf? c

/-- The number that is written in letters, six bits in each. -/
def value? : List Char → Option Nat :=
  List.foldlM (fun n c => (number? c).map (n * 64 + ·)) 0

/-- The bytes in a last group that is filled up. The bits that belong to no byte
must be zero. -/
def filledUp? (a b c : Char) : Option Bytes :=
  if c = '=' then do
    let n ← value? [a, b]
    if n % 16 = 0 then some [.ofNat (n / 16)] else none
  else do
    let n ← value? [a, b, c]
    if n % 4 = 0 then some [.ofNat (n / 1024), .ofNat (n / 4)] else none

/-- The bytes in groups of four letters. -/
def decode? : List Char → Option Bytes
  | [] => some []
  | a :: b :: c :: d :: rest =>
    if d = '=' ∧ rest = [] then filledUp? a b c
    else do
      let n ← value? [a, b, c, d]
      let bytes ← decode? rest
      some (.ofNat (n / 65536) :: .ofNat (n / 256) :: .ofNat n :: bytes)
  | _ => none

theorem number?_letter {n : Nat} (h : n < 64) : number? (letter n) = some n := by
  have hall : ∀ n < 64, number? (letter n) = some n := by decide +kernel
  exact hall n h

theorem letter_ne_filling {n : Nat} (h : n < 64) : letter n ≠ '=' := by
  intro heq
  have hnone : number? (letter n) = none := by
    rw [heq]
    decide
  rw [number?_letter h] at hnone
  cases hnone

/-- The number that is written in the letters of numbers. -/
theorem value?_letters (ns : List Nat) (h : ∀ n ∈ ns, n < 64) :
    value? (ns.map letter) = some (ns.foldl (fun n d => n * 64 + d) 0) := by
  unfold value?
  generalize (0 : Nat) = start
  induction ns generalizing start with
  | nil => rfl
  | cons n ns ih =>
    have hn : n < 64 := h n (by simp)
    simp only [List.map_cons, List.foldlM_cons, List.foldl_cons, number?_letter hn,
      Option.map_some, Option.bind_eq_bind, Option.bind_some]
    exact ih (fun m hm => h m (by simp [hm])) _

/-! ## One group -/

theorem ofNat_byte {a : UInt8} {n : Nat} (h : n % 256 = a.toNat) : UInt8.ofNat n = a := by
  apply UInt8.toNat_inj.1
  rw [UInt8.toNat_ofNat', h]

/-- Behind the letters of one byte there are four bits that belong to none. -/
theorem filledUp?_one (a : UInt8) :
    filledUp? (letter (a.toNat / 4)) (letter (a.toNat % 4 * 16)) '=' = some [a] := by
  have ha : a.toNat < 256 := a.toNat_lt
  have hvalue : value? [letter (a.toNat / 4), letter (a.toNat % 4 * 16)] =
      some (a.toNat * 16) :=
    calc value? [letter (a.toNat / 4), letter (a.toNat % 4 * 16)]
      _ = some ((0 * 64 + a.toNat / 4) * 64 + a.toNat % 4 * 16) :=
        value?_letters [_, _] (by simp; omega)
      _ = some (a.toNat * 16) := congrArg some (by omega)
  have hbyte : UInt8.ofNat (a.toNat * 16 / 16) = a := ofNat_byte (by omega)
  simp only [filledUp?, if_pos, hvalue, Option.bind_eq_bind, Option.bind_some, hbyte,
    Nat.mul_mod_left]

/-- Behind the letters of two bytes there are two such bits. -/
theorem filledUp?_two (a b : UInt8) :
    let n := a.toNat * 256 + b.toNat
    filledUp? (letter (n / 1024)) (letter (n / 16 % 64)) (letter (n % 16 * 4)) =
      some [a, b] := by
  intro n
  have ha : a.toNat < 256 := a.toNat_lt
  have hb : b.toNat < 256 := b.toNat_lt
  have hn : n = a.toNat * 256 + b.toNat := rfl
  clear_value n
  have hvalue : value? [letter (n / 1024), letter (n / 16 % 64), letter (n % 16 * 4)] =
      some (n * 4) :=
    calc value? [letter (n / 1024), letter (n / 16 % 64), letter (n % 16 * 4)]
      _ = some (((0 * 64 + n / 1024) * 64 + n / 16 % 64) * 64 + n % 16 * 4) :=
        value?_letters [_, _, _] (by simp; omega)
      _ = some (n * 4) := congrArg some (by omega)
  have hfirst : UInt8.ofNat (n * 4 / 1024) = a := ofNat_byte (by omega)
  have hsecond : UInt8.ofNat (n * 4 / 4) = b := ofNat_byte (by omega)
  have hletter : letter (n % 16 * 4) ≠ '=' := letter_ne_filling (by omega)
  simp only [filledUp?, if_neg hletter, hvalue, Option.bind_eq_bind, Option.bind_some, hfirst,
    hsecond, Nat.mul_mod_left, if_pos]

theorem value?_four {n : Nat} (h : n < 16777216) :
    value? [letter (n / 262144), letter (n / 4096 % 64), letter (n / 64 % 64),
      letter (n % 64)] = some n :=
  calc value? [letter (n / 262144), letter (n / 4096 % 64), letter (n / 64 % 64),
        letter (n % 64)]
    _ = some ((((0 * 64 + n / 262144) * 64 + n / 4096 % 64) * 64 + n / 64 % 64) * 64 +
          n % 64) := value?_letters [_, _, _, _] (by simp; omega)
    _ = some n := congrArg some (by omega)

/-! ## All groups -/

theorem decode?_encode (bytes : Bytes) : decode? (encode bytes) = some bytes := by
  induction bytes using encode.induct with
  | case1 => rfl
  | case2 a =>
    rw [encode, decode?, if_pos ⟨rfl, rfl⟩]
    exact filledUp?_one a
  | case3 a b =>
    rw [encode, decode?, if_pos ⟨rfl, rfl⟩]
    exact filledUp?_two a b
  | case4 a b c rest ih =>
    have ha : a.toNat < 256 := a.toNat_lt
    have hb : b.toNat < 256 := b.toNat_lt
    have hc : c.toNat < 256 := c.toNat_lt
    rw [encode]
    generalize hn : (a.toNat * 256 + b.toNat) * 256 + c.toNat = n
    have hletter : letter (n % 64) ≠ '=' := letter_ne_filling (by omega)
    have hfirst : UInt8.ofNat (n / 65536) = a := ofNat_byte (by omega)
    have hsecond : UInt8.ofNat (n / 256) = b := ofNat_byte (by omega)
    have hthird : UInt8.ofNat n = c := ofNat_byte (by omega)
    have hvalue := value?_four (show n < 16777216 by omega)
    simp only [decode?, hletter, false_and, if_false, hvalue, ih, Option.bind_eq_bind,
      Option.bind_some, hfirst, hsecond, hthird]

/-- A letter whose last bits belong to no byte is the one with zeros there. -/
example : decode? "QUI=".toList = some [65, 66] ∧ decode? "QUJ=".toList = none := by decide

end VisualRules.Base64
