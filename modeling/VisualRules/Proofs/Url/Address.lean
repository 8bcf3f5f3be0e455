import Mathlib.Data.List.Basic
import VisualRules.Url.Host

/-!
# Spellings of addresses

An address of version 4 has many spellings: one to four numbers between points, each
in base eight, ten or sixteen, of which the last fills the octets that are left, and a
point may stand at the end. A grammar says which texts spell which address; each of
them is read as that address, and none of them is taken for a name.
-/

namespace VisualRules.Url

variable {cs : List Char}

namespace Ipv4

/-! ## Spellings -/

/-- A number in a base. -/
inductive DigitsIn (base : Nat) : List Char → Nat → Prop
  | nil : DigitsIn base [] 0
  | snoc {cs : List Char} {n : Nat} {c : Char} {d : Nat} (hcs : DigitsIn base cs n)
      (hc : hexDigit? c = some d) (hd : d < base) : DigitsIn base (cs ++ [c]) (n * base + d)

/-- A number of an address. What starts with a zero is in base eight or, behind an x,
in base sixteen. -/
inductive NumberText : List Char → Nat → Prop
  | decimal {c : Char} {cs : List Char} {n : Nat} (hc : c ≠ '0') (h : DigitsIn 10 (c :: cs) n) :
      NumberText (c :: cs) n
  | octal {cs : List Char} {n : Nat} (h : DigitsIn 8 cs n) : NumberText ('0' :: cs) n
  | hex {x : Char} {cs : List Char} {n : Nat} (hx : x = 'x' ∨ x = 'X') (h : DigitsIn 16 cs n) :
      NumberText ('0' :: x :: cs) n

/-- The numbers of an address when `left` octets follow the first one: all but the last
are octets. -/
inductive PartsText : Nat → List (List Char) → Nat → Prop
  | last {left : Nat} {p : List Char} {n : Nat} (hp : NumberText p n)
      (hn : n < Nat.pow 256 (left + 1)) : PartsText left [p] n
  | more {left : Nat} {p : List Char} {n : Nat} {ps : List (List Char)} {m : Nat}
      (hp : NumberText p n) (hn : n < 256) (hps : PartsText left ps m) :
      PartsText (left + 1) (p :: ps) (n * Nat.pow 256 (left + 1) + m)

/-- The number that the four octets make. -/
def number (x : Ipv4) : Nat :=
  x.a.toNat * 16777216 + x.b.toNat * 65536 + x.c.toNat * 256 + x.d.toNat

/-- A text of an address. -/
inductive Spells : List Char → Ipv4 → Prop
  | plain {ps : List (List Char)} {x : Ipv4} (hps : PartsText 3 ps x.number) :
      Spells (['.'].intercalate ps) x
  | rooted {ps : List (List Char)} {x : Ipv4} (hps : PartsText 3 ps x.number) :
      Spells (['.'].intercalate ps ++ ['.']) x

@[simp]
theorem ofNat_number (x : Ipv4) : ofNat x.number = x := by
  obtain ⟨a, b, c, d⟩ := x
  have ha := a.toNat_lt
  have hb := b.toNat_lt
  have hc := c.toNat_lt
  have hd := d.toNat_lt
  simp only [ofNat, number, mk.injEq, ← UInt8.toNat_inj, UInt8.toNat_ofNat']
  omega

/-! ## Reading them -/

theorem numberIn?_of_digitsIn {base n : Nat} (h : DigitsIn base cs n) :
    numberIn? base cs = some n := by
  induction h with
  | nil => rfl
  | @snoc cs n c d hcs hc hd ih =>
    rw [numberIn?] at ih ⊢
    rw [List.foldl_append, ih]
    simp [hc, hd]

theorem DigitsIn.isSome {base n : Nat} (h : DigitsIn base cs n) :
    ∀ c ∈ cs, (hexDigit? c).isSome := by
  induction h with
  | nil => simp
  | snoc hcs hc hd ih =>
    intro c hmem
    rcases List.mem_append.1 hmem with hmem | hmem
    · exact ih c hmem
    · obtain rfl := List.mem_singleton.1 hmem
      simp [hc]

theorem NumberText.not_mem {n : Nat} (h : NumberText cs n) : '.' ∉ cs := by
  intro hpoint
  cases h with
  | decimal hc h => exact absurd (h.isSome _ hpoint) (by decide)
  | octal h =>
    rcases List.mem_cons.1 hpoint with hpoint | hpoint
    · exact absurd hpoint (by decide)
    · exact absurd (h.isSome _ hpoint) (by decide)
  | hex hx h =>
    simp only [List.mem_cons] at hpoint
    rcases hpoint with hpoint | rfl | hpoint
    · exact absurd hpoint (by decide)
    · simp at hx
    · exact absurd (h.isSome _ hpoint) (by decide)

theorem number?_of_text {n : Nat} (h : NumberText cs n) : number? cs = some n := by
  cases h with
  | decimal hc h =>
    rw [← numberIn?_of_digitsIn h]
    unfold number?
    split <;> simp_all
  | @octal cs n h =>
    cases cs with
    | nil =>
      have hzero := numberIn?_of_digitsIn h
      simp only [numberIn?, List.foldl_nil, Option.some.injEq] at hzero
      subst hzero
      rfl
    | cons c cs =>
      have hdigit := h.isSome c (by simp)
      have hx : c ≠ 'x' := by rintro rfl; exact absurd hdigit (by decide)
      have hX : c ≠ 'X' := by rintro rfl; exact absurd hdigit (by decide)
      rw [← numberIn?_of_digitsIn h]
      unfold number?
      split <;> simp_all
  | hex hx h =>
    rw [← numberIn?_of_digitsIn h]
    rcases hx with rfl | rfl <;> rfl

theorem PartsText.read {left n : Nat} {ps : List (List Char)} (h : PartsText left ps n) :
    ∃ ns, ps.mapM number? = some ns ∧ combine (left + 1) ns = some n := by
  induction h with
  | @last left p n hp hn => exact ⟨[n], by simp [number?_of_text hp], if_pos hn⟩
  | @more left p n ps m hp hn hps ih =>
    obtain ⟨ns, hread, hcombine⟩ := ih
    obtain ⟨k, ns, rfl⟩ : ∃ k ks, ns = k :: ks := by
      cases ns with
      | nil => cases hcombine
      | cons k ks => exact ⟨k, ks, rfl⟩
    exact ⟨n :: k :: ns, by simp [number?_of_text hp, hread], by simp [combine, hn, hcombine]⟩

theorem PartsText.length_le {left n : Nat} {ps : List (List Char)} (h : PartsText left ps n) :
    ps.length ≤ left + 1 := by
  induction h with
  | last hp hn => simp
  | more hp hn hps ih =>
    rw [List.length_cons]
    omega

theorem PartsText.not_mem {left n : Nat} {ps : List (List Char)} (h : PartsText left ps n) :
    ∀ p ∈ ps, '.' ∉ p := by
  induction h with
  | last hp hn => simpa using hp.not_mem
  | more hp hn hps ih => exact List.forall_mem_cons.2 ⟨hp.not_mem, ih⟩

/-- The last number is not empty. -/
theorem PartsText.exists_last {left n : Nat} {ps : List (List Char)} (h : PartsText left ps n) :
    ∃ p m, ps.getLast? = some p ∧ NumberText p m := by
  induction h with
  | @last left p n hp hn => exact ⟨p, n, rfl, hp⟩
  | @more left p n ps m hp hn hps ih =>
    obtain ⟨q, k, hlast, hq⟩ := ih
    exact ⟨q, k, by rw [List.getLast?_cons, hlast]; rfl, hq⟩

theorem intercalate_snoc_nil {c : Char} {ps : List (List Char)} (h : ps ≠ []) :
    [c].intercalate (ps ++ [[]]) = [c].intercalate ps ++ [c] := by
  induction ps with
  | nil => exact absurd rfl h
  | cons p ps ih =>
    by_cases hps : ps = []
    · simp [hps]
    · rw [List.cons_append, List.intercalate_cons_of_ne_nil (by simp), ih hps,
        List.intercalate_cons_of_ne_nil hps]
      simp only [List.append_assoc]

theorem Spells.pieces {x : Ipv4} (h : Spells cs x) : PartsText 3 (pieces cs) x.number := by
  cases h with
  | @plain ps _ hps =>
    obtain ⟨p, n, hlast, hp⟩ := hps.exists_last
    have hne : ps ≠ [] := by rintro rfl; cases hlast
    have hp : p ≠ [] := by rintro rfl; cases hp
    rw [Ipv4.pieces, List.splitOn_intercalate '.' hps.not_mem hne]
    simpa [hlast, hp] using hps
  | @rooted ps _ hps =>
    obtain ⟨p, n, hlast, hp⟩ := hps.exists_last
    have hne : ps ≠ [] := by rintro rfl; cases hlast
    -- A point at the end is an empty piece at the end.
    have hpieces : ∀ p ∈ ps ++ [[]], '.' ∉ p := by
      intro p hp
      rcases List.mem_append.1 hp with hp | hp
      · exact hps.not_mem p hp
      · simp [List.mem_singleton.1 hp]
    rw [← intercalate_snoc_nil hne, Ipv4.pieces, List.splitOn_intercalate '.' hpieces (by simp)]
    simpa using hps

theorem ofChars?_of_spells {x : Ipv4} (h : Spells cs x) : ofChars? cs = some x := by
  obtain ⟨ns, hread, hcombine⟩ := h.pieces.read
  have hlength := h.pieces.length_le
  simp [ofChars?, Nat.not_lt.2 hlength, hread, hcombine]

theorem endsInNumber_of_spells {x : Ipv4} (h : Spells cs x) : endsInNumber cs = true := by
  obtain ⟨p, n, hlast, hp⟩ := h.pieces.exists_last
  simp [endsInNumber, hlast, number?_of_text hp]

end Ipv4

/-! ## Addresses of version 6 -/

namespace Ipv6

/-- The address of version 6 that stands for one of version 4. -/
def ofMapped (x : Ipv4) : Ipv6 where
  groups := #v[0, 0, 0, 0, 0, 0xFFFF, .ofNat (x.a.toNat * 256 + x.b.toNat),
    .ofNat (x.c.toNat * 256 + x.d.toNat)]

/-- The address of the machine itself. -/
def loopback : Ipv6 where
  groups := #v[0, 0, 0, 0, 0, 0, 0, 1]

/-- The address that stands for none. -/
def unspecified : Ipv6 where
  groups := #v[0, 0, 0, 0, 0, 0, 0, 0]

@[simp]
theorem mapped?_ofMapped (x : Ipv4) : (ofMapped x).mapped? = some x := by
  have ha := x.a.toNat_lt
  have hb := x.b.toNat_lt
  have hc := x.c.toNat_lt
  have hd := x.d.toNat_lt
  have hnumber : (UInt16.ofNat (x.a.toNat * 256 + x.b.toNat)).toNat * 65536 +
      (UInt16.ofNat (x.c.toNat * 256 + x.d.toNat)).toNat = x.number := by
    simp only [UInt16.toNat_ofNat', Ipv4.number]
    omega
  show some (Ipv4.ofNat _) = some x
  rw [hnumber, Ipv4.ofNat_number]

end Ipv6

/-! ## Hosts -/

namespace Host

/-- What is read as a name is no text of an address. -/
theorem not_spells_of_special {form : NameForm} {name : String}
    (h : special cs form = .ok (.domain name)) (x : Ipv4) : ¬ Ipv4.Spells name.toList x := by
  intro hspells
  unfold special at h
  split at h
  · unfold ofBrackets at h
    split at h
    · split at h <;> cases h
    · cases h
  · split at h
    · cases h
    · split at h
      · cases h
      · split at h
        · split at h <;> cases h
        · cases h
          rw [String.toList_ofList] at hspells
          exact absurd (Ipv4.endsInNumber_of_spells hspells) (by assumption)

/-- Each text of an address is read as that address, also behind percent signs. -/
theorem special_of_spells {form : NameForm} {name : List Char} {x : Ipv4}
    (hbracket : cs.head? ≠ some '[') (hform : form.formOf? (Bytes.toChars (decode cs)) = some name)
    (hspells : Ipv4.Spells name x) : special cs form = .ok (.ipv4 x) := by
  have hnumber := Ipv4.endsInNumber_of_spells hspells
  have hne : name ≠ [] := by
    rintro rfl
    cases hnumber
  unfold special
  split
  · simp at hbracket
  · simp [hform, hne, hnumber, Ipv4.ofChars?_of_spells hspells]

end Host

end VisualRules.Url
