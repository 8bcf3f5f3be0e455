import Mathlib.Data.Nat.Digits.Defs
import Mathlib.Tactic.IntervalCases
import VisualRules.Proofs.Json.Tree

/-!
# Written values

What is written for a value is a text of its document, without white space as well
as with one entry a line. Decimal numbers are left out: they are written with a
point where one is short, not as digits and a power of ten.
-/

namespace VisualRules.Json

/-! ## Strings -/

theorem controlUnit {k : Nat} (hk : k < 32) :
    ∃ a b c d, Decimal.padded 4 (Nat.toDigits 16 k) = [a, b, c, d] ∧
      hexUnit? a b c d = some k := by
  interval_cases k <;> exact ⟨_, _, _, _, rfl, by decide⟩

theorem stringText_control {c : Char} {s cs : List Char} (hc : c < ' ')
    (hrest : StringText s cs) :
    StringText (c :: s) ('\\' :: 'u' :: Decimal.padded 4 (Nat.toDigits 16 c.toNat) ++ cs) := by
  have hk : c.toNat < 32 := hc
  obtain ⟨a, b, d, e, hdigits, hunit⟩ := controlUnit hk
  rw [hdigits]
  have hlow : Text.isLowSurrogate c.toNat = false := by
    simp [Text.isLowSurrogate]
    omega
  have hhigh : Text.isHighSurrogate c.toNat = false := by
    simp [Text.isHighSurrogate]
    omega
  simpa using StringText.unit hunit hlow hhigh hrest

theorem stringText_escapeChar (c : Char) {s cs : List Char} (hrest : StringText s cs) :
    StringText (c :: s) (Value.escapeChar c ++ cs) := by
  unfold Value.escapeChar
  split
  all_goals try exact .escape rfl hrest
  split
  · exact stringText_control (by assumption) hrest
  · exact .plain (by assumption) (by assumption) (by assumption) hrest

theorem stringText_flatMap (s : List Char) : StringText s (s.flatMap Value.escapeChar) := by
  induction s with
  | nil => exact .nil
  | cons c s ih => exact stringText_escapeChar c ih

/-! ## Integers -/

theorem digits_digits (n : Nat) : Digits (Decimal.digits n) :=
  ⟨Nat.toDigits_ne_nil, fun _ hc => Nat.isDigit_of_mem_toDigits (by decide) (by decide) hc⟩

theorem head_digits {n : Nat} (hn : n ≠ 0) : ∀ c ∈ (Decimal.digits n).head?, c ≠ '0' := by
  induction n using Nat.strongRecOn with
  | ind n ih =>
    by_cases hsmall : n < 10
    · rw [Decimal.digits, Nat.toDigits_of_lt_base hsmall]
      interval_cases n <;> simp_all [Nat.digitChar]
    · obtain ⟨d, ds, hds⟩ := List.exists_cons_of_ne_nil (digits_digits (n / 10)).1
      have hfirst := ih (n / 10) (by omega) (by omega)
      rw [Decimal.digits] at hds hfirst ⊢
      rw [Nat.toDigits_of_base_le (by decide) (by omega), hds]
      rwa [hds] at hfirst

/-- No zero is written in front of another digit. -/
theorem digits_ne_zero_cons (n : Nat) (c : Char) (ds : List Char) :
    Decimal.digits n ≠ '0' :: c :: ds := by
  intro h
  by_cases hn : n = 0
  · subst hn
    cases h
  · exact head_digits hn '0' (by rw [h]; rfl) rfl

theorem spelled_of_isInteger {x : Numeral} (hx : x.IsInteger) (hwhole : Digits x.whole)
    (hzero : ∀ c ds, x.whole ≠ '0' :: c :: ds) : x.Spelled (x.signText ++ x.whole) := by
  have hpower : PowerText x.exponent [] := by
    rw [hx.2]
    exact .none
  have hspelled := Numeral.Spelled.mk hwhole hzero (.inl hx.1) hpower
  simpa [Numeral.fractionText, hx.1] using hspelled

theorem spelled_ofInt (n : Int) : (Numeral.ofInt n).Spelled (Value.writeInteger n) := by
  have htext : Value.writeInteger n = (Numeral.ofInt n).signText ++ (Numeral.ofInt n).whole := by
    by_cases hn : n < 0 <;> simp [Value.writeInteger, Numeral.signText, Numeral.ofInt, hn]
  rw [htext]
  exact spelled_of_isInteger ⟨rfl, rfl⟩ (digits_digits _) (digits_ne_zero_cons _)

theorem digitsValue_digits (n : Nat) : digitsValue (Decimal.digits n) = n := by
  have hvalue : ∀ ds, digitsValue ds = Nat.ofDigitChars 10 ds 0 := by
    intro ds
    simp [digitsValue, Nat.ofDigitChars_eq_foldl, Nat.mul_comm]
  rw [hvalue, Decimal.digits, Nat.ofDigitChars_toDigits (by decide) (by decide)]

@[simp]
theorem Numeral.integer_ofInt (n : Int) : (Numeral.ofInt n).integer = n := by
  by_cases hn : n < 0
  · simp only [Numeral.integer, Numeral.ofInt, hn, digitsValue_digits]
    simp [abs_of_neg hn]
  · simp only [Numeral.integer, Numeral.ofInt, hn, digitsValue_digits]
    simp [abs_of_nonneg (not_lt.1 hn)]

/-! ## Values -/

namespace Value

mutual

/-- All numbers of a value are integers. -/
def IntegersOnly : Value → Prop
  | .decimal _ => False
  | .list vs => EntriesIntegersOnly vs
  | .object ms => MembersIntegersOnly ms
  | .null | .boolean _ | .integer _ | .string _ => True

/-- The same for all entries of a list. -/
def EntriesIntegersOnly : List Value → Prop
  | [] => True
  | v :: vs => v.IntegersOnly ∧ EntriesIntegersOnly vs

/-- The same for the values of all members. -/
def MembersIntegersOnly : List (String × Value) → Prop
  | [] => True
  | (_, v) :: ms => v.IntegersOnly ∧ MembersIntegersOnly ms

end

theorem entriesIntegersOnly_iff {vs : List Value} :
    EntriesIntegersOnly vs ↔ ∀ v ∈ vs, v.IntegersOnly := by
  induction vs with
  | nil => simp [EntriesIntegersOnly]
  | cons v vs ih => simp [EntriesIntegersOnly, ih]

theorem Setting.gap_lineBreak (s : Setting) : Gap s.lineBreak := by
  cases s with
  | compact => exact gap_nil
  | indented depth => simp [Gap, lineBreak, isGap]

@[simp]
theorem Setting.inner_colon (s : Setting) : s.inner.colon = s.colon := by
  cases s <;> rfl

/-- Behind its colon a value may be set off by a blank. -/
theorem Setting.exists_gap (s : Setting) : ∃ h, Gap h ∧ s.colon = ':' :: h := by
  cases s with
  | compact => exact ⟨[], gap_nil, rfl⟩
  | indented depth => exact ⟨[' '], by simp [Gap, isGap], rfl⟩

theorem spells_member (s : Setting) (key : String) {t : Tree} {g cs g' : List Char} (hg : Gap g)
    (ht : Spells (.document t) cs) (hg' : Gap g') :
    Spells (.members [(key, t)]) (g ++ (writeString key ++ (s.colon ++ (cs ++ g')))) := by
  obtain ⟨h, hh, hcolon⟩ := s.exists_gap
  have hmember := Spells.lastMember hg (stringText_flatMap key.toList) gap_nil hh ht hg'
  simpa [writeString, hcolon] using hmember

theorem spells_members (s : Setting) (key : String) {t : Tree} {ms : List (String × Tree)}
    {g cs rest : List Char} (hg : Gap g) (ht : Spells (.document t) cs)
    (hms : Spells (.members ms) rest) :
    Spells (.members ((key, t) :: ms))
      (g ++ (writeString key ++ (s.colon ++ (cs ++ ',' :: rest)))) := by
  obtain ⟨h, hh, hcolon⟩ := s.exists_gap
  have hmember := Spells.member hg (stringText_flatMap key.toList) gap_nil hh ht
    gap_nil hms
  simpa [writeString, hcolon] using hmember

mutual

/-- What is written for a value is a text of its document. -/
theorem spells_write (s : Setting) :
    ∀ v : Value, v.IntegersOnly → Spells (.document (.ofValue v)) (v.write s)
  | .null, _ => .null
  | .boolean true, _ => .yes
  | .boolean false, _ => .no
  | .integer n, _ => .number (spelled_ofInt n)
  | .decimal _, h => h.elim
  | .string t, _ => .string (stringText_flatMap t.toList)
  | .list [], _ => .emptyList gap_nil
  | .list (v :: vs), h => by
    have hentries := spells_writeEntries s.inner vs h.2 s.inner.gap_lineBreak
      (spells_write s.inner v h.1) s.gap_lineBreak
    simpa [write, Tree.ofValue, Tree.entriesOf] using Spells.list hentries
  | .object [], _ => .emptyObject gap_nil
  | .object ((key, v) :: ms), h => by
    have hmembers := spells_writeMembers s.inner ms h.2 key s.inner.gap_lineBreak
      (spells_write s.inner v h.1) s.gap_lineBreak
    simpa [write, Tree.ofValue, Tree.membersOf] using Spells.object hmembers

/-- An entry, the written entries behind it and white space. -/
theorem spells_writeEntries (s : Setting) :
    ∀ vs : List Value, EntriesIntegersOnly vs → ∀ {t : Tree} {g cs g' : List Char}, Gap g →
      Spells (.document t) cs → Gap g' →
      Spells (.entries (t :: Tree.entriesOf vs)) (g ++ (cs ++ (writeEntries s vs ++ g')))
  | [], _, _, _, _, _, hg, ht, hg' => by
    simpa [writeEntries, Tree.entriesOf] using Spells.lastEntry hg ht hg'
  | v :: vs, h, _, _, _, _, hg, ht, hg' => by
    have hrest := spells_writeEntries s vs h.2 s.gap_lineBreak (spells_write s v h.1) hg'
    simpa [writeEntries, Tree.entriesOf] using Spells.entry hg ht gap_nil hrest

/-- A member, the written members behind it and white space. -/
theorem spells_writeMembers (s : Setting) :
    ∀ ms : List (String × Value), MembersIntegersOnly ms → ∀ (key : String) {t : Tree}
      {g cs g' : List Char}, Gap g → Spells (.document t) cs → Gap g' →
      Spells (.members ((key, t) :: Tree.membersOf ms))
        (g ++ (writeString key ++ (s.colon ++ (cs ++ (writeMembers s ms ++ g')))))
  | [], _, key, _, _, _, _, hg, ht, hg' => by
    simpa [writeMembers, Tree.membersOf] using spells_member s key hg ht hg'
  | (key', v) :: ms, h, key, _, _, _, _, hg, ht, hg' => by
    have hrest := spells_writeMembers s ms h.2 key' s.gap_lineBreak (spells_write s v h.1) hg'
    simpa [writeMembers, Tree.membersOf] using spells_members s key hg ht hrest

end

end Value

end VisualRules.Json
