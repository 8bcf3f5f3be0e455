import Mathlib.Data.List.DropRight
import VisualRules.Proofs.Json.Tree

/-!
# Scanning a text

The scanners take exactly the text of a document off the front of a text, if
what follows cannot belong to it, and give what it stands for.
-/

namespace VisualRules.Json

variable {g cs rest : List Char}

/-! ## White space -/

theorem dropGap_append (hg : Gap g) (cs : List Char) : dropGap (g ++ cs) = dropGap cs := by
  induction g with
  | nil => rfl
  | cons c g ih =>
    have hc : isGap c = true := hg c (by simp)
    rw [List.cons_append, dropGap, List.dropWhile_cons_of_pos hc]
    exact ih fun x hx => hg x (by simp [hx])

theorem dropGap_cons {c : Char} (hc : isGap c = false) (cs : List Char) :
    dropGap (c :: cs) = c :: cs := by
  rw [dropGap, List.dropWhile_cons_of_neg (by simp [hc])]

theorem dropGap_of_gap (hg : Gap g) : dropGap g = [] := by
  simpa [dropGap] using dropGap_append hg []

theorem dropGap_dropGap (cs : List Char) : dropGap (dropGap cs) = dropGap cs :=
  List.dropWhile_idempotent _ _

/-- Behind white space the first mark is next. -/
theorem dropGap_mark (hg : Gap g) {c : Char} (hc : isGap c = false) (cs : List Char) :
    dropGap (g ++ c :: cs) = c :: cs := by
  rw [dropGap_append hg, dropGap_cons hc]

/-! ## Strings -/

theorem not_u_of_escaped? {e c : Char} (he : escaped? e = some c) : e ≠ 'u' := by
  rintro rfl
  cases he

theorem not_low_of_high {n : Nat} (h : Text.isHighSurrogate n = true) :
    Text.isLowSurrogate n = false := by
  simp only [Text.isHighSurrogate, Bool.and_eq_true, decide_eq_true_eq] at h
  simp only [Text.isLowSurrogate, Bool.and_eq_false_iff, decide_eq_false_iff_not]
  omega

theorem scanString_text {s : List Char} (h : StringText s cs) (read rest : List Char) :
    scanString read (cs ++ '"' :: rest) = .ok (read.reverse ++ s, rest) := by
  induction h generalizing read with
  | nil => simp [scanString]
  | plain hc _ hslash hrest ih => simp [scanString, hc, hslash, ih]
  | escape he hrest ih => simp [scanString, not_u_of_escaped? he, he, ih]
  | unit hunit hlow hhigh hrest ih => simp [scanString, hunit, hlow, hhigh, ih]
  | pair hunit hhigh hunit' hlow hrest ih =>
    simp [scanString, hunit, hhigh, not_low_of_high hhigh, hunit', hlow, ih]

/-! ## Numbers -/

/-- No character in front belongs to a number. -/
def Closed (rest : List Char) : Prop :=
  ∀ c ∈ rest.head?, c.isDigit = false ∧ c ≠ '.' ∧ c ≠ 'e' ∧ c ≠ 'E'

theorem digitRun_append {ds : List Char} (hds : ∀ c ∈ ds, c.isDigit = true)
    (hrest : ∀ c ∈ rest.head?, c.isDigit = false) : digitRun (ds ++ rest) = (ds, rest) := by
  rw [digitRun, List.takeWhile_append_of_pos hds, List.dropWhile_append_of_pos hds]
  cases rest with
  | nil => simp
  | cons c rest => simp [hrest c rfl]

theorem scanDigits_text {ds : List Char} (hds : Digits ds) (atEnd : Fault)
    (hrest : ∀ c ∈ rest.head?, c.isDigit = false) :
    scanDigits atEnd (ds ++ rest) = .ok (ds, rest) := by
  have hrun := digitRun_append hds.2 hrest
  obtain ⟨d, ds, rfl⟩ := List.exists_cons_of_ne_nil hds.1
  rw [scanDigits, hrun]

theorem scanFraction_text {x : Numeral} (hx : x.fraction = [] ∨ Digits x.fraction)
    (atEnd : Fault) (hrest : ∀ c ∈ rest.head?, c.isDigit = false ∧ c ≠ '.') :
    scanFraction atEnd (x.fractionText ++ rest) = .ok (x.fraction, rest) := by
  rcases hx with hx | hx
  · rw [Numeral.fractionText, hx, List.nil_append]
    cases rest with
    | nil => rfl
    | cons c rest => simp [scanFraction, (hrest c rfl).2]
  · have htext : x.fractionText = '.' :: x.fraction := by
      obtain ⟨d, ds, h⟩ := List.exists_cons_of_ne_nil hx.1
      rw [Numeral.fractionText, h]
    rw [htext, List.cons_append, scanFraction]
    exact scanDigits_text hx atEnd fun c hc => (hrest c hc).1

theorem ne_sign_of_isDigit {c : Char} (hc : c.isDigit = true) : c ≠ '-' ∧ c ≠ '+' := by
  constructor <;> rintro rfl <;> cases hc

theorem scanExponent_text {exponent : Option (Bool × List Char)} {power : List Char}
    (hpower : PowerText exponent power) (atEnd : Fault) (hrest : Closed rest) :
    scanExponent atEnd (power ++ rest) = .ok (exponent, rest) := by
  have hdigits {ds : List Char} (hds : Digits ds) :=
    scanDigits_text hds atEnd fun c hc => (hrest c hc).1
  cases hpower with
  | none =>
    cases rest with
    | nil => rfl
    | cons c rest => simp [scanExponent, (hrest c rfl).2.2.1, (hrest c rfl).2.2.2]
  | plain he hds =>
    have hds' := hdigits hds
    obtain ⟨d, ds, rfl⟩ := List.exists_cons_of_ne_nil hds.1
    have hd := ne_sign_of_isDigit (hds.2 d (by simp))
    rw [List.cons_append] at hds' ⊢
    simp [scanExponent, he, hd.1, hd.2, hds', bind, Except.bind, pure, Except.pure]
  | plus he hds =>
    simp only [List.cons_append, scanExponent]
    rw [if_pos (by simpa using he), hdigits hds]
    rfl
  | minus he hds =>
    simp only [List.cons_append, scanExponent]
    rw [if_pos (by simpa using he), hdigits hds]
    rfl

theorem head_power {exponent : Option (Bool × List Char)} {power : List Char}
    (hpower : PowerText exponent power) (hrest : Closed rest) :
    ∀ c ∈ (power ++ rest).head?, c.isDigit = false ∧ c ≠ '.' := by
  cases hpower with
  | none => exact fun c hc => ⟨(hrest c hc).1, (hrest c hc).2.1⟩
  | plain he _ | plus he _ | minus he _ =>
    rintro c ⟨⟩
    rcases he with rfl | rfl <;> decide

theorem head_fraction {x : Numeral} {after : List Char}
    (hafter : ∀ c ∈ after.head?, c.isDigit = false) :
    ∀ c ∈ (x.fractionText ++ after).head?, c.isDigit = false := by
  cases hfraction : x.fraction with
  | nil => simpa [Numeral.fractionText, hfraction] using hafter
  | cons d ds => simp [Numeral.fractionText, hfraction]

theorem scanNumeral_text {x : Numeral} (hx : x.Spelled cs) (atEnd : Fault) (hrest : Closed rest) :
    scanNumeral atEnd (cs ++ rest) = .ok (x, rest) := by
  obtain ⟨hwhole, hzero, hfraction, hpower⟩ := hx
  rename_i power
  have hdigits : scanDigits atEnd (x.whole ++ (x.fractionText ++ (power ++ rest))) =
      .ok (x.whole, x.fractionText ++ (power ++ rest)) :=
    scanDigits_text hwhole atEnd
      (head_fraction fun c hc => (head_power hpower hrest c hc).1)
  have hfraction' : scanFraction atEnd (x.fractionText ++ (power ++ rest)) =
      .ok (x.fraction, power ++ rest) :=
    scanFraction_text hfraction atEnd (head_power hpower hrest)
  have hexponent := scanExponent_text hpower atEnd hrest
  have hsign : ∀ c ∈ (x.whole ++ (x.fractionText ++ (power ++ rest))).head?, c ≠ '-' := by
    obtain ⟨d, ds, hd⟩ := List.exists_cons_of_ne_nil hwhole.1
    simpa [hd] using (ne_sign_of_isDigit (hwhole.2 d (by simp [hd]))).1
  simp only [List.append_assoc]
  generalize x.whole ++ (x.fractionText ++ (power ++ rest)) = body at *
  cases hnegative : x.negative with
  | true =>
    rw [Numeral.signText, hnegative, if_pos rfl, List.cons_append, List.nil_append, scanNumeral]
    simp only [hdigits, hfraction', hexponent, bind, Except.bind]
    rw [← hnegative]
    rfl
  | false =>
    rw [Numeral.signText, hnegative, if_neg (by simp), List.nil_append, scanNumeral]
    · simp only [hdigits, hfraction', hexponent, bind, Except.bind]
      rw [← hnegative]
      rfl
    · rintro body rfl
      exact hsign '-' rfl rfl

/-! ## Documents -/

theorem closed_comma (rest : List Char) : Closed (',' :: rest) := by
  rintro c ⟨⟩
  decide

theorem closed_bracket (rest : List Char) : Closed (']' :: rest) := by
  rintro c ⟨⟩
  decide

theorem closed_brace (rest : List Char) : Closed ('}' :: rest) := by
  rintro c ⟨⟩
  decide

theorem closed_of_isGap {c : Char} (hc : isGap c = true) (rest : List Char) :
    Closed (c :: rest) := by
  simp only [isGap, Bool.or_eq_true, beq_iff_eq] at hc
  rintro c' ⟨⟩
  rcases hc with ((rfl | rfl) | rfl) | rfl <;> decide

theorem closed_append (hg : Gap g) (hrest : Closed rest) : Closed (g ++ rest) := by
  cases g with
  | nil => exact hrest
  | cons c g => exact closed_of_isGap (hg c (by simp)) _

/-- The first character of a document tells which kind it is. -/
inductive Mark : Tree → Char → Prop
  | null : Mark .null 'n'
  | yes : Mark (.boolean true) 't'
  | no : Mark (.boolean false) 'f'
  | number {x : Numeral} {c : Char} (hc : c = '-' ∨ c.isDigit = true) : Mark (.number x) c
  | string {s : String} : Mark (.string s) '"'
  | list {ts : List Tree} : Mark (.list ts) '['
  | object {ms : List (String × Tree)} : Mark (.object ms) '{'

theorem Numeral.Spelled.mark {x : Numeral} (h : x.Spelled cs) :
    ∃ c cs', cs = c :: cs' ∧ (c = '-' ∨ c.isDigit = true) := by
  obtain ⟨hwhole, -, -, -⟩ := h
  obtain ⟨d, ds, hds⟩ := List.exists_cons_of_ne_nil hwhole.1
  cases hnegative : x.negative with
  | true => exact ⟨'-', _, by rw [signText, hnegative]; rfl, .inl rfl⟩
  | false =>
    exact ⟨d, _, by rw [signText, hnegative, hds]; rfl, .inr (hwhole.2 d (by simp [hds]))⟩

theorem Spells.mark {t : Tree} (h : Spells (.document t) cs) :
    ∃ c cs', cs = c :: cs' ∧ Mark t c := by
  cases h with
  | null => exact ⟨_, _, rfl, .null⟩
  | yes => exact ⟨_, _, rfl, .yes⟩
  | no => exact ⟨_, _, rfl, .no⟩
  | number hx =>
    obtain ⟨c, cs', hcs, hc⟩ := hx.mark
    exact ⟨c, cs', hcs, .number hc⟩
  | string hs => exact ⟨_, _, rfl, .string⟩
  | emptyList hg => exact ⟨_, _, rfl, .list⟩
  | list hts => exact ⟨_, _, rfl, .list⟩
  | emptyObject hg => exact ⟨_, _, rfl, .object⟩
  | object hms => exact ⟨_, _, rfl, .object⟩

theorem not_gap_of_number {c : Char} (hc : c = '-' ∨ c.isDigit = true) : isGap c = false := by
  rcases hc with rfl | hc
  · rfl
  · cases hgap : isGap c with
    | false => rfl
    | true =>
      simp only [isGap, Bool.or_eq_true, beq_iff_eq] at hgap
      rcases hgap with ((rfl | rfl) | rfl) | rfl <;> cases hc

theorem ne_of_number {c d : Char} (hc : c = '-' ∨ c.isDigit = true)
    (hd : d ≠ '-' ∧ d.isDigit = false) : c ≠ d := by
  rintro rfl
  rcases hc with hc | hc
  · exact hd.1 hc
  · rw [hd.2] at hc
    cases hc

theorem Mark.not_gap {t : Tree} {c : Char} (h : Mark t c) :
    isGap c = false ∧ c ≠ ']' ∧ c ≠ '}' ∧ c ≠ ',' := by
  cases h with
  | number hc =>
    exact ⟨not_gap_of_number hc, ne_of_number hc (by decide), ne_of_number hc (by decide),
      ne_of_number hc (by decide)⟩
  | _ => decide

end VisualRules.Json
