import VisualRules.Json.Record
import VisualRules.Proofs.Json.Form

/-!
# How far a value reaches

What a scanner takes off the front of a text is a piece of that text, and the
piece alone decides what is taken: behind it may follow anything, or anything that
cannot belong to a number. Scanners are described by the texts that they relate,
so that pieces that follow one another are composed. What is passed over as a value
is a form.
-/

namespace VisualRules.Json

variable {cs rest : List Char}

/-! ## Results of scanners -/

theorem bind_eq_ok_iff {ε α β : Type} {x : Except ε α} {f : α → Except ε β} {b : β} :
    (x >>= f) = .ok b ↔ ∃ a, x = .ok a ∧ f a = .ok b := by
  cases x with
  | error e => simp [bind, Except.bind]
  | ok a => simp [bind, Except.bind]

theorem Reader.lift_eq_ok_iff {α : Type} {x : Except Fault α} {a : α} :
    Reader.lift x = .ok a ↔ x = .ok a := by
  cases x <;> simp [Reader.lift, Except.mapError]

theorem Reader.within_eq_ok_iff {α : Type} {s : Step} {x : Except Refusal α} {a : α} :
    Reader.within s x = .ok a ↔ x = .ok a := by
  cases x <;> simp [Reader.within, Except.mapError]

theorem exists_gap (cs : List Char) : ∃ g, Gap g ∧ cs = g ++ dropGap cs :=
  ⟨cs.takeWhile isGap, fun _ hc => List.mem_takeWhile_imp hc, List.takeWhile_append_dropWhile.symm⟩

/-! ## Pieces at the front -/

/-- From a text to the rest behind a piece that is not empty. What follows the piece
may be exchanged for any text of which `after` holds. -/
def Framed (after : List Char → Prop) (R : List Char → List Char → Prop) : Prop :=
  ∀ ⦃cs rest⦄, R cs rest →
    ∃ front, front ≠ [] ∧ cs = front ++ rest ∧ ∀ more, after more → R (front ++ more) more

/-- Anything may follow. -/
abbrev Anything : List Char → Prop := fun _ => True

namespace Framed

variable {after P : List Char → Prop} {R S : List Char → List Char → Prop}

theorem mono (h : Framed Anything R) : Framed after R := by
  intro cs rest hR
  obtain ⟨front, hne, hcs, hmore⟩ := h hR
  exact ⟨front, hne, hcs, fun more _ => hmore more trivial⟩

theorem congr (h : Framed after R) (hiff : ∀ cs rest, S cs rest ↔ R cs rest) :
    Framed after S := by
  intro cs rest hS
  obtain ⟨front, hne, hcs, hmore⟩ := h ((hiff cs rest).mp hS)
  exact ⟨front, hne, hcs, fun more hafter => (hiff _ _).mpr (hmore more hafter)⟩

/-- One piece and then another one. What the first asks of the text behind it is what
the second finds there. -/
theorem comp (hR : Framed P R) (hS : Framed after S) (hP : ∀ cs rest, S cs rest → P cs) :
    Framed after (Relation.Comp R S) := by
  rintro cs rest ⟨mid, hleft, hright⟩
  obtain ⟨f, hf, rfl, hfirst⟩ := hR hleft
  obtain ⟨f', -, rfl, hsecond⟩ := hS hright
  refine ⟨f ++ f', by simp [hf], by rw [List.append_assoc], fun more hafter => ?_⟩
  have hmore := hsecond more hafter
  rw [List.append_assoc]
  exact ⟨f' ++ more, hfirst _ (hP _ _ hmore), hmore⟩

theorem exists_ {ι : Type} {R : ι → List Char → List Char → Prop}
    (h : ∀ i, Framed after (R i)) : Framed after fun cs rest => ∃ i, R i cs rest := by
  rintro cs rest ⟨i, hR⟩
  obtain ⟨front, hne, hcs, hmore⟩ := h i hR
  exact ⟨front, hne, hcs, fun more hafter => ⟨i, hmore more hafter⟩⟩

theorem or (hR : Framed after R) (hS : Framed after S) :
    Framed after fun cs rest => R cs rest ∨ S cs rest := by
  rintro cs rest (h | h)
  · obtain ⟨front, hne, hcs, hmore⟩ := hR h
    exact ⟨front, hne, hcs, fun more hafter => .inl (hmore more hafter)⟩
  · obtain ⟨front, hne, hcs, hmore⟩ := hS h
    exact ⟨front, hne, hcs, fun more hafter => .inr (hmore more hafter)⟩

theorem and_const {p : Prop} (h : Framed after R) : Framed after fun cs rest => R cs rest ∧ p := by
  rintro cs rest ⟨hR, hp⟩
  obtain ⟨front, hne, hcs, hmore⟩ := h hR
  exact ⟨front, hne, hcs, fun more hafter => ⟨hmore more hafter, hp⟩⟩

/-- A look at the first character does not reach behind the piece. -/
theorem head {p : Option Char → Prop} (h : Framed after R) :
    Framed after fun cs rest => p cs.head? ∧ R cs rest := by
  rintro cs rest ⟨hp, hR⟩
  obtain ⟨front, hne, rfl, hmore⟩ := h hR
  obtain ⟨c, f, rfl⟩ := List.exists_cons_of_ne_nil hne
  exact ⟨_, hne, rfl, fun more hafter => ⟨hp, hmore more hafter⟩⟩

/-- A given character. -/
theorem mark (c : Char) : Framed Anything fun cs rest => cs = c :: rest := by
  rintro cs rest rfl
  exact ⟨[c], by simp, rfl, fun more _ => rfl⟩

theorem isGap_of_dropGap {c : Char} (h : dropGap cs = c :: rest) : isGap c = false := by
  have hhead := List.head?_dropWhile_not isGap cs
  rw [← dropGap, h] at hhead
  exact hhead

/-- White space in front belongs to the piece. -/
theorem behindGap (h : Framed after R) : Framed after fun cs rest => R (dropGap cs) rest := by
  intro cs rest hR
  obtain ⟨front, hne, hcs, hmore⟩ := h hR
  obtain ⟨g, hg, hsplit⟩ := exists_gap cs
  obtain ⟨c, f, rfl⟩ := List.exists_cons_of_ne_nil hne
  have hgap : isGap c = false := isGap_of_dropGap hcs
  refine ⟨g ++ c :: f, by simp, by rw [hsplit, hcs, List.append_assoc], fun more hafter => ?_⟩
  show R (dropGap (g ++ c :: f ++ more)) more
  rw [List.append_assoc, List.cons_append, dropGap_mark hg hgap]
  exact hmore more hafter

/-- A given mark, behind white space. -/
theorem gapMark (c : Char) : Framed Anything fun cs rest => dropGap cs = c :: rest :=
  (mark c).behindGap

/-- What a loop reads is a piece, and its length is enough fuel. Each round takes a
step, and what a step asks of the text behind it is what the later rounds find. -/
theorem exists_front_of_run {σ : Type} (run : Nat → σ → List Char → List Char → Prop)
    (finish : σ → List Char → List Char → Prop) (step : σ → σ → List Char → List Char → Prop)
    (hzero : ∀ s cs rest, ¬ run 0 s cs rest)
    (hsucc : ∀ n s cs rest, run (n + 1) s cs rest ↔
      finish s cs rest ∨ ∃ s' mid, step s s' cs mid ∧ run n s' mid rest)
    (hfinish : ∀ s, Framed Anything (finish s)) (hstep : ∀ s s', Framed P (step s s'))
    (hlater : ∀ {s s' cs mid}, step s s' cs mid → ∀ {n more rest}, run n s' more rest → P more)
    {n : Nat} {s : σ} (h : run n s cs rest) :
    ∃ front, front ≠ [] ∧ cs = front ++ rest ∧
      ∀ more m, front.length ≤ m → run m s (front ++ more) more := by
  induction n generalizing s cs with
  | zero => exact absurd h (hzero s cs rest)
  | succ n ih =>
      rcases (hsucc n s cs rest).mp h with hlast | ⟨s', mid, hfirst, hrest⟩
      · obtain ⟨front, hne, rfl, hmore⟩ := hfinish s hlast
        have hpos := List.length_pos_iff.mpr hne
        refine ⟨front, hne, rfl, fun more m hm => ?_⟩
        obtain ⟨m, rfl⟩ := Nat.exists_eq_add_of_le' (show 1 ≤ m by omega)
        exact (hsucc m s _ _).mpr (.inl (hmore more trivial))
      · obtain ⟨front, hne, rfl, hmore⟩ := hstep s s' hfirst
        obtain ⟨front', -, rfl, hmore'⟩ := ih hrest
        have hpos := List.length_pos_iff.mpr hne
        refine ⟨front ++ front', by simp [hne], by rw [List.append_assoc], fun more m hm => ?_⟩
        rw [List.length_append] at hm
        obtain ⟨m, rfl⟩ := Nat.exists_eq_add_of_le' (show 1 ≤ m by omega)
        have hlast := hmore' more m (by omega)
        rw [List.append_assoc]
        exact (hsucc m s _ _).mpr (.inr ⟨s', _, hmore _ (hlater hfirst hlast), hlast⟩)

end Framed

/-! ## Words and strings -/

theorem scanWord_eq_ok_iff {ws : List Char} : scanWord ws cs = .ok rest ↔ cs = ws ++ rest := by
  induction ws generalizing cs with
  | nil => simp [scanWord]
  | cons w ws ih =>
      cases cs with
      | nil => simp [scanWord]
      | cons c cs =>
          by_cases hc : c = w
          · simp [scanWord, hc, ih]
          · simp [scanWord, hc]

theorem framed_word {w : Char} {ws : List Char} :
    Framed Anything fun cs rest => scanWord (w :: ws) cs = .ok rest := by
  intro cs rest h
  refine ⟨w :: ws, by simp, scanWord_eq_ok_iff.mp h, ?_⟩
  intro more _
  exact scanWord_eq_ok_iff.mpr rfl

/-- What is read of a string is the text of a string up to its closing quote. -/
theorem exists_stringText {read s : List Char} (h : scanString read cs = .ok (s, rest)) :
    ∃ t front, s = read.reverse ++ t ∧ StringText t front ∧ cs = front ++ '"' :: rest := by
  fun_induction scanString read cs with
  | case2 read cs =>
      cases h
      exact ⟨[], [], by simp, .nil, rfl⟩
  | case6 read a b c d n hunit _ hhigh e f g k cs m hunit' hlow ih =>
      obtain ⟨t, front, rfl, htext, rfl⟩ := ih h
      exact ⟨_ :: t, _, by simp, .pair hunit hhigh hunit' hlow htext, by simp⟩
  | case9 read a b c d cs n hunit hlow hhigh ih =>
      obtain ⟨t, front, rfl, htext, rfl⟩ := ih h
      exact ⟨_ :: t, _, by simp, .unit hunit (by simpa using hlow) (by simpa using hhigh) htext,
        by simp⟩
  | case11 read c cs _ _ x hescaped ih =>
      obtain ⟨t, front, rfl, htext, rfl⟩ := ih h
      exact ⟨_ :: t, _, by simp, .escape hescaped htext, by simp⟩
  | case15 read c cs hquote _ _ hescape hend hc ih =>
      obtain ⟨t, front, rfl, htext, rfl⟩ := ih h
      obtain ⟨d, ds, hcons⟩ := List.exists_cons_of_ne_nil
        (show front ++ '"' :: rest ≠ [] by simp)
      have hslash : c ≠ '\\' := fun hslash => hescape d ds hslash hcons
      exact ⟨c :: t, c :: front, by simp, .plain hc hquote hslash htext, by simp⟩
  | _ => cases h

theorem framed_string {read s : List Char} :
    Framed Anything fun cs rest => scanString read cs = .ok (s, rest) := by
  intro cs rest h
  obtain ⟨t, front, rfl, htext, rfl⟩ := exists_stringText h
  refine ⟨front ++ ['"'], by simp, by simp, fun more _ => ?_⟩
  rw [List.append_assoc]
  exact scanString_text htext read more

/-- What is passed over as a string is quoted text up to its closing quote. -/
theorem exists_quotedText (h : skipString cs = .ok rest) :
    ∃ front, QuotedText front ∧ cs = front ++ '"' :: rest := by
  fun_induction skipString cs with
  | case2 cs =>
      cases h
      exact ⟨[], .nil, rfl⟩
  | case4 a b c d cs n hunit ih =>
      obtain ⟨front, hfront, rfl⟩ := ih h
      exact ⟨_, .unit hunit hfront, by simp⟩
  | case6 c cs _ hu x hescaped ih =>
      obtain ⟨front, hfront, rfl⟩ := ih h
      exact ⟨_, .escape hescaped hfront, by simp⟩
  | case10 c cs hquote _ _ hescape hend hc ih =>
      obtain ⟨front, hfront, rfl⟩ := ih h
      obtain ⟨d, ds, hcons⟩ := List.exists_cons_of_ne_nil (show front ++ '"' :: rest ≠ [] by simp)
      have hslash : c ≠ '\\' := fun hslash => hescape d ds hslash hcons
      exact ⟨_, .plain hc hquote hslash hfront, by simp⟩
  | _ => cases h

/-! ## Numbers -/

theorem exists_digits {atEnd : Fault} {ds : List Char}
    (h : scanDigits atEnd cs = .ok (ds, rest)) : Digits ds ∧ cs = ds ++ rest := by
  have hsplit : cs = (digitRun cs).1 ++ (digitRun cs).2 := List.takeWhile_append_dropWhile.symm
  have hdigits : ∀ c ∈ (digitRun cs).1, c.isDigit = true := fun _ hc => List.mem_takeWhile_imp hc
  rw [scanDigits] at h
  generalize digitRun cs = run at *
  obtain ⟨ds', rest'⟩ := run
  cases ds' with
  | nil => cases rest' <;> cases h
  | cons d ds' =>
      cases h
      exact ⟨⟨by simp, hdigits⟩, hsplit⟩

theorem exists_fractionText {atEnd : Fault} {x : Numeral}
    (h : scanFraction atEnd cs = .ok (x.fraction, rest)) :
    (x.fraction = [] ∨ Digits x.fraction) ∧ cs = x.fractionText ++ rest := by
  unfold scanFraction at h
  split at h
  · obtain ⟨hdigits, rfl⟩ := exists_digits h
    obtain ⟨d, ds, hds⟩ := List.exists_cons_of_ne_nil hdigits.1
    exact ⟨.inr hdigits, by simp [Numeral.fractionText, hds]⟩
  · simp only [Except.ok.injEq, Prod.mk.injEq] at h
    exact ⟨.inl h.1.symm, by simp [Numeral.fractionText, ← h.1, h.2]⟩

theorem exists_power {atEnd : Fault} {negative : Bool} {exponent : Option (Bool × List Char)}
    (h : (do let (ds, cs) ← scanDigits atEnd cs; return (some (negative, ds), cs))
      = Except.ok (exponent, rest)) :
    ∃ ds, exponent = some (negative, ds) ∧ Digits ds ∧ cs = ds ++ rest := by
  obtain ⟨⟨ds, cs'⟩, hscan, hexponent⟩ := bind_eq_ok_iff.mp h
  cases hexponent
  exact ⟨ds, rfl, exists_digits hscan⟩

theorem exists_powerText {atEnd : Fault} {exponent : Option (Bool × List Char)}
    (h : scanExponent atEnd cs = .ok (exponent, rest)) :
    ∃ power, PowerText exponent power ∧ cs = power ++ rest := by
  unfold scanExponent at h
  split at h
  · rename_i c cs
    by_cases hc : c = 'e' ∨ c = 'E'
    · rw [if_pos (by simpa using hc)] at h
      split at h
      rename_i hsign
      obtain ⟨ds, rfl, hds, rfl⟩ := exists_power h
      split at hsign <;> cases hsign
      · exact ⟨_, .minus hc hds, rfl⟩
      · exact ⟨_, .plus hc hds, rfl⟩
      · exact ⟨_, .plain hc hds, rfl⟩
    · rw [if_neg (by simpa using hc)] at h
      cases h
      exact ⟨[], .none, rfl⟩
  · cases h
    exact ⟨[], .none, rfl⟩

/-- What is read of a number is the text of a numeral. -/
theorem exists_spelled {atEnd : Fault} {x : Numeral}
    (h : scanNumeral atEnd cs = .ok (x, rest)) :
    ∃ front, x.Spelled front ∧ cs = front ++ rest := by
  unfold scanNumeral at h
  split at h
  rename_i negative body hsign
  obtain ⟨⟨whole, cs₁⟩, hwhole, h⟩ := bind_eq_ok_iff.mp h
  dsimp only at h
  split at h
  · cases h
  · rename_i hzero
    obtain ⟨⟨fraction, cs₂⟩, hfraction, h⟩ := bind_eq_ok_iff.mp h
    obtain ⟨⟨exponent, cs₃⟩, hexponent, h⟩ := bind_eq_ok_iff.mp h
    cases h
    obtain ⟨hdigits, rfl⟩ := exists_digits hwhole
    obtain ⟨hpoint, rfl⟩ := exists_fractionText
      (x := ⟨negative, whole, fraction, exponent⟩) hfraction
    obtain ⟨power, hpower, rfl⟩ := exists_powerText hexponent
    refine ⟨_, .mk hdigits (fun c ds hw => hzero c ds hw) hpoint hpower, ?_⟩
    split at hsign <;> cases hsign <;> simp [Numeral.signText]

theorem framed_numeral (atEnd : Fault) (x : Numeral) :
    Framed Closed fun cs rest => scanNumeral atEnd cs = .ok (x, rest) := by
  intro cs rest h
  obtain ⟨front, hx, rfl⟩ := exists_spelled h
  obtain ⟨c, f, rfl, -⟩ := hx.mark
  exact ⟨c :: f, by simp, rfl, fun more hmore => scanNumeral_text hx atEnd hmore⟩

theorem framed_number {n : Number} :
    Framed Closed fun cs rest => scanNumber cs = .ok (n, rest) := by
  refine Framed.congr (Framed.exists_ fun x : Numeral =>
    (framed_numeral .endOfValue x).and_const (p := x.value = .ok n)) ?_
  intro cs rest
  simp only [scanNumber, bind_eq_ok_iff, Prod.exists, pure, Except.pure, Except.ok.injEq,
    Prod.mk.injEq]
  constructor
  · rintro ⟨x, cs', hx, m, hm, rfl, rfl⟩
    exact ⟨x, hx, hm⟩
  · rintro ⟨x, hx, hm⟩
    exact ⟨x, rest, hx, n, hm, rfl, rfl⟩

/-! ## Values that are passed over -/

theorem exists_mark (h : skipPlain cs = .ok rest) : ∃ m, IsMark m ∧ cs = m ++ rest := by
  unfold skipPlain at h
  split at h
  · cases h
  · exact ⟨_, .null, congrArg _ (scanWord_eq_ok_iff.mp h)⟩
  · exact ⟨_, .yes, congrArg _ (scanWord_eq_ok_iff.mp h)⟩
  · exact ⟨_, .no, congrArg _ (scanWord_eq_ok_iff.mp h)⟩
  · obtain ⟨front, hfront, rfl⟩ := exists_quotedText h
    exact ⟨_, .string hfront, by simp⟩
  · split at h
    · obtain ⟨⟨x, rest'⟩, hscan, hrest⟩ := bind_eq_ok_iff.mp h
      cases hrest
      obtain ⟨front, hx, hcs⟩ := exists_spelled hscan
      exact ⟨front, .number hx, hcs⟩
    · cases h

theorem exists_skippedKey (h : skipKey cs = .ok rest) :
    ∃ k g, QuotedText k ∧ Gap g ∧ cs = k ++ '"' :: (g ++ ':' :: rest) := by
  rw [skipKey] at h
  obtain ⟨mid, hstring, hrest⟩ := bind_eq_ok_iff.mp h
  obtain ⟨k, hk, rfl⟩ := exists_quotedText hstring
  obtain ⟨g, hg, hmid⟩ := exists_gap mid
  split at hrest
  · cases hrest
  · rename_i hcolon
    cases hrest
    rw [hcolon] at hmid
    exact ⟨k, g, hk, hg, by rw [hmid]⟩
  · cases hrest

/-- One step of passing over a value: what is due and which brackets are open before
and after it. -/
inductive Passing : Due → List Bracket → List Char → Due → List Bracket → List Char → Prop
  | opening {b : Bracket} {o : List Bracket} {cs mid : List Char}
      (h : dropGap cs = b.opening :: mid) : Passing .value o cs .first (b :: o) mid
  | plain {o : List Bracket} {cs mid : List Char} (h : skipPlain (dropGap cs) = .ok mid) :
      Passing .value o cs .next o mid
  | empty {b : Bracket} {o : List Bracket} {cs mid : List Char}
      (h : dropGap cs = b.closing :: mid) : Passing .first (b :: o) cs .next o mid
  | filled {b : Bracket} {o : List Bracket} {cs : List Char}
      (h : ∃ c t, dropGap cs = c :: t ∧ c ≠ b.closing) :
      Passing .first (b :: o) cs b.due (b :: o) cs
  /-- No bracket is open, which the first entry of one never meets. -/
  | bare {cs : List Char} : Passing .first [] cs .value [] cs
  | key {o : List Bracket} {cs t mid : List Char} (h : dropGap cs = '"' :: t)
      (hkey : skipKey t = .ok mid) : Passing .key o cs .value o mid
  | comma {b : Bracket} {o : List Bracket} {cs mid : List Char} (h : dropGap cs = ',' :: mid) :
      Passing .next (b :: o) cs b.due (b :: o) mid
  | closing {b : Bracket} {o : List Bracket} {cs mid : List Char}
      (h : dropGap cs = b.closing :: mid) : Passing .next (b :: o) cs .next o mid

/-- A step is taken, and what is left is passed over. -/
def Proceeds (n : Nat) (due : Due) (o : List Bracket) (cs rest : List Char) : Prop :=
  ∃ due' o' mid, Passing due o cs due' o' mid ∧ skipOpen n due' o' mid = .ok rest

theorem proceeds_value {n : Nat} {o : List Bracket}
    (h : skipOpen (n + 1) .value o cs = .ok rest) : Proceeds n .value o cs rest := by
  rw [skipOpen] at h
  split at h
  · exact ⟨_, _, _, .opening (b := .list) ‹_›, h⟩
  · exact ⟨_, _, _, .opening (b := .object) ‹_›, h⟩
  · obtain ⟨mid, hplain, h⟩ := bind_eq_ok_iff.mp h
    exact ⟨_, _, _, .plain hplain, h⟩

theorem proceeds_first {n : Nat} {o : List Bracket}
    (h : skipOpen (n + 1) .first o cs = .ok rest) : Proceeds n .first o cs rest := by
  cases o with
  | nil =>
      refine ⟨_, _, _, .bare, ?_⟩
      rw [← skipOpen_dropGap n _ .list]
      exact h
  | cons b o =>
      cases hmark : dropGap cs with
      | nil => cases b <;> simp [skipOpen, hmark] at h
      | cons c t =>
          by_cases hc : c = b.closing
          · refine ⟨_, _, _, .empty (hmark.trans (by rw [hc])), ?_⟩
            cases b <;> simpa [skipOpen, hmark, hc] using h
          · refine ⟨_, _, _, .filled ⟨c, t, hmark, hc⟩, ?_⟩
            rw [← skipOpen_dropGap n _ b, hmark]
            cases b <;> simpa [skipOpen, hmark, hc] using h

theorem proceeds_key {n : Nat} {o : List Bracket}
    (h : skipOpen (n + 1) .key o cs = .ok rest) : Proceeds n .key o cs rest := by
  rw [skipOpen] at h
  split at h
  · cases h
  · obtain ⟨mid, hkey, h⟩ := bind_eq_ok_iff.mp h
    exact ⟨_, _, _, .key ‹_› hkey, h⟩
  · cases h

theorem proceeds_next {n : Nat} {b : Bracket} {o : List Bracket}
    (h : skipOpen (n + 1) .next (b :: o) cs = .ok rest) : Proceeds n .next (b :: o) cs rest := by
  cases b with
  | list =>
      rw [skipOpen] at h
      split at h
      · cases h
      · exact ⟨_, _, _, .comma (b := .list) ‹_›, h⟩
      · exact ⟨_, _, _, .closing (b := .list) ‹_›, h⟩
      · cases h
  | object =>
      rw [skipOpen] at h
      split at h
      · cases h
      · exact ⟨_, _, _, .comma (b := .object) ‹_›, h⟩
      · exact ⟨_, _, _, .closing (b := .object) ‹_›, h⟩
      · cases h

theorem closed_of_dropGap {c : Char} (h : dropGap cs = c :: rest)
    (hc : c = ',' ∨ c = ']' ∨ c = '}') : Closed cs := by
  obtain ⟨g, hg, hsplit⟩ := exists_gap cs
  rw [hsplit, h]
  refine closed_append hg ?_
  rcases hc with rfl | rfl | rfl
  · exact closed_comma rest
  · exact closed_bracket rest
  · exact closed_brace rest

/-- What is passed over as a value is a form behind white space. -/
def ValuePassed (n : Nat) : Prop :=
  ∀ o cs rest, skipOpen n .value o cs = .ok rest → ∃ f g front mid m, m < n ∧ Gap g ∧
    Renders (.form f) front ∧ cs = g ++ (front ++ mid) ∧ skipOpen m .next o mid = .ok rest

/-- What is passed over in a list are its entries and its closing mark. -/
def EntriesPassed (n : Nat) : Prop :=
  ∀ fresh o cs rest, skipOpen n (dueIn fresh) (.list :: o) cs = .ok rest →
    ∃ fs front mid m, m < n ∧ Renders (.entries fresh fs) front ∧ cs = front ++ mid ∧
      skipOpen m .next o mid = .ok rest

/-- What is passed over in an object are its members and its closing mark. -/
def MembersPassed (n : Nat) : Prop :=
  ∀ fresh o cs rest, skipOpen n (dueIn fresh) (.object :: o) cs = .ok rest →
    ∃ ms front mid m, m < n ∧ Renders (.members fresh ms) front ∧ cs = front ++ mid ∧
      skipOpen m .next o mid = .ok rest

theorem split_at_mark {c : Char} (h : dropGap cs = c :: rest) :
    ∃ g, Gap g ∧ cs = g ++ c :: rest := by
  obtain ⟨g, hg, hsplit⟩ := exists_gap cs
  exact ⟨g, hg, by rw [← h]; exact hsplit⟩

theorem valuePassed_succ {n : Nat} (hentries : EntriesPassed n) (hmembers : MembersPassed n) :
    ValuePassed (n + 1) := by
  intro o cs rest h
  obtain ⟨due', o', mid, hstep, hrun⟩ := proceeds_value h
  cases hstep with
  | @opening b _ _ _ hmark =>
      obtain ⟨g, hg, rfl⟩ := split_at_mark hmark
      cases b with
      | list =>
          obtain ⟨fs, front, mid', m, hm, hfs, rfl, hrest⟩ := hentries true o mid rest hrun
          exact ⟨_, g, _, mid', m, by omega, hg, .list hfs, rfl, hrest⟩
      | object =>
          obtain ⟨ms, front, mid', m, hm, hms, rfl, hrest⟩ := hmembers true o mid rest hrun
          exact ⟨_, g, _, mid', m, by omega, hg, .object hms, rfl, hrest⟩
  | plain hplain =>
      obtain ⟨front, hmark, hsplit⟩ := exists_mark hplain
      obtain ⟨g, hg, hcs⟩ := exists_gap cs
      rw [hsplit] at hcs
      exact ⟨_, g, front, mid, n, by omega, hg, .mark hmark, hcs, hrun⟩

theorem exists_entry {n : Nat} (hvalue : ValuePassed n) (hentries : ∀ m < n, EntriesPassed m)
    {fresh : Bool} {lead : List Char} (hlead : Lead fresh lead) {o : List Bracket}
    (h : skipOpen n .value (.list :: o) cs = .ok rest) :
    ∃ fs front mid m, m < n + 1 ∧ Renders (.entries fresh fs) front ∧ lead ++ cs = front ++ mid ∧
      skipOpen m .next o mid = .ok rest := by
  obtain ⟨f, g, front, mid, m, hm, hg, hf, rfl, hnext⟩ := hvalue _ _ _ h
  obtain ⟨fs, front', mid', m', hm', hfs, rfl, hrest⟩ := hentries m hm false _ _ _ hnext
  exact ⟨f :: fs, _, mid', m', by omega, .entry hlead hg hf hfs, by simp, hrest⟩

theorem entriesPassed_succ {n : Nat} (hvalue : ValuePassed n)
    (hentries : ∀ m < n, EntriesPassed m) : EntriesPassed (n + 1) := by
  intro fresh o cs rest h
  cases fresh with
  | true =>
      obtain ⟨due', o', mid, hstep, hrun⟩ := proceeds_first h
      cases hstep with
      | empty hmark =>
          obtain ⟨g, hg, rfl⟩ := split_at_mark hmark
          exact ⟨[], _, mid, n, by omega, .entriesEnd hg, by simp, hrun⟩
      | filled => exact exists_entry hvalue hentries .fresh hrun
  | false =>
      obtain ⟨due', o', mid, hstep, hrun⟩ := proceeds_next h
      cases hstep with
      | closing hmark =>
          obtain ⟨g, hg, rfl⟩ := split_at_mark hmark
          exact ⟨[], _, mid, n, by omega, .entriesEnd hg, by simp, hrun⟩
      | comma hmark =>
          obtain ⟨g, hg, rfl⟩ := split_at_mark hmark
          have hentry := exists_entry hvalue hentries (.comma hg) hrun
          simpa using hentry

theorem exists_member {n : Nat} (hvalue : ∀ m < n, ValuePassed m)
    (hmembers : ∀ m < n, MembersPassed m) {fresh : Bool} {lead : List Char}
    (hlead : Lead fresh lead) {o : List Bracket}
    (h : skipOpen n .key (.object :: o) cs = .ok rest) :
    ∃ ms front mid m, m < n + 1 ∧ Renders (.members fresh ms) front ∧ lead ++ cs = front ++ mid ∧
      skipOpen m .next o mid = .ok rest := by
  cases n with
  | zero => cases h
  | succ n =>
      obtain ⟨due', o', mid, hstep, hrun⟩ := proceeds_key h
      cases hstep with
      | key hmark hkey =>
          obtain ⟨g, hg, rfl⟩ := split_at_mark hmark
          obtain ⟨k, g', hk, hg', rfl⟩ := exists_skippedKey hkey
          obtain ⟨f, g'', front, mid, m, hm, hg'', hf, rfl, hnext⟩ :=
            hvalue n (by omega) _ _ _ hrun
          obtain ⟨ms, front', mid', m', hm', hms, rfl, hrest⟩ :=
            hmembers m (by omega) false _ _ _ hnext
          exact ⟨(k, f) :: ms, _, mid', m', by omega, .member hlead hg hk hg' hg'' hf hms,
            by simp, hrest⟩

theorem membersPassed_succ {n : Nat} (hvalue : ∀ m < n, ValuePassed m)
    (hmembers : ∀ m < n, MembersPassed m) : MembersPassed (n + 1) := by
  intro fresh o cs rest h
  cases fresh with
  | true =>
      obtain ⟨due', o', mid, hstep, hrun⟩ := proceeds_first h
      cases hstep with
      | empty hmark =>
          obtain ⟨g, hg, rfl⟩ := split_at_mark hmark
          exact ⟨[], _, mid, n, by omega, .membersEnd hg, by simp, hrun⟩
      | filled => exact exists_member hvalue hmembers .fresh hrun
  | false =>
      obtain ⟨due', o', mid, hstep, hrun⟩ := proceeds_next h
      cases hstep with
      | closing hmark =>
          obtain ⟨g, hg, rfl⟩ := split_at_mark hmark
          exact ⟨[], _, mid, n, by omega, .membersEnd hg, by simp, hrun⟩
      | comma hmark =>
          obtain ⟨g, hg, rfl⟩ := split_at_mark hmark
          have hmember := exists_member hvalue hmembers (.comma hg) hrun
          simpa using hmember

/-- Strong induction on the fuel: a step leaves less of it, and what follows a value in a
bracket is passed over with what the value has left. -/
theorem passed (n : Nat) : ValuePassed n ∧ EntriesPassed n ∧ MembersPassed n := by
  induction n using Nat.strong_induction_on with
  | _ n ih =>
      cases n with
      | zero =>
          refine ⟨?_, ?_, ?_⟩
          · intro o cs rest h
            cases h
          · intro fresh o cs rest h
            cases h
          · intro fresh o cs rest h
            cases h
      | succ n =>
          have hvalue : ∀ m < n, ValuePassed m := fun m hm => (ih m (by omega)).1
          have hentries : ∀ m < n, EntriesPassed m := fun m hm => (ih m (by omega)).2.1
          have hmembers : ∀ m < n, MembersPassed m := fun m hm => (ih m (by omega)).2.2
          have hlast := ih n (by omega)
          exact ⟨valuePassed_succ hlast.2.1 hlast.2.2, entriesPassed_succ hlast.1 hentries,
            membersPassed_succ hvalue hmembers⟩

/-- What is passed over is a form. -/
theorem exists_form (h : skipValue cs = .ok rest) :
    ∃ f g front, Gap g ∧ Renders (.form f) front ∧ cs = g ++ (front ++ rest) := by
  obtain ⟨f, g, front, mid, m, -, hg, hf, rfl, hend⟩ := (passed _).1 _ _ _ h
  cases m with
  | zero => cases hend
  | succ m =>
      rw [skipOpen] at hend
      obtain rfl : mid = rest := Except.ok.inj hend
      exact ⟨f, g, front, hg, hf, rfl⟩

theorem framed_skipValue : Framed Closed fun cs rest => skipValue cs = .ok rest := by
  intro cs rest h
  obtain ⟨f, g, front, hg, hf, rfl⟩ := exists_form h
  obtain ⟨c, cs', rfl, -⟩ := hf.head
  refine ⟨g ++ c :: cs', by simp, by simp, ?_⟩
  intro more hmore
  show skipValue (g ++ c :: cs' ++ more) = .ok more
  rw [List.append_assoc]
  exact skipValue_form hf hg hmore

end VisualRules.Json
