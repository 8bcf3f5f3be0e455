import VisualRules.Proofs.Json.Layout
import VisualRules.Proofs.Json.Locality
import VisualRules.Proofs.Json.Reading

/-!
# What a form holds

A reader takes a value off the front of a text if the text has a form there that holds a
value, and whatever it takes has a form. So what is read is a property of the form, not of
the text. For strings, integers, variants, absent values and lists this is shown here, with
the changes of layout that leave the value as it is and those that leave none.
-/

namespace VisualRules.Json

variable {α : Type} {cs g rest : List Char}

/-- What a reader takes are the forms that hold a value of its type, and a shape says how
these may be laid out. -/
structure Understands (r : Reader α) (s : Shape) (holds : Form → α → Prop) : Prop where
  reads : ∀ {f cs}, Renders (.form f) cs → ∀ {g rest}, Gap g → Closed rest → ∀ a rest',
    r (g ++ (cs ++ rest)) = .ok (a, rest') ↔ holds f a ∧ rest' = rest
  formed : ∀ {cs a rest}, r cs = .ok (a, rest) →
    ∃ f g front, Gap g ∧ Renders (.form f) front ∧ cs = g ++ (front ++ rest)
  relaid : ∀ {f f'}, Relaid s f f' → ∀ a, holds f a ↔ holds f' a
  spoilt : ∀ {f f'}, Spoilt s f f' → ∀ {a}, holds f a → ∀ b, ¬ holds f' b

theorem gap_append {g' : List Char} (hg : Gap g) (hg' : Gap g') : Gap (g ++ g') := by
  intro c hc
  cases List.mem_append.mp hc with
  | inl h => exact hg c h
  | inr h => exact hg' c h

theorem not_relaid_leaf {f f' : Form} : ¬ Relaid .leaf f f' := by
  intro h
  cases h

theorem not_spoilt_leaf {f f' : Form} : ¬ Spoilt .leaf f f' := by
  intro h
  cases h

/-- The list is at its end where the closing mark is next. -/
theorem Renders.entries_end_iff {fresh : Bool} {fs : List Form} {rest' : List Char}
    (h : Renders (.entries fresh fs) cs) :
    dropGap (cs ++ rest) = ']' :: rest' ↔ fs = [] ∧ rest' = rest := by
  cases h with
  | entriesEnd hg =>
    rw [List.append_assoc, List.singleton_append, dropGap_mark hg (by decide)]
    simp [eq_comm]
  | @entry _ _ _ _ g inner _ hlead hg hf =>
    refine iff_of_false ?_ (by simp)
    obtain ⟨c, cs', rfl, hgap, hc⟩ := hf.head
    intro hend
    cases hlead with
    | fresh =>
      simp only [List.nil_append, List.append_assoc, List.cons_append] at hend
      rw [dropGap_mark hg hgap] at hend
      exact hc (List.cons.inj hend).1
    | comma hg' =>
      simp only [List.append_assoc, List.cons_append, List.nil_append] at hend
      rw [dropGap_mark hg' (by decide)] at hend
      exact absurd (List.cons.inj hend).1 (by decide)

theorem Renders.members_end_iff {fresh : Bool} {ms : List (List Char × Form)}
    {rest' : List Char} (h : Renders (.members fresh ms) cs) :
    dropGap (cs ++ rest) = '}' :: rest' ↔ ms = [] ∧ rest' = rest := by
  cases h with
  | membersEnd hg =>
    rw [List.append_assoc, List.singleton_append, dropGap_mark hg (by decide)]
    simp [eq_comm]
  | member hlead hg =>
    refine iff_of_false ?_ (by simp)
    intro hend
    cases hlead with
    | fresh =>
      simp only [List.nil_append, List.append_assoc, List.cons_append] at hend
      rw [dropGap_mark hg (by decide)] at hend
      exact absurd (List.cons.inj hend).1 (by decide)
    | comma hg' =>
      simp only [List.append_assoc, List.cons_append, List.nil_append] at hend
      rw [dropGap_mark hg' (by decide)] at hend
      exact absurd (List.cons.inj hend).1 (by decide)

/-! ## Marks -/

/-- The text of a string is read up to its own quote, if its units make characters. -/
theorem scanString_quoted_iff {k s rest' : List Char} (hk : QuotedText k) :
    scanString [] (k ++ '"' :: rest) = .ok (s, rest') ↔ StringText s k ∧ rest' = rest := by
  constructor
  · intro h
    obtain ⟨t, front, rfl, htext, hsplit⟩ := exists_stringText h
    -- passing over the string ends at the same quote
    have hskip := skipString_quoted hk rest
    rw [hsplit, skipString_quoted htext.quoted] at hskip
    obtain rfl : rest' = rest := Except.ok.inj hskip
    obtain rfl : k = front := List.append_cancel_right hsplit
    exact ⟨htext, rfl⟩
  · intro ⟨htext, hrest⟩
    rw [hrest]
    exact scanString_text htext [] rest

theorem StringText.inj {s t k : List Char} (hs : StringText s k) (ht : StringText t k) :
    s = t := by
  have hscan := scanString_text hs [] []
  rw [scanString_text ht [] []] at hscan
  simpa using (congrArg Prod.fst (Except.ok.inj hscan)).symm

/-- A key has one name. -/
theorem IsKey.inj {name name' : String} {k : List Char} (h : IsKey name k)
    (h' : IsKey name' k) : name = name' :=
  String.toList_injective (StringText.inj h h')

/-- The form of a string. -/
def Form.quoted (k : List Char) : Form :=
  .mark ('"' :: (k ++ ['"']))

/-- The form of an absent value. -/
def Form.null : Form :=
  .mark ['n', 'u', 'l', 'l']

theorem renders_quoted {s k : List Char} (hk : StringText s k) :
    Renders (.form (.quoted k)) ('"' :: (k ++ ['"'])) :=
  .mark (.string hk.quoted)

theorem Form.quoted.inj {k k' : List Char} (h : quoted k = quoted k') : k = k' := by
  simp only [quoted, mark.injEq, List.cons.injEq, true_and] at h
  exact List.append_cancel_right h

namespace Reader

/-- The string that a form holds. -/
def StringHolds (f : Form) (s : String) : Prop :=
  ∃ k, f = .quoted k ∧ StringText s.toList k

theorem stringAs_quoted_iff {wanted s : String} {k rest' : List Char} (hg : Gap g)
    (hk : QuotedText k) :
    stringAs wanted (g ++ '"' :: (k ++ '"' :: rest)) = .ok (s, rest') ↔
      StringText s.toList k ∧ rest' = rest := by
  rw [stringAs_eq_ok_iff, dropGap_mark hg (by decide)]
  simp only [List.cons.injEq, true_and, exists_eq_left', scanString_quoted_iff hk]
  constructor
  · intro ⟨t, ⟨ht, hrest⟩, hs⟩
    rw [← hs, String.toList_ofList]
    exact ⟨ht, hrest⟩
  · intro ⟨hs, hrest⟩
    exact ⟨s.toList, ⟨hs, hrest⟩, String.ofList_toList⟩

/-- What starts with another mark is no string. -/
theorem stringAs_ne_ok {wanted : String} {c : Char} (hg : Gap g) (hgap : isGap c = false)
    (hc : c ≠ '"') {x : String × List Char} : stringAs wanted (g ++ c :: cs) ≠ .ok x := by
  intro h
  obtain ⟨mid, hmark, -⟩ := stringAs_eq_ok_iff.mp h
  rw [dropGap_mark hg hgap] at hmark
  exact hc (List.cons.inj hmark).1

theorem stringHolds_quoted_iff {k : List Char} {s : String} :
    StringHolds (.quoted k) s ↔ StringText s.toList k := by
  constructor
  · intro ⟨k', hk, hs⟩
    rw [Form.quoted.inj hk]
    exact hs
  · intro hs
    exact ⟨k, rfl, hs⟩

theorem stringHolds_empty_iff {s : String} : StringHolds (.mark ['"', '"']) s ↔ s = "" := by
  constructor
  · intro ⟨k, hk, htext⟩
    obtain rfl : [] = k := Form.quoted.inj hk
    exact String.toList_eq_nil_iff.mp (htext.inj .nil)
  · intro h
    rw [h]
    exact ⟨[], rfl, .nil⟩

theorem not_stringHolds {f : Form} {s : String} {c : Char} (hf : Renders (.form f) (c :: cs))
    (hc : c ≠ '"') : ¬ StringHolds f s := by
  intro ⟨k, hk, _⟩
  rw [hk] at hf
  cases hf
  exact hc rfl

theorem understands_string : Understands Reader.string .leaf StringHolds where
  reads := by
    intro f cs hf g rest hg hrest a rest'
    have hother : ∀ {c cs'}, cs = c :: cs' → isGap c = false → c ≠ '"' →
        (Reader.string (g ++ (cs ++ rest)) = .ok (a, rest') ↔ StringHolds f a ∧ rest' = rest) := by
      intro c cs' hcs hgap hc
      rw [hcs] at hf ⊢
      exact iff_of_false (stringAs_ne_ok hg hgap hc) fun h => not_stringHolds hf hc h.1
    cases hf with
    | mark h =>
      cases h with
      | null | yes | no => exact hother rfl (by decide) (by decide)
      | number hx =>
        obtain ⟨c, cs', hcs, hc⟩ := hx.mark
        exact hother hcs (not_gap_of_number hc) (ne_of_number hc (by decide))
      | @string k hk =>
        rw [List.cons_append, List.append_assoc]
        exact (stringAs_quoted_iff hg hk).trans (and_congr_left' stringHolds_quoted_iff.symm)
    | list => exact hother rfl (by decide) (by decide)
    | object => exact hother rfl (by decide) (by decide)
  formed := by
    intro cs a rest h
    obtain ⟨mid, hmark, t, hscan, -⟩ := stringAs_eq_ok_iff.mp h
    obtain ⟨g, hg, rfl⟩ := split_at_mark hmark
    obtain ⟨s, k, -, hk, rfl⟩ := exists_stringText hscan
    exact ⟨.quoted k, g, _, hg, .mark (.string hk.quoted), by simp⟩
  relaid h := absurd h not_relaid_leaf
  spoilt h := absurd h not_spoilt_leaf

/-- The integer that a form holds. -/
def Int64Holds (f : Form) (i : Int64) : Prop :=
  ∃ (cs : List Char) (x : Numeral), f = .mark cs ∧ x.Spelled cs ∧
    ∃ n : Int, x.value = .ok (.integer n) ∧ (leastInt64 ≤ n && n ≤ greatestInt64) = true ∧
      Int64.ofInt n = i

theorem int64_spelled_iff {x : Numeral} (hx : x.Spelled cs) (hg : Gap g) (hrest : Closed rest)
    {i : Int64} {rest' : List Char} :
    int64 (g ++ (cs ++ rest)) = .ok (i, rest') ↔
      (∃ n : Int, x.value = .ok (.integer n) ∧ (leastInt64 ≤ n && n ≤ greatestInt64) = true ∧
        Int64.ofInt n = i) ∧ rest' = rest := by
  rw [int64_text hx hg hrest]
  cases x.value with
  | error e => simp [lift, Except.mapError, Except.bind]
  | ok v =>
    cases v with
    | decimal d => simp [lift, Except.mapError, Except.bind, fail]
    | integer n =>
      simp only [lift, Except.mapError, Except.bind, Except.ok.injEq, Number.integer.injEq,
        exists_eq_left']
      by_cases hrange : (leastInt64 ≤ n && n ≤ greatestInt64) = true
      · rw [if_pos hrange, Except.ok.injEq, Prod.mk.injEq, @eq_comm _ rest]
        exact and_congr_left' (and_iff_right hrange).symm
      · rw [if_neg hrange]
        exact iff_of_false (by intro h; cases h) fun h => hrange h.1.1

theorem int64_ne_ok {c : Char} (hg : Gap g) (hgap : isGap c = false)
    (hc : ¬ (c = '-' ∨ c.isDigit = true)) {x : Int64 × List Char} :
    int64 (g ++ c :: cs) ≠ .ok x := by
  intro h
  obtain ⟨⟨d, hd, hnumber⟩, -⟩ := int64_eq_ok_iff.mp h
  rw [dropGap_mark hg hgap] at hd
  cases hd
  exact hc (by simpa using hnumber)

theorem understands_int64 : Understands int64 .leaf Int64Holds where
  reads := by
    intro f cs hf g rest hg hrest a rest'
    have hother : ∀ {c cs'}, cs = c :: cs' → isGap c = false → ¬ (c = '-' ∨ c.isDigit = true) →
        (int64 (g ++ (cs ++ rest)) = .ok (a, rest') ↔ Int64Holds f a ∧ rest' = rest) := by
      intro c cs' hcs hgap hc
      rw [hcs] at hf ⊢
      refine iff_of_false (int64_ne_ok hg hgap hc) ?_
      intro ⟨⟨text, x, hmark, hx, _⟩, _⟩
      obtain ⟨d, ds, rfl, hd⟩ := hx.mark
      rw [hmark] at hf
      cases hf
      exact hc hd
    cases hf with
    | mark h =>
      cases h with
      | null | yes | no => exact hother rfl (by decide) (by decide)
      | string => exact hother rfl (by decide) (by decide)
      | @number x _ hx =>
        constructor
        · intro h
          obtain ⟨hvalue, hrest'⟩ := (int64_spelled_iff hx hg hrest).mp h
          exact ⟨⟨cs, x, rfl, hx, hvalue⟩, hrest'⟩
        · intro ⟨⟨text, y, hmark, hy, hvalue⟩, hrest'⟩
          cases hmark
          exact (int64_spelled_iff hy hg hrest).mpr ⟨hvalue, hrest'⟩
    | list => exact hother rfl (by decide) (by decide)
    | object => exact hother rfl (by decide) (by decide)
  formed := by
    intro cs a rest h
    obtain ⟨-, n, hscan, -⟩ := int64_eq_ok_iff.mp h
    obtain ⟨⟨x, rest'⟩, hnumeral, hvalue⟩ := bind_eq_ok_iff.mp hscan
    obtain ⟨v, -, hpair⟩ := bind_eq_ok_iff.mp hvalue
    cases hpair
    obtain ⟨front, hx, hsplit⟩ := exists_spelled hnumeral
    obtain ⟨g, hg, hcs⟩ := exists_gap cs
    rw [hsplit] at hcs
    exact ⟨_, g, front, hg, .mark (.number hx), hcs⟩
  relaid h := absurd h not_relaid_leaf
  spoilt h := absurd h not_spoilt_leaf

/-! ## Absent values -/

/-- The form that starts like `null` is `null`. -/
theorem eq_null {f : Form} (hf : Renders (.form f) ('n' :: cs)) :
    f = .null ∧ cs = ['u', 'l', 'l'] := by
  cases hf with
  | mark h =>
    cases h with
    | null => exact ⟨rfl, rfl⟩
    | number hx =>
      obtain ⟨c, cs', hcs, hc⟩ := hx.mark
      rw [← (List.cons.inj hcs).1] at hc
      exact absurd hc (by decide)

theorem renders_null (hf : Renders (.form .null) cs) : cs = ['n', 'u', 'l', 'l'] := by
  cases hf
  rfl

/-- The value that a form holds, or none if it is `null`. -/
def OptionalHolds (holds : Form → α → Prop) (f : Form) : Option α → Prop
  | none => f = .null
  | some a => holds f a

theorem optional_null (r : Reader α) (hg : Gap g) (rest : List Char) :
    optional r (g ++ (['n', 'u', 'l', 'l'] ++ rest)) = .ok (none, rest) := by
  rw [List.cons_append, optional, dropGap_mark hg (by decide)]
  simp [scanWord, lift, Except.mapError, bind, Except.bind, pure, Except.pure]

theorem optional_mark (r : Reader α) (hg : Gap g) {c : Char} (hgap : isGap c = false)
    (hc : c ≠ 'n') : optional r (g ++ c :: cs) = (r.map some) (c :: cs) := by
  rw [optional, dropGap_mark hg hgap]
  split
  · rename_i hcons
    exact absurd (List.cons.inj hcons).1 hc
  · rfl

theorem map_eq_ok_iff {β : Type} {r : Reader α} {φ : α → β} {b : β} :
    (r.map φ) cs = .ok (b, rest) ↔ ∃ a, r cs = .ok (a, rest) ∧ φ a = b := by
  simp [map, bind_eq_ok_iff, pure, Except.pure]

theorem understands_optional {r : Reader α} {holds : Form → α → Prop}
    (h : Understands r .leaf holds) (hnull : ∀ a, ¬ holds .null a) :
    Understands (optional r) .leaf (OptionalHolds holds) where
  reads := by
    intro f cs hf g rest hg hrest o rest'
    obtain ⟨c, cs', rfl, hgap, -⟩ := hf.head
    -- the reader decides by this character, and no other form than `null` starts with it
    by_cases hc : c = 'n'
    · rw [hc] at hf ⊢
      obtain ⟨rfl, rfl⟩ := eq_null hf
      rw [optional_null r hg rest]
      cases o with
      | none => simp [OptionalHolds, eq_comm]
      | some a => simp [OptionalHolds, hnull]
    · have hread := h.reads hf gap_nil hrest
      simp only [List.nil_append, List.cons_append] at hread
      rw [List.cons_append, optional_mark r hg hgap hc, map_eq_ok_iff]
      cases o with
      | none =>
        refine iff_of_false (by simp) ?_
        intro ⟨heq, _⟩
        rw [show f = .null from heq] at hf
        exact hc (List.cons.inj (renders_null hf)).1
      | some a => simp [OptionalHolds, hread]
  formed := by
    intro cs o rest hread
    obtain ⟨g, hg, hsplit⟩ := exists_gap cs
    unfold optional at hread
    split at hread
    · rename_i mid hmark
      obtain ⟨rest', hword, hrest⟩ := bind_eq_ok_iff.mp hread
      cases hrest
      rw [lift_eq_ok_iff, scanWord_eq_ok_iff] at hword
      refine ⟨.null, g, ['n', 'u', 'l', 'l'], hg, .mark .null, ?_⟩
      rw [hsplit, hmark, hword]
      rfl
    · obtain ⟨⟨a, rest'⟩, hvalue, hrest⟩ := bind_eq_ok_iff.mp hread
      cases hrest
      obtain ⟨f, g', front, hg', hf, hcs⟩ := h.formed hvalue
      refine ⟨f, g ++ g', front, gap_append hg hg', hf, ?_⟩
      rw [List.append_assoc, ← hcs]
      exact hsplit
  relaid h := absurd h not_relaid_leaf
  spoilt h := absurd h not_spoilt_leaf

/-! ## Variants -/

/-- The value whose name a form holds, alone or as the only key of an object. -/
def VariantHolds (known : List (String × α)) (f : Form) (a : α) : Prop :=
  ∃ name, known.lookup name = some a ∧
    (StringHolds f name ∨ ∃ k, f = .object [(k, .null)] ∧ IsKey name k)

theorem noContent_form_iff {f : Form} {rest' : List Char} (hf : Renders (.form f) cs)
    (hg : Gap g) :
    noContent (g ++ (cs ++ rest)) = .ok ((), rest') ↔ f = .null ∧ rest' = rest := by
  obtain ⟨c, cs', rfl, hgap, -⟩ := hf.head
  rw [noContent_eq_ok_iff, List.cons_append, dropGap_mark hg hgap]
  constructor
  · intro ⟨mid, hmark, hword⟩
    rw [scanWord_eq_ok_iff] at hword
    obtain ⟨rfl, hcs⟩ := List.cons.inj hmark
    obtain ⟨rfl, rfl⟩ := eq_null hf
    refine ⟨rfl, ?_⟩
    rw [hword] at hcs
    exact (List.append_cancel_left hcs).symm
  · intro ⟨hnull, hrest⟩
    rw [hnull] at hf
    obtain ⟨rfl, rfl⟩ := List.cons.inj (renders_null hf)
    exact ⟨_, rfl, by rw [scanWord_eq_ok_iff, hrest]⟩

theorem namedObject_iff {name : String} {ms : List (List Char × Form)} {rest' : List Char}
    (hms : Renders (.members true ms) cs) :
    NamedObject name (cs ++ rest) rest' ↔
      (∃ k, ms = [(k, .null)] ∧ IsKey name k) ∧ rest' = rest := by
  cases hms with
  | membersEnd hg =>
    refine iff_of_false ?_ (by simp)
    intro ⟨mid, hname, _⟩
    rw [List.append_assoc] at hname
    exact stringAs_ne_ok hg (by decide) (by decide) hname
  | @member _ k f ms _ g h h' inner after hlead hg hk hh hh' hf hms =>
    cases hlead
    simp only [NamedObject, List.nil_append, List.append_assoc, List.cons_append,
      stringAs_quoted_iff hg hk]
    constructor
    · intro ⟨mid, ⟨hname, hmid⟩, mid', hcolon, last, hcontent, hclosing⟩
      rw [hmid, dropGap_mark hh (by decide)] at hcolon
      rw [← (List.cons.inj hcolon).2, noContent_form_iff hf hh'] at hcontent
      rw [hcontent.2, hms.members_end_iff] at hclosing
      exact ⟨⟨k, by rw [hcontent.1, hclosing.1], hname⟩, hclosing.2⟩
    · intro ⟨⟨k', hsingle, hname⟩, hrest⟩
      simp only [List.cons.injEq, Prod.mk.injEq] at hsingle
      obtain ⟨⟨hkey, hnull⟩, hnil⟩ := hsingle
      rw [← hkey] at hname
      exact ⟨_, ⟨hname, rfl⟩, _, dropGap_mark hh (by decide) _, _,
        (noContent_form_iff hf hh').mpr ⟨hnull, rfl⟩, hms.members_end_iff.mpr ⟨hnil, hrest⟩⟩

theorem exists_namedObject {name : String} (h : NamedObject name cs rest) :
    ∃ ms front, Renders (.members true ms) front ∧ cs = front ++ rest := by
  obtain ⟨mid, hname, mid', hcolon, last, hcontent, hclosing⟩ := h
  obtain ⟨start, hquote, t, hscan, -⟩ := stringAs_eq_ok_iff.mp hname
  obtain ⟨word, hword, hnull⟩ := noContent_eq_ok_iff.mp hcontent
  rw [scanWord_eq_ok_iff] at hnull
  obtain ⟨g, hg, rfl⟩ := split_at_mark hquote
  obtain ⟨s, k, -, hk, rfl⟩ := exists_stringText hscan
  obtain ⟨h, hh, rfl⟩ := split_at_mark hcolon
  obtain ⟨h', hh', rfl⟩ := split_at_mark hword
  obtain ⟨g', hg', rfl⟩ := split_at_mark hclosing
  refine ⟨[(k, .null)], _, .member .fresh hg hk.quoted hh hh' (.mark .null) (.membersEnd hg'), ?_⟩
  rw [hnull]
  simp

theorem understands_variant (known : List (String × α)) :
    Understands (variant known) .leaf (VariantHolds known) where
  reads := by
    intro f cs hf g rest hg hrest a rest'
    have hother : ∀ {c cs'}, cs = c :: cs' → isGap c = false → c ≠ '"' → c ≠ '{' →
        (variant known (g ++ (cs ++ rest)) = .ok (a, rest') ↔
          VariantHolds known f a ∧ rest' = rest) := by
      intro c cs' hcs hgap hquote hbrace
      rw [hcs] at hf ⊢
      rw [variant_eq_ok_iff, List.cons_append, dropGap_mark hg hgap]
      refine iff_of_false ?_ ?_
      · simp [hquote, hbrace]
      · intro ⟨⟨name, _, hname⟩, _⟩
        cases hname with
        | inl hstring => exact not_stringHolds hf hquote hstring
        | inr hobject =>
          obtain ⟨k, hk, -⟩ := hobject
          rw [hk] at hf
          cases hf
          exact hbrace rfl
    cases hf with
    | mark h =>
      cases h with
      | null | yes | no => exact hother rfl (by decide) (by decide) (by decide)
      | number hx =>
        obtain ⟨c, cs', hcs, hc⟩ := hx.mark
        exact hother hcs (not_gap_of_number hc) (ne_of_number hc (by decide))
          (ne_of_number hc (by decide))
      | @string k hk =>
        rw [variant_eq_ok_iff, List.cons_append, List.append_assoc, dropGap_mark hg (by decide)]
        simp only [List.cons.injEq, true_and, exists_eq_left', List.singleton_append,
          scanString_quoted_iff hk, Char.reduceEq, false_and, exists_false, or_false]
        constructor
        · intro ⟨t, ⟨ht, hrest'⟩, hlookup⟩
          exact ⟨⟨_, hlookup, .inl ⟨k, rfl, by rwa [String.toList_ofList]⟩⟩, hrest'⟩
        · intro ⟨⟨name, hlookup, hname⟩, hrest'⟩
          cases hname with
          | inl hstring =>
            refine ⟨name.toList, ⟨stringHolds_quoted_iff.mp hstring, hrest'⟩, ?_⟩
            rw [String.ofList_toList]
            exact hlookup
          | inr hobject =>
            obtain ⟨k, hk, -⟩ := hobject
            cases hk
    | list => exact hother rfl (by decide) (by decide) (by decide)
    | object hms =>
      rw [variant_eq_ok_iff, List.cons_append, dropGap_mark hg (by decide)]
      simp only [List.cons.injEq, Char.reduceEq, false_and, exists_false, false_or, true_and,
        exists_eq_left', namedObject_iff hms]
      constructor
      · intro ⟨name, ⟨⟨k, hk, hname⟩, hrest'⟩, hlookup⟩
        exact ⟨⟨name, hlookup, .inr ⟨k, by rw [hk], hname⟩⟩, hrest'⟩
      · intro ⟨⟨name, hlookup, hname⟩, hrest'⟩
        cases hname with
        | inl hstring =>
          obtain ⟨k, hk, -⟩ := hstring
          cases hk
        | inr hobject =>
          obtain ⟨k, hk, hname⟩ := hobject
          cases hk
          exact ⟨name, ⟨⟨k, rfl, hname⟩, hrest'⟩, hlookup⟩
  formed := by
    intro cs a rest h
    cases variant_eq_ok_iff.mp h with
    | inl hstring =>
      obtain ⟨mid, hmark, t, hscan, -⟩ := hstring
      obtain ⟨g, hg, rfl⟩ := split_at_mark hmark
      obtain ⟨s, k, -, hk, rfl⟩ := exists_stringText hscan
      exact ⟨.quoted k, g, _, hg, .mark (.string hk.quoted), by simp⟩
    | inr hobject =>
      obtain ⟨mid, hmark, name, hnamed, -⟩ := hobject
      obtain ⟨g, hg, rfl⟩ := split_at_mark hmark
      obtain ⟨ms, front, hms, rfl⟩ := exists_namedObject hnamed
      exact ⟨_, g, _, hg, .object hms, by simp⟩
  relaid h := absurd h not_relaid_leaf
  spoilt h := absurd h not_spoilt_leaf

/-! ## Lists -/

/-- The values that the entries of a list hold, one by one. -/
def ListHolds (holds : Form → α → Prop) (f : Form) (as : List α) : Prop :=
  ∃ fs, f = .list fs ∧ List.Forall₂ holds fs as

section Entries

variable {item : Reader α} {s : Shape} {holds : Form → α → Prop}

theorem readsEntry_iff (h : Understands item s holds) {fresh : Bool} {lead : List Char}
    (hlead : Lead fresh lead) (hg : Gap g) {f : Form} (hf : Renders (.form f) cs)
    (hrest : Closed rest) {a : α} {mid : List Char} :
    ReadsEntry fresh item a (lead ++ (g ++ (cs ++ rest))) mid ↔ holds f a ∧ mid = rest := by
  have hread := h.reads hf gap_nil hrest a mid
  obtain ⟨c, cs', rfl, hgap, hc⟩ := hf.head
  rw [List.nil_append, List.cons_append] at hread
  rw [ReadsEntry, List.cons_append, nextEntry_lead hlead hg hgap hc]
  simp only [Except.ok.injEq, Option.some.injEq, exists_eq_left']
  exact hread

theorem exists_lead {fresh : Bool} {mid : List Char} (h : nextEntry fresh cs = .ok (some mid)) :
    ∃ lead g, Lead fresh lead ∧ Gap g ∧ cs = lead ++ (g ++ mid) := by
  cases fresh with
  | true =>
    obtain ⟨g, hg, hsplit⟩ := exists_gap cs
    rw [(nextEntry_fresh_iff.mp h).2] at hsplit
    exact ⟨[], g, .fresh, hg, hsplit⟩
  | false =>
    obtain ⟨u, hmark, -, hmid⟩ := nextEntry_later_iff.mp h
    obtain ⟨g, hg, rfl⟩ := split_at_mark hmark
    obtain ⟨g', hg', hsplit⟩ := exists_gap u
    rw [hmid] at hsplit
    exact ⟨g ++ [','], g', .comma hg, hg', by rw [hsplit]; simp⟩

theorem exists_entry_form (h : Understands item s holds) {fresh : Bool} {a : α}
    {mid : List Char} (hread : ReadsEntry fresh item a cs mid) :
    ∃ lead g f front, Lead fresh lead ∧ Gap g ∧ Renders (.form f) front ∧
      cs = lead ++ (g ++ (front ++ mid)) := by
  obtain ⟨start, hnext, hvalue⟩ := hread
  obtain ⟨lead, g, hlead, hg, rfl⟩ := exists_lead hnext
  obtain ⟨f, g', front, hg', hf, rfl⟩ := h.formed hvalue
  exact ⟨lead, g ++ g', f, front, hlead, gap_append hg hg', hf, by simp⟩

theorem entries_form_iff (h : Understands item s holds) {fs : List Form} (read : List α)
    {as : List α} {rest' : List Char} (hfs : Renders (.entries read.isEmpty fs) cs) {n : Nat}
    (hn : fs.length < n) :
    entries item n read (cs ++ rest) = .ok (as, rest') ↔
      (∃ as', List.Forall₂ holds fs as' ∧ read.reverse ++ as' = as) ∧ rest' = rest := by
  induction fs generalizing cs read n with
  | nil =>
    obtain ⟨n, rfl⟩ := Nat.exists_eq_add_of_lt hn
    rw [entries_succ_iff, hfs.entries_end_iff]
    cases hfs with
    | @entriesEnd _ g hg =>
      have hnext : ∀ a mid, ¬ ReadsEntry read.isEmpty item a (g ++ ']' :: rest) mid := by
        intro a mid ⟨start, hnext, _⟩
        rw [nextEntry_end _ hg] at hnext
        cases hnext
      simp [hnext, and_comm]
  | cons f fs ih =>
    obtain ⟨n, rfl⟩ := Nat.exists_eq_add_of_lt hn
    rw [entries_succ_iff, hfs.entries_end_iff]
    cases hfs with
    | entry hlead hg hf hfs =>
      -- the list is not at its end, so the step reads this entry and the later ones follow
      have hclosed := hfs.closed_entries rest
      have hfuel : fs.length < (f :: fs).length + n := by
        rw [List.length_cons]
        omega
      simp only [List.append_assoc, readsEntry_iff h hlead hg hf hclosed]
      constructor
      · intro hread
        cases hread with
        | inl hend => exact absurd hend.1.1 (by simp)
        | inr hread =>
          obtain ⟨a, mid, ⟨ha, rfl⟩, hrest⟩ := hread
          obtain ⟨⟨as', has, rfl⟩, hrest'⟩ := (ih (a :: read) hfs hfuel).mp hrest
          exact ⟨⟨a :: as', .cons ha has, by simp⟩, hrest'⟩
      · intro ⟨⟨as', has, hall⟩, hrest'⟩
        cases has with
        | @cons _ a _ as' ha has =>
          refine .inr ⟨a, _, ⟨ha, rfl⟩, (ih (a :: read) hfs hfuel).mpr ⟨⟨as', has, ?_⟩, hrest'⟩⟩
          rw [← hall]
          simp

theorem exists_entries_form (h : Understands item s holds) {n : Nat} {read as : List α}
    (hread : entries item n read cs = .ok (as, rest)) :
    ∃ fs front, Renders (.entries read.isEmpty fs) front ∧ cs = front ++ rest := by
  induction n generalizing read cs with
  | zero => cases hread
  | succ n ih =>
    cases entries_succ_iff.mp hread with
    | inl hend =>
      obtain ⟨g, hg, rfl⟩ := split_at_mark hend.1
      exact ⟨[], _, .entriesEnd hg, by simp⟩
    | inr hentry =>
      obtain ⟨a, mid, hentry, hrest⟩ := hentry
      obtain ⟨lead, g, f, front, hlead, hg, hf, rfl⟩ := exists_entry_form h hentry
      obtain ⟨fs, front', hfs, rfl⟩ := ih hrest
      exact ⟨f :: fs, _, .entry hlead hg hf hfs, by simp⟩

theorem length_entries {fresh : Bool} {fs : List Form} (h : Renders (.entries fresh fs) cs) :
    fs.length < cs.length := by
  induction fs generalizing fresh cs with
  | nil =>
    cases h
    simp
  | cons f fs ih =>
    cases h with
    | entry hlead hg hf hfs =>
      obtain ⟨c, cs', rfl, -⟩ := hf.head
      have hlength := ih hfs
      simp only [List.length_append, List.length_cons]
      omega

end Entries

theorem forall₂_replace_iff {R : Form → α → Prop} {f f' : Form} (h : ∀ a, R f a ↔ R f' a)
    (before after : List Form) (as : List α) :
    List.Forall₂ R (before ++ f :: after) as ↔ List.Forall₂ R (before ++ f' :: after) as := by
  induction before generalizing as with
  | nil => cases as <;> simp [h]
  | cons b before ih => cases as <;> simp [ih]

theorem exists_of_forall₂ {R : Form → α → Prop} {f : Form} {before after : List Form}
    {as : List α} (h : List.Forall₂ R (before ++ f :: after) as) : ∃ a, R f a := by
  induction before generalizing as with
  | nil =>
    cases h with
    | cons ha _ => exact ⟨_, ha⟩
  | cons b before ih =>
    cases h with
    | cons _ hrest => exact ih hrest

theorem understands_list {item : Reader α} {s : Shape} {holds : Form → α → Prop}
    (h : Understands item s holds) :
    Understands (list item) (.list s) (ListHolds holds) where
  reads := by
    intro f cs hf g rest hg hrest as rest'
    have hother : ∀ {c cs'}, cs = c :: cs' → isGap c = false → c ≠ '[' →
        (list item (g ++ (cs ++ rest)) = .ok (as, rest') ↔
          ListHolds holds f as ∧ rest' = rest) := by
      intro c cs' hcs hgap hc
      rw [hcs] at hf ⊢
      refine iff_of_false ?_ ?_
      · intro hread
        rw [list, List.cons_append, dropGap_mark hg hgap] at hread
        split at hread
        · rename_i hcons
          exact hc (List.cons.inj hcons).1
        · exact wrongType_ne_ok hread
      · intro hheld
        obtain ⟨⟨fs, hlist, -⟩, -⟩ := hheld
        rw [hlist] at hf
        cases hf
        exact hc rfl
    cases hf with
    | mark hmark =>
      obtain ⟨c, cs', hcs, hgap, -, hc, -⟩ := hmark.head
      exact hother hcs hgap hc
    | object => exact hother rfl (by decide) (by decide)
    | @list fs inner hfs =>
      have hfuel : fs.length < (inner ++ rest).length + 1 := by
        have hlength := length_entries hfs
        rw [List.length_append]
        omega
      rw [list, List.cons_append, dropGap_mark hg (by decide)]
      refine (entries_form_iff h [] hfs hfuel).trans (and_congr_left' ?_)
      simp [ListHolds]
  formed := by
    intro cs as rest hread
    rw [list] at hread
    split at hread
    · rename_i mid hmark
      obtain ⟨g, hg, rfl⟩ := split_at_mark hmark
      obtain ⟨fs, front, hfs, rfl⟩ := exists_entries_form h hread
      exact ⟨_, g, _, hg, .list hfs, rfl⟩
    · exact absurd hread wrongType_ne_ok
  relaid := by
    intro f f' hrelaid as
    cases hrelaid with
    | entry before after hentry =>
      have hiff := forall₂_replace_iff (h.relaid hentry) before after as
      simp only [ListHolds, Form.list.injEq, exists_eq_left', hiff]
  spoilt := by
    intro f f' hspoilt as hholds bs hholds'
    cases hspoilt with
    | entry before after hentry =>
      obtain ⟨_, hlist, hall⟩ := hholds
      obtain ⟨_, hlist', hall'⟩ := hholds'
      cases hlist
      cases hlist'
      obtain ⟨a, ha⟩ := exists_of_forall₂ hall
      obtain ⟨b, hb⟩ := exists_of_forall₂ hall'
      exact h.spoilt hentry ha b hb

end Reader

end VisualRules.Json
