import VisualRules.Json.Skip
import VisualRules.Proofs.Json.Scanning

/-!
# Forms

A form is what a JSON text says when its white space is left out: words, numbers and
strings as they are written, in lists and objects. A grammar says which texts have a form.
It gives the strings no meaning, as a value that is passed over may name half of a pair of
surrogates. Such a value has a form, and it is passed over as a whole, with as much fuel as
its length allows.
-/

namespace VisualRules.Json

variable {g cs rest : List Char}

/-- A text without white space; the keys of an object stand without their quotes. -/
inductive Form
  | mark (cs : List Char)
  | list (entries : List Form)
  | object (members : List (List Char × Form))

/-! ## The grammar -/

/-- The text between the quotes of a string, whatever its units stand for. -/
inductive QuotedText : List Char → Prop
  | nil : QuotedText []
  | plain {c : Char} {cs : List Char} (hc : ¬ c < ' ') (hquote : c ≠ '"') (hslash : c ≠ '\\')
      (hrest : QuotedText cs) : QuotedText (c :: cs)
  | escape {e c : Char} {cs : List Char} (he : escaped? e = some c) (hrest : QuotedText cs) :
      QuotedText ('\\' :: e :: cs)
  | unit {a b c d : Char} {n : Nat} {cs : List Char} (hunit : hexUnit? a b c d = some n)
      (hrest : QuotedText cs) : QuotedText ('\\' :: 'u' :: a :: b :: c :: d :: cs)

/-- The marks that stand for a value: words, numbers and strings. -/
inductive IsMark : List Char → Prop
  | null : IsMark ['n', 'u', 'l', 'l']
  | yes : IsMark ['t', 'r', 'u', 'e']
  | no : IsMark ['f', 'a', 'l', 's', 'e']
  | number {x : Numeral} {cs : List Char} (hx : x.Spelled cs) : IsMark cs
  | string {cs : List Char} (hcs : QuotedText cs) : IsMark ('"' :: (cs ++ ['"']))

/-- A form, or what is left of a list or an object up to its closing mark; `fresh` holds
behind the opening mark. -/
inductive Part
  | form (f : Form)
  | entries (fresh : Bool) (fs : List Form)
  | members (fresh : Bool) (ms : List (List Char × Form))

/-- The texts of forms. A form starts and ends with a mark, and white space may stand
around all marks inside. -/
inductive Renders : Part → List Char → Prop
  | mark {cs : List Char} (h : IsMark cs) : Renders (.form (.mark cs)) cs
  | list {fs : List Form} {cs : List Char} (hfs : Renders (.entries true fs) cs) :
      Renders (.form (.list fs)) ('[' :: cs)
  | object {ms : List (List Char × Form)} {cs : List Char} (hms : Renders (.members true ms) cs) :
      Renders (.form (.object ms)) ('{' :: cs)
  | entriesEnd {fresh : Bool} {g : List Char} (hg : Gap g) :
      Renders (.entries fresh []) (g ++ [']'])
  | entry {fresh : Bool} {f : Form} {fs : List Form} {lead g cs rest : List Char}
      (hlead : Lead fresh lead) (hg : Gap g) (hf : Renders (.form f) cs)
      (hfs : Renders (.entries false fs) rest) :
      Renders (.entries fresh (f :: fs)) (lead ++ (g ++ (cs ++ rest)))
  | membersEnd {fresh : Bool} {g : List Char} (hg : Gap g) :
      Renders (.members fresh []) (g ++ ['}'])
  | member {fresh : Bool} {k : List Char} {f : Form} {ms : List (List Char × Form)}
      {lead g h h' cs rest : List Char} (hlead : Lead fresh lead) (hg : Gap g)
      (hk : QuotedText k) (hh : Gap h) (hh' : Gap h') (hf : Renders (.form f) cs)
      (hms : Renders (.members false ms) rest) :
      Renders (.members fresh ((k, f) :: ms))
        (lead ++ (g ++ '"' :: (k ++ '"' :: (h ++ ':' :: (h' ++ (cs ++ rest))))))

/-- A text that has a form; white space may stand around it. -/
def Form.Rendered (f : Form) (text : List Char) : Prop :=
  ∃ g cs g', Gap g ∧ Renders (.form f) cs ∧ Gap g' ∧ text = g ++ (cs ++ g')

theorem Renders.rendered {f : Form} (h : Renders (.form f) cs) : f.Rendered cs :=
  ⟨[], cs, [], gap_nil, h, gap_nil, by simp⟩

/-- Half of a pair of surrogates is no character, and is quoted text all the same. -/
theorem quotedText_half : QuotedText "\\ud800".toList :=
  .unit (show hexUnit? 'd' '8' '0' '0' = some 0xD800 by decide) .nil

/-! ### Texts without white space -/

section Tight

variable {f : Form} {fs : List Form} {k : List Char} {ms : List (List Char × Form)}

theorem renders_entriesEnd {fresh : Bool} : Renders (.entries fresh []) [']'] :=
  @Renders.entriesEnd fresh [] gap_nil

theorem renders_entry (hf : Renders (.form f) cs) (hfs : Renders (.entries false fs) rest) :
    Renders (.entries false (f :: fs)) (',' :: (cs ++ rest)) :=
  .entry (@Lead.comma [] gap_nil) gap_nil hf hfs

theorem renders_emptyList : Renders (.form (.list [])) ['[', ']'] :=
  .list renders_entriesEnd

theorem renders_list (hf : Renders (.form f) cs) (hfs : Renders (.entries false fs) rest) :
    Renders (.form (.list (f :: fs))) ('[' :: (cs ++ rest)) :=
  .list (.entry .fresh gap_nil hf hfs)

theorem renders_membersEnd {fresh : Bool} : Renders (.members fresh []) ['}'] :=
  @Renders.membersEnd fresh [] gap_nil

theorem renders_member (hk : QuotedText k) (hf : Renders (.form f) cs)
    (hms : Renders (.members false ms) rest) :
    Renders (.members false ((k, f) :: ms)) (',' :: '"' :: (k ++ '"' :: ':' :: (cs ++ rest))) :=
  .member (@Lead.comma [] gap_nil) gap_nil hk gap_nil gap_nil hf hms

theorem renders_object (hk : QuotedText k) (hf : Renders (.form f) cs)
    (hms : Renders (.members false ms) rest) :
    Renders (.form (.object ((k, f) :: ms))) ('{' :: '"' :: (k ++ '"' :: ':' :: (cs ++ rest))) :=
  .object (.member .fresh gap_nil hk gap_nil gap_nil hf hms)

end Tight

/-! ## Where a form starts and ends -/

theorem IsMark.head (h : IsMark cs) :
    ∃ c cs', cs = c :: cs' ∧ isGap c = false ∧ c ≠ ']' ∧ c ≠ '[' ∧ c ≠ '{' := by
  cases h with
  | number hx =>
    obtain ⟨c, cs', hcs, hc⟩ := hx.mark
    exact ⟨c, cs', hcs, not_gap_of_number hc, ne_of_number hc (by decide),
      ne_of_number hc (by decide), ne_of_number hc (by decide)⟩
  | null | yes | no | string => exact ⟨_, _, rfl, by decide⟩

theorem Renders.head {f : Form} (h : Renders (.form f) cs) :
    ∃ c cs', cs = c :: cs' ∧ isGap c = false ∧ c ≠ ']' := by
  cases h with
  | mark h =>
    obtain ⟨c, cs', hcs, hgap, hclosing, -⟩ := h.head
    exact ⟨c, cs', hcs, hgap, hclosing⟩
  | list | object => exact ⟨_, _, rfl, by decide⟩

theorem closed_lead {lead : List Char} (hlead : Lead false lead) (rest : List Char) :
    Closed (lead ++ rest) := by
  cases hlead with
  | comma hg =>
    rw [List.append_assoc]
    exact closed_append hg (closed_comma rest)

/-- What follows an entry cannot belong to a number. -/
theorem Renders.closed_entries {fs : List Form} (h : Renders (.entries false fs) cs)
    (rest : List Char) : Closed (cs ++ rest) := by
  cases h with
  | entriesEnd hg =>
    rw [List.append_assoc]
    exact closed_append hg (closed_bracket rest)
  | entry hlead =>
    rw [List.append_assoc]
    exact closed_lead hlead _

theorem Renders.closed_members {ms : List (List Char × Form)} (h : Renders (.members false ms) cs)
    (rest : List Char) : Closed (cs ++ rest) := by
  cases h with
  | membersEnd hg =>
    rw [List.append_assoc]
    exact closed_append hg (closed_brace rest)
  | member hlead =>
    rw [List.append_assoc]
    exact closed_lead hlead _

/-! ## Passing over marks -/

theorem skipString_quoted (h : QuotedText cs) (rest : List Char) :
    skipString (cs ++ '"' :: rest) = .ok rest := by
  induction h with
  | nil => simp [skipString]
  | plain hc _ hslash hrest ih => simp [skipString, hc, hslash, ih]
  | escape he hrest ih => simp [skipString, not_u_of_escaped? he, he, ih]
  | unit hunit hrest ih => simp [skipString, hunit, ih]

theorem StringText.quoted {s : List Char} (h : StringText s cs) : QuotedText cs := by
  induction h with
  | nil => exact .nil
  | plain hc hquote hslash _ ih => exact .plain hc hquote hslash ih
  | escape he _ ih => exact .escape he ih
  | unit hunit _ _ _ ih => exact .unit hunit ih
  | pair hunit _ hunit' _ _ ih => exact .unit hunit (.unit hunit' ih)

theorem skipPlain_mark (h : IsMark cs) (hrest : Closed rest) :
    skipPlain (cs ++ rest) = .ok rest := by
  cases h with
  | null | yes | no => simp [skipPlain, scanWord]
  | string hcs => simpa [skipPlain] using skipString_quoted hcs rest
  | number hx =>
    have hscan := scanNumeral_text hx .badNumber hrest
    obtain ⟨c, cs', rfl, hc⟩ := hx.mark
    rw [List.cons_append] at hscan ⊢
    rw [skipPlain, if_pos (by simpa using hc), skipNumber, hscan]
    · rfl
    all_goals
      intro heq
      rw [heq] at hc
      exact absurd hc (by decide)

/-! ## Passing over brackets -/

namespace Bracket

/-- The mark that opens a bracket. -/
abbrev opening : Bracket → Char
  | list => '['
  | object => '{'

/-- The mark that closes a bracket. -/
abbrev closing : Bracket → Char
  | list => ']'
  | object => '}'

/-- What is due behind the opening mark and behind each comma. -/
abbrev due : Bracket → Due
  | list => .value
  | object => .key

end Bracket

/-- What is due in an open bracket. -/
def dueIn (fresh : Bool) : Due :=
  if fresh then .first else .next

section Steps

variable (n : Nat) (outer : List Bracket) (rest : List Char)

theorem skipOpen_dropGap (b : Bracket) (cs : List Char) :
    skipOpen n b.due outer (dropGap cs) = skipOpen n b.due outer cs := by
  cases b <;> cases n <;> simp only [skipOpen, dropGap_dropGap]

theorem skipOpen_opening (b : Bracket) (hg : Gap g) :
    skipOpen (n + 1) .value outer (g ++ b.opening :: rest) =
      skipOpen n .first (b :: outer) rest := by
  cases b <;>
    rw [skipOpen, dropGap_mark hg (by decide)] <;>
    rfl

theorem skipOpen_closing (b : Bracket) (fresh : Bool) (hg : Gap g) :
    skipOpen (n + 1) (dueIn fresh) (b :: outer) (g ++ b.closing :: rest) =
      skipOpen n .next outer rest := by
  have hmark : dropGap (g ++ b.closing :: rest) = b.closing :: rest :=
    dropGap_mark hg (by cases b <;> decide) rest
  cases fresh <;> cases b <;> simp [dueIn, skipOpen, hmark]

/-- A bracket that does not close goes on with what is due in it. -/
theorem skipOpen_lead (b : Bracket) {fresh : Bool} {lead : List Char} (hlead : Lead fresh lead)
    {c : Char} (hmark : (dropGap rest).head? = some c) (hc : c ≠ b.closing) :
    skipOpen (n + 1) (dueIn fresh) (b :: outer) (lead ++ rest) =
      skipOpen n b.due (b :: outer) rest := by
  cases hlead with
  | fresh =>
    obtain ⟨cs, hcs⟩ := List.head?_eq_some_iff.mp hmark
    rw [List.nil_append, ← skipOpen_dropGap n _ b]
    cases b <;> simp_all [dueIn, skipOpen]
  | comma hg =>
    rw [List.append_assoc]
    cases b <;> simp [dueIn, skipOpen, dropGap_mark hg, isGap]

/-- Passes over a key and its colon. -/
theorem skipOpen_key {k h : List Char} (hg : Gap g) (hk : QuotedText k) (hh : Gap h) :
    skipOpen (n + 1) .key outer (g ++ '"' :: (k ++ '"' :: (h ++ ':' :: rest))) =
      skipOpen n .value outer rest := by
  rw [skipOpen, dropGap_mark hg (by decide)]
  simp [skipKey, skipString_quoted hk, dropGap_mark hh, isGap, bind, Except.bind, pure,
    Except.pure]

end Steps

/-- Which fuel passes over a form, or over what is left of a bracket. -/
def Skips (cs : List Char) : Part → Prop
  | .form _ => ∃ k ≤ 2 * cs.length, ∀ n outer g rest, Gap g → Closed rest →
      skipOpen (n + k) .value outer (g ++ (cs ++ rest)) = skipOpen n .next outer rest
  | .entries fresh _ => ∃ k ≤ 2 * cs.length + fresh.toNat, ∀ n outer rest,
      skipOpen (n + k) (dueIn fresh) (.list :: outer) (cs ++ rest) = skipOpen n .next outer rest
  | .members fresh _ => ∃ k ≤ 2 * cs.length + fresh.toNat, ∀ n outer rest,
      skipOpen (n + k) (dueIn fresh) (.object :: outer) (cs ++ rest) = skipOpen n .next outer rest

theorem skips_mark (h : IsMark cs) : Skips cs (.form (.mark cs)) := by
  obtain ⟨c, cs', rfl, hgap, -, hlist, hobject⟩ := h.head
  refine ⟨1, by simp only [List.length_cons]; omega, ?_⟩
  intro n outer g rest hg hrest
  have hplain := skipPlain_mark h hrest
  rw [List.cons_append] at hplain ⊢
  simp [skipOpen, dropGap_mark hg hgap, hlist, hobject, hplain, bind, Except.bind]

/-- In front of what is left a lead takes at most one step more than its length. -/
theorem length_lead {fresh : Bool} {lead : List Char} (hlead : Lead fresh lead) :
    1 ≤ lead.length + fresh.toNat := by
  cases hlead with
  | fresh => decide
  | comma =>
    rw [List.length_append, List.length_singleton]
    omega

/-- The fuel of a bracket is that of what it holds and of one step for each mark. -/
theorem Renders.skips {p : Part} (h : Renders p cs) : Skips cs p := by
  induction h with
  | mark h => exact skips_mark h
  | list hfs ih =>
    obtain ⟨k, hk, hskip⟩ := ih
    -- one step for the opening mark, for which the length allows two
    refine ⟨k + 1, ?_, ?_⟩
    · rw [Bool.toNat_true] at hk
      rw [List.length_cons]
      omega
    · intro n outer g rest hg _
      rw [← Nat.add_assoc, List.cons_append, skipOpen_opening _ _ _ .list hg]
      exact hskip n outer rest
  | object hms ih =>
    obtain ⟨k, hk, hskip⟩ := ih
    refine ⟨k + 1, ?_, ?_⟩
    · rw [Bool.toNat_true] at hk
      rw [List.length_cons]
      omega
    · intro n outer g rest hg _
      rw [← Nat.add_assoc, List.cons_append, skipOpen_opening _ _ _ .object hg]
      exact hskip n outer rest
  | entriesEnd hg =>
    refine ⟨1, by simp only [List.length_append, List.length_singleton]; omega, ?_⟩
    intro n outer rest
    rw [List.append_assoc]
    exact skipOpen_closing n outer rest .list _ hg
  | membersEnd hg =>
    refine ⟨1, by simp only [List.length_append, List.length_singleton]; omega, ?_⟩
    intro n outer rest
    rw [List.append_assoc]
    exact skipOpen_closing n outer rest .object _ hg
  | entry hlead hg hf hfs ih ih' =>
    obtain ⟨k, hk, hskip⟩ := ih
    obtain ⟨k', hk', hskip'⟩ := ih'
    refine ⟨k' + k + 1, ?_, ?_⟩
    · have hlength := length_lead hlead
      rw [Bool.toNat_false] at hk'
      simp only [List.length_append]
      omega
    · intro n outer rest
      obtain ⟨c, cs', rfl, hgap, hc⟩ := hf.head
      simp only [List.append_assoc]
      -- the lead, the entry, and what is left
      rw [← Nat.add_assoc, skipOpen_lead _ _ _ .list hlead (c := c)
        (by rw [List.cons_append, dropGap_mark hg hgap]; rfl) hc, ← Nat.add_assoc,
        hskip _ _ _ _ hg (hfs.closed_entries rest)]
      exact hskip' n outer rest
  | member hlead hg hk hh hh' hf hms ih ih' =>
    obtain ⟨k, hk, hskip⟩ := ih
    obtain ⟨k', hk', hskip'⟩ := ih'
    refine ⟨k' + k + 1 + 1, ?_, ?_⟩
    · have hlength := length_lead hlead
      rw [Bool.toNat_false] at hk'
      simp only [List.length_append, List.length_cons]
      omega
    · intro n outer rest
      simp only [List.append_assoc, List.cons_append]
      -- the lead, the key, the value, and what is left
      rw [← Nat.add_assoc, skipOpen_lead _ _ _ .object hlead (c := '"')
        (by rw [dropGap_mark hg (by decide)]; rfl) (by decide), ← Nat.add_assoc,
        skipOpen_key _ _ _ hg ‹QuotedText _› hh, ← Nat.add_assoc,
        hskip _ _ _ _ hh' (hms.closed_members rest)]
      exact hskip' n outer rest

theorem skipValue_form {f : Form} (hf : Renders (.form f) cs) (hg : Gap g)
    (hrest : Closed rest) : skipValue (g ++ (cs ++ rest)) = .ok rest := by
  obtain ⟨k, hk, hskip⟩ := hf.skips
  -- a step is left to see that no bracket is open
  obtain ⟨n, hn⟩ : ∃ n, 2 * (g ++ (cs ++ rest)).length + 2 = n + 1 + k := by
    refine ⟨2 * (g ++ (cs ++ rest)).length + 1 - k, ?_⟩
    simp only [List.length_append]
    omega
  rw [skipValue, hn, hskip _ _ _ _ hg hrest, skipOpen]

/-! ## Documents -/

/-- The form that the text of a document has. -/
def HasForm (cs : List Char) : Piece → Prop
  | .document _ => ∃ f, Renders (.form f) cs
  | .entries _ => ∀ {fresh lead}, Lead fresh lead →
      ∃ fs, Renders (.entries fresh fs) (lead ++ (cs ++ [']']))
  | .members _ => ∀ {fresh lead}, Lead fresh lead →
      ∃ ms, Renders (.members fresh ms) (lead ++ (cs ++ ['}']))

theorem Spells.hasForm {p : Piece} (h : Spells p cs) : HasForm cs p := by
  induction h with
  | null => exact ⟨_, .mark .null⟩
  | yes => exact ⟨_, .mark .yes⟩
  | no => exact ⟨_, .mark .no⟩
  | number hx => exact ⟨_, .mark (.number hx)⟩
  | string hs => exact ⟨_, .mark (.string hs.quoted)⟩
  | emptyList hg => exact ⟨_, .list (.entriesEnd hg)⟩
  | emptyObject hg => exact ⟨_, .object (.membersEnd hg)⟩
  | list _ ih =>
    obtain ⟨fs, hfs⟩ := ih .fresh
    exact ⟨_, .list hfs⟩
  | object _ ih =>
    obtain ⟨ms, hms⟩ := ih .fresh
    exact ⟨_, .object hms⟩
  | lastEntry hg _ hg' ih =>
    intro fresh lead hlead
    obtain ⟨f, hf⟩ := ih
    refine ⟨[f], ?_⟩
    simp only [List.append_assoc]
    exact .entry hlead hg hf (.entriesEnd hg')
  | entry hg _ hg' _ ih ih' =>
    intro fresh lead hlead
    obtain ⟨f, hf⟩ := ih
    obtain ⟨fs, hfs⟩ := ih' (.comma hg')
    have hentry := Renders.entry hlead hg hf hfs
    exact ⟨_, by simpa using hentry⟩
  | lastMember hg hk hh hh' _ hg' ih =>
    intro fresh lead hlead
    obtain ⟨f, hf⟩ := ih
    have hmember := Renders.member hlead hg hk.quoted hh hh' hf (.membersEnd hg')
    exact ⟨_, by simpa using hmember⟩
  | member hg hk hh hh' _ hg' _ ih ih' =>
    intro fresh lead hlead
    obtain ⟨f, hf⟩ := ih
    obtain ⟨ms, hms⟩ := ih' (.comma hg')
    have hmember := Renders.member hlead hg hk.quoted hh hh' hf hms
    exact ⟨_, by simpa using hmember⟩

theorem skipValue_text {t : Tree} (ht : Spells (.document t) cs) (hg : Gap g)
    (hrest : Closed rest) : skipValue (g ++ (cs ++ rest)) = .ok rest := by
  obtain ⟨f, hf⟩ := ht.hasForm
  exact skipValue_form hf hg hrest

end VisualRules.Json
