import VisualRules.Proofs.Json.Extent

/-!
# Readers look at their value alone

A value is read off the front of a text in the same way whatever follows it, if that
cannot belong to a number. Readers of records keep this: when the values of all fields
are read so, the record is, and behind its closing mark anything may follow.
-/

namespace VisualRules.Json

variable {α β δ : Type} {cs rest : List Char}

/-- A reader whose result depends on the text of the value alone. -/
def Local (r : Reader α) : Prop :=
  ∀ a, Framed Closed fun cs rest => r cs = .ok (a, rest)

theorem Local.map {r : Reader α} (hr : Local r) (f : α → β) : Local (r.map f) := by
  intro b
  have hvalue : Framed Closed fun cs rest => ∃ a, r cs = .ok (a, rest) ∧ f a = b :=
    Framed.exists_ fun a => (hr a).and_const
  refine hvalue.congr fun cs rest => ?_
  simp [Reader.map, bind_eq_ok_iff, pure, Except.pure]

namespace Reader

/-- A value of another type is not read. -/
theorem wrongType_ne_ok {wanted : String} {x : α × List Char} :
    wrongType wanted cs ≠ .ok x := by
  intro h
  unfold wrongType at h
  split at h
  · obtain ⟨_, -, h⟩ := bind_eq_ok_iff.mp h
    cases h
  · obtain ⟨_, -, h⟩ := bind_eq_ok_iff.mp h
    cases h
  · obtain ⟨_, -, h⟩ := bind_eq_ok_iff.mp h
    cases h
  · obtain ⟨_, -, h⟩ := bind_eq_ok_iff.mp h
    cases h
  · cases h
  · cases h
  · cases h
  · split at h
    · obtain ⟨⟨n, _⟩, -, h⟩ := bind_eq_ok_iff.mp h
      cases n <;> cases h
    · cases h

theorem named_eq_ok_iff {known : List (String × α)} {name : String} {a : α} :
    named known name = .ok a ↔ known.lookup name = some a := by
  rw [named]
  split <;> simp [fail, *]

/-! ## Strings, integers and variants -/

theorem stringAs_eq_ok_iff {wanted : String} {s : String} :
    stringAs wanted cs = .ok (s, rest) ↔ ∃ mid, dropGap cs = '"' :: mid ∧
      ∃ t, scanString [] mid = .ok (t, rest) ∧ String.ofList t = s := by
  rw [stringAs]
  split
  · rename_i mid hmark
    simp only [hmark, bind_eq_ok_iff, lift_eq_ok_iff, Prod.exists, pure, Except.pure,
      Except.ok.injEq, Prod.mk.injEq, List.cons.injEq, true_and, exists_eq_left']
    constructor
    · rintro ⟨t, _, ht, rfl, rfl⟩
      exact ⟨t, ht, rfl⟩
    · rintro ⟨t, ht, rfl⟩
      exact ⟨t, rest, ht, rfl, rfl⟩
  · rename_i hmark
    constructor
    · intro h
      exact absurd h wrongType_ne_ok
    · rintro ⟨mid, hmid, -⟩
      exact absurd hmid (hmark mid)

theorem framed_stringAs {wanted : String} {s : String} :
    Framed Anything fun cs rest => stringAs wanted cs = .ok (s, rest) := by
  have htext : Framed Anything fun cs rest =>
      ∃ t, scanString [] cs = .ok (t, rest) ∧ String.ofList t = s :=
    Framed.exists_ fun t => framed_string.and_const
  exact ((Framed.gapMark '"').comp htext fun _ _ _ => trivial).congr fun _ _ =>
    stringAs_eq_ok_iff

theorem local_string : Local Reader.string :=
  fun _ => framed_stringAs.mono

theorem int64_eq_ok_iff {i : Int64} :
    int64 cs = .ok (i, rest) ↔ (∃ c ∈ (dropGap cs).head?, (c = '-' || c.isDigit) = true) ∧
      ∃ n, scanNumber (dropGap cs) = .ok (.integer n, rest) ∧
        (leastInt64 ≤ n && n ≤ greatestInt64) = true ∧ Int64.ofInt n = i := by
  rw [int64]
  split
  · rename_i c mid hmark
    rw [hmark]
    split
    · rename_i hc
      simp only [bind_eq_ok_iff, lift_eq_ok_iff]
      constructor
      · rintro ⟨⟨x, rest'⟩, hscan, h⟩
        cases x with
        | integer n =>
            dsimp only at h
            split at h
            · rename_i hrange
              cases h
              exact ⟨⟨c, rfl, hc⟩, n, hscan, hrange, rfl⟩
            · cases h
        | decimal d => cases h
      · rintro ⟨-, n, hscan, hrange, rfl⟩
        exact ⟨_, hscan, by simp only [hrange, if_true]; rfl⟩
    · rename_i hc
      constructor
      · intro h
        exact absurd h wrongType_ne_ok
      · rintro ⟨⟨c', hc', hnumber⟩, -⟩
        cases hc'
        exact absurd hnumber hc
  · rename_i hmark
    simp [hmark, fail]

theorem local_int64 : Local int64 := by
  intro i
  have hscan : Framed Closed fun cs rest => ∃ n, scanNumber cs = .ok (.integer n, rest) ∧
      (leastInt64 ≤ n && n ≤ greatestInt64) = true ∧ Int64.ofInt n = i :=
    Framed.exists_ fun n => framed_number.and_const
  exact ((hscan.head (p := fun o => ∃ c ∈ o, (c = '-' || c.isDigit) = true)).behindGap).congr
    fun _ _ => int64_eq_ok_iff

theorem noContent_eq_ok_iff :
    noContent cs = .ok ((), rest) ↔
      ∃ mid, dropGap cs = 'n' :: mid ∧ scanWord ['u', 'l', 'l'] mid = .ok rest := by
  rw [noContent]
  split
  · rename_i mid hmark
    simp [hmark, bind_eq_ok_iff, lift_eq_ok_iff, pure, Except.pure]
  · rename_i hmark
    constructor
    · intro h
      exact absurd h wrongType_ne_ok
    · rintro ⟨mid, hmid, -⟩
      exact absurd hmid (hmark mid)

theorem framed_noContent : Framed Anything fun cs rest => noContent cs = .ok ((), rest) :=
  ((Framed.gapMark 'n').comp framed_word fun _ _ _ => trivial).congr fun _ _ =>
    noContent_eq_ok_iff

/-- What stands behind the opening mark of a variant that is written as an object. -/
def NamedObject (name : String) (cs rest : List Char) : Prop :=
  ∃ mid, stringAs "variant identifier" cs = .ok (name, mid) ∧
    ∃ mid', dropGap mid = ':' :: mid' ∧
      ∃ last, noContent mid' = .ok ((), last) ∧ dropGap last = '}' :: rest

theorem framed_namedObject {name : String} : Framed Anything (NamedObject name) := by
  have hcontent := framed_noContent.comp (Framed.gapMark '}') fun _ _ _ => trivial
  have hcolon := (Framed.gapMark ':').comp hcontent fun _ _ _ => trivial
  exact framed_stringAs.comp hcolon fun _ _ _ => trivial

theorem variant_eq_ok_iff {known : List (String × α)} {a : α} :
    variant known cs = .ok (a, rest) ↔
      (∃ mid, dropGap cs = '"' :: mid ∧
        ∃ t, scanString [] mid = .ok (t, rest) ∧ known.lookup (String.ofList t) = some a) ∨
      ∃ mid, dropGap cs = '{' :: mid ∧
        ∃ name, NamedObject name mid rest ∧ known.lookup name = some a := by
  rw [variant]
  split
  · rename_i mid hmark
    simp [hmark, bind_eq_ok_iff, lift_eq_ok_iff, named_eq_ok_iff, pure, Except.pure]
  · rename_i mid hmark
    simp only [hmark, bind_eq_ok_iff, named_eq_ok_iff, Prod.exists]
    constructor
    · rintro ⟨name, cs₁, hname, a', hlookup, h⟩
      refine .inr ⟨mid, rfl, name, ?_⟩
      split at h
      · cases h
      · rename_i cs₂ hcolon
        obtain ⟨⟨⟨⟩, cs₃⟩, hcontent, h⟩ := bind_eq_ok_iff.mp h
        split at h
        · cases h
        · rename_i hclosing
          cases h
          exact ⟨⟨_, hname, _, hcolon, _, within_eq_ok_iff.mp hcontent, hclosing⟩, hlookup⟩
        · cases h
      · cases h
    · rintro (⟨_, h, -⟩ | ⟨_, h, name, ⟨cs₁, hname, cs₂, hcolon, cs₃, hcontent, hclosing⟩, hlookup⟩)
      · cases h
      · cases h
        refine ⟨name, cs₁, hname, a, hlookup, ?_⟩
        rw [hcolon]
        refine bind_eq_ok_iff.mpr ⟨_, within_eq_ok_iff.mpr hcontent, ?_⟩
        rw [hclosing]
        rfl
  · rename_i hmark
    simp [hmark, fail]
  · rename_i hquote hbrace _
    simp only [fail, reduceCtorEq, false_iff, not_or, not_exists, not_and]
    exact ⟨fun mid h => absurd h (hquote mid), fun mid h => absurd h (hbrace mid)⟩

theorem local_variant {known : List (String × α)} : Local (variant known) := by
  intro a
  have hstring : Framed Anything fun cs rest =>
      ∃ t, scanString [] cs = .ok (t, rest) ∧ known.lookup (String.ofList t) = some a :=
    Framed.exists_ fun t => framed_string.and_const
  have hobject : Framed Anything fun cs rest =>
      ∃ name, NamedObject name cs rest ∧ known.lookup name = some a :=
    Framed.exists_ fun name => framed_namedObject.and_const
  have hleft := (Framed.gapMark '"').comp hstring fun _ _ _ => trivial
  have hright := (Framed.gapMark '{').comp hobject fun _ _ _ => trivial
  exact ((hleft.or hright).congr fun _ _ => variant_eq_ok_iff).mono

/-! ## Lists -/

theorem nextEntry_none_iff {fresh : Bool} :
    nextEntry fresh cs = .ok none ↔ ∃ mid, dropGap cs = ']' :: mid := by
  unfold nextEntry
  split
  · simp [fail, *]
  · simp [pure, Except.pure, *]
  · rename_i hclosing
    simpa [pure, Except.pure] using hclosing
  · split <;> simp [fail, pure, Except.pure, *]
  · rename_i hclosing _
    simpa [fail] using hclosing

theorem not_closing_of_nextEntry {fresh : Bool} (h : nextEntry fresh cs ≠ .ok none)
    (mid : List Char) : dropGap cs ≠ ']' :: mid :=
  fun hmark => h (nextEntry_none_iff.mpr ⟨mid, hmark⟩)

/-- The first character of an entry. -/
def StartsEntry (o : Option Char) : Prop :=
  ∃ c ∈ o, c ≠ ']'

theorem nextEntry_fresh_iff {mid : List Char} :
    nextEntry true cs = .ok (some mid) ↔
      StartsEntry (dropGap cs).head? ∧ dropGap cs = mid := by
  cases hmark : dropGap cs with
  | nil => simp [nextEntry, hmark, StartsEntry, fail]
  | cons c t =>
      by_cases hc : c = ']'
      · simp [nextEntry, hmark, hc, StartsEntry, pure, Except.pure]
      · simp [nextEntry, hmark, hc, StartsEntry, pure, Except.pure]

theorem nextEntry_later_iff {mid : List Char} :
    nextEntry false cs = .ok (some mid) ↔
      ∃ u, dropGap cs = ',' :: u ∧ StartsEntry (dropGap u).head? ∧ dropGap u = mid := by
  cases hmark : dropGap cs with
  | nil => simp [nextEntry, hmark, fail]
  | cons c t =>
      by_cases hclosing : c = ']'
      · simp [nextEntry, hmark, hclosing, pure, Except.pure]
      · by_cases hcomma : c = ','
        · simp only [hcomma, List.cons.injEq, true_and, exists_eq_left']
          rw [← nextEntry_fresh_iff]
          cases hnext : dropGap t with
          | nil => simp [nextEntry, hmark, hcomma, hnext, fail]
          | cons d u =>
              by_cases hd : d = ']'
              · simp [nextEntry, hmark, hcomma, hnext, hd, fail, pure, Except.pure]
              · simp [nextEntry, hmark, hcomma, hnext, hd, pure, Except.pure]
        · simp [nextEntry, hmark, hclosing, hcomma, fail]

theorem closeList_eq_ok_iff : closeList cs = .ok rest ↔ dropGap cs = ']' :: rest := by
  unfold closeList
  split
  · simp [fail, *]
  · simp [pure, Except.pure, *]
  · split <;> simp [fail, *]
  · rename_i hclosing _
    simp only [fail, reduceCtorEq, false_iff]
    exact hclosing rest

theorem framed_closeList : Framed Anything fun cs rest => closeList cs = .ok rest :=
  (Framed.gapMark ']').congr fun _ _ => closeList_eq_ok_iff

theorem closed_of_nextEntry {o : Option (List Char)} (h : nextEntry false cs = .ok o) :
    Closed cs := by
  cases o with
  | none =>
      obtain ⟨mid, hmark⟩ := nextEntry_none_iff.mp h
      exact closed_of_dropGap hmark (by simp)
  | some mid =>
      obtain ⟨u, hmark, -⟩ := nextEntry_later_iff.mp h
      exact closed_of_dropGap hmark (by simp)

/-- An entry with what stands in front of it. -/
def ReadsEntry (fresh : Bool) (item : Reader α) (a : α) (cs rest : List Char) : Prop :=
  ∃ mid, nextEntry fresh cs = .ok (some mid) ∧ item mid = .ok (a, rest)

theorem framed_entry {item : Reader α} (hitem : Local item) (fresh : Bool) (a : α) :
    Framed Closed (ReadsEntry fresh item a) := by
  have hfirst := ((hitem a).head (p := StartsEntry)).behindGap
  cases fresh with
  | true =>
      refine hfirst.congr fun cs rest => ?_
      simp only [ReadsEntry, nextEntry_fresh_iff]
      constructor
      · rintro ⟨mid, ⟨hstart, rfl⟩, hread⟩
        exact ⟨hstart, hread⟩
      · rintro ⟨hstart, hread⟩
        exact ⟨_, ⟨hstart, rfl⟩, hread⟩
  | false =>
      refine ((Framed.gapMark ',').comp hfirst fun _ _ _ => trivial).congr fun cs rest => ?_
      simp only [ReadsEntry, nextEntry_later_iff]
      constructor
      · rintro ⟨mid, ⟨u, hcomma, hstart, rfl⟩, hread⟩
        exact ⟨u, hcomma, hstart, hread⟩
      · rintro ⟨u, hcomma, hstart, hread⟩
        exact ⟨_, ⟨u, hcomma, hstart, rfl⟩, hread⟩

theorem entries_succ_iff {item : Reader α} {n : Nat} {read as : List α} :
    entries item (n + 1) read cs = .ok (as, rest) ↔
      (dropGap cs = ']' :: rest ∧ read.reverse = as) ∨
        ∃ a mid, ReadsEntry read.isEmpty item a cs mid ∧
          entries item n (a :: read) mid = .ok (as, rest) := by
  rw [entries]
  cases hnext : nextEntry read.isEmpty cs with
  | error e =>
      have hopen : ∀ mid, dropGap cs ≠ ']' :: mid :=
        not_closing_of_nextEntry (by rw [hnext]; simp)
      simp [ReadsEntry, hnext, hopen, bind, Except.bind]
  | ok o =>
      cases o with
      | none =>
          simp only [ReadsEntry, hnext, bind_eq_ok_iff, closeList_eq_ok_iff, Except.ok.injEq,
            reduceCtorEq, pure, Except.pure, exists_eq_left', false_and, exists_false, or_false,
            Prod.mk.injEq]
          constructor
          · rintro ⟨_, hclose, rfl, rfl⟩
            exact ⟨hclose, rfl⟩
          · rintro ⟨hclose, rfl⟩
            exact ⟨_, hclose, rfl, rfl⟩
      | some mid =>
          have hopen : ∀ mid, dropGap cs ≠ ']' :: mid :=
            not_closing_of_nextEntry (by rw [hnext]; simp)
          simp [ReadsEntry, hnext, hopen, bind_eq_ok_iff, within_eq_ok_iff]

/-- Entries that follow an entry cannot belong to a number. -/
theorem closed_of_entries {item : Reader α} {n : Nat} {a : α} {read as : List α}
    (h : entries item n (a :: read) cs = .ok (as, rest)) : Closed cs := by
  cases n with
  | zero => cases h
  | succ n =>
      rcases entries_succ_iff.mp h with ⟨hmark, -⟩ | ⟨_, _, ⟨mid, hnext, -⟩, -⟩
      · exact closed_of_dropGap hmark (by simp)
      · exact closed_of_nextEntry hnext

theorem exists_front_of_entries {item : Reader α} (hitem : Local item) {n : Nat}
    {read as : List α} (h : entries item n read cs = .ok (as, rest)) :
    ∃ front, front ≠ [] ∧ cs = front ++ rest ∧
      ∀ more m, front.length ≤ m → entries item m read (front ++ more) = .ok (as, more) := by
  refine Framed.exists_front_of_run (P := Closed)
    (fun n read cs rest => entries item n read cs = .ok (as, rest))
    (fun read cs rest => dropGap cs = ']' :: rest ∧ read.reverse = as)
    (fun read read' cs mid => ∃ a, ReadsEntry read.isEmpty item a cs mid ∧ a :: read = read')
    ?_ ?_ ?_ ?_ ?_ h
  · intro read cs rest h
    cases h
  · intro n read cs rest
    rw [entries_succ_iff]
    refine or_congr_right ⟨?_, ?_⟩
    · rintro ⟨a, mid, hentry, hrest⟩
      exact ⟨_, mid, ⟨a, hentry, rfl⟩, hrest⟩
    · rintro ⟨_, mid, ⟨a, hentry, rfl⟩, hrest⟩
      exact ⟨a, mid, hentry, hrest⟩
  · exact fun read => (Framed.gapMark ']').and_const
  · exact fun read read' => Framed.exists_ fun a => (framed_entry hitem _ a).and_const
  · rintro read _ cs mid ⟨a, -, rfl⟩ n more rest hrun
    exact closed_of_entries hrun

theorem local_list {item : Reader α} (hitem : Local item) : Local (list item) := by
  intro as
  have hentries : Framed Anything fun cs rest =>
      entries item (cs.length + 1) [] cs = .ok (as, rest) := by
    intro cs rest h
    obtain ⟨front, hne, rfl, hmore⟩ := exists_front_of_entries hitem h
    refine ⟨front, hne, rfl, fun more _ => hmore more _ ?_⟩
    rw [List.length_append]
    omega
  refine (((Framed.gapMark '[').comp hentries fun _ _ _ => trivial).congr fun cs rest => ?_).mono
  rw [list]
  split
  · rename_i mid hmark
    simp [Relation.Comp, hmark]
  · rename_i hmark
    constructor
    · intro h
      exact absurd h wrongType_ne_ok
    · rintro ⟨mid, hmid, -⟩
      exact absurd hmid (hmark mid)

end Reader

/-! ## Records -/

namespace Record

open Reader (ReadsEntry closeList nextEntry)

theorem nextKey_none_iff {fresh : Bool} :
    nextKey fresh cs = .ok none ↔ ∃ mid, dropGap cs = '}' :: mid := by
  unfold nextKey
  split
  · simp [Reader.fail, *]
  · simp [pure, Except.pure, *]
  · simp [pure, Except.pure, *]
  · rename_i hclosing _
    simpa [Reader.fail] using hclosing
  · split <;> simp [Reader.fail, pure, Except.pure, *]
  · rename_i hclosing _
    simpa [Reader.fail] using hclosing

theorem not_closing_of_nextKey {fresh : Bool} (h : nextKey fresh cs ≠ .ok none)
    (mid : List Char) : dropGap cs ≠ '}' :: mid :=
  fun hmark => h (nextKey_none_iff.mpr ⟨mid, hmark⟩)

theorem nextKey_fresh_iff {mid : List Char} :
    nextKey true cs = .ok (some mid) ↔ dropGap cs = '"' :: mid := by
  cases hmark : dropGap cs with
  | nil => simp [nextKey, hmark, Reader.fail]
  | cons c t =>
      by_cases hc : c = '}'
      · simp [nextKey, hmark, hc, pure, Except.pure]
      · by_cases hquote : c = '"'
        · simp [nextKey, hmark, hquote, pure, Except.pure]
        · simp [nextKey, hmark, hc, hquote, Reader.fail]

theorem nextKey_later_iff {mid : List Char} :
    nextKey false cs = .ok (some mid) ↔
      ∃ u, dropGap cs = ',' :: u ∧ dropGap u = '"' :: mid := by
  cases hmark : dropGap cs with
  | nil => simp [nextKey, hmark, Reader.fail]
  | cons c t =>
      by_cases hc : c = '}'
      · simp [nextKey, hmark, hc, pure, Except.pure]
      · by_cases hcomma : c = ','
        · cases hnext : dropGap t with
          | nil => simp [nextKey, hmark, hcomma, hnext, Reader.fail]
          | cons d u =>
              by_cases hquote : d = '"'
              · simp [nextKey, hmark, hcomma, hnext, hquote, pure, Except.pure]
              · by_cases hd : d = '}'
                · simp [nextKey, hmark, hcomma, hnext, hd, Reader.fail]
                · simp [nextKey, hmark, hcomma, hnext, hquote, hd, Reader.fail]
        · simp [nextKey, hmark, hc, hcomma, Reader.fail]

theorem colon_eq_ok_iff : colon cs = .ok rest ↔ dropGap cs = ':' :: rest := by
  unfold colon
  split
  · simp [Reader.fail, *]
  · simp [pure, Except.pure, *]
  · rename_i hcolon
    simpa [Reader.fail] using hcolon rest

theorem framed_nextKey (fresh : Bool) :
    Framed Anything fun cs rest => nextKey fresh cs = .ok (some rest) := by
  cases fresh with
  | true => exact (Framed.gapMark '"').congr fun _ _ => nextKey_fresh_iff
  | false =>
      exact ((Framed.gapMark ',').comp (Framed.gapMark '"') fun _ _ _ => trivial).congr
        fun _ _ => nextKey_later_iff

theorem framed_colon : Framed Anything fun cs rest => colon cs = .ok rest :=
  (Framed.gapMark ':').congr fun _ _ => colon_eq_ok_iff

theorem closed_of_nextKey {o : Option (List Char)} (h : nextKey false cs = .ok o) :
    Closed cs := by
  cases o with
  | none =>
      obtain ⟨mid, hmark⟩ := nextKey_none_iff.mp h
      exact closed_of_dropGap hmark (by simp)
  | some mid =>
      obtain ⟨u, hmark, -⟩ := nextKey_later_iff.mp h
      exact closed_of_dropGap hmark (by simp)

/-- The values of the fields are read without a look at what follows them. -/
def LocalFields (fields : List (Field δ)) : Prop :=
  ∀ f ∈ fields, ∀ d, Local (f.read d)

theorem local_member {fields : List (Field δ)} (hfields : LocalFields fields) (key : String)
    (d : δ) : Local (member fields key d) := by
  intro d'
  cases hfind : fields.find? (·.name == key) with
  | none =>
      refine ((framed_colon.comp framed_skipValue fun _ _ _ => trivial).and_const
        (p := d = d')).congr fun cs rest => ?_
      simp only [member, hfind, bind_eq_ok_iff, Reader.lift_eq_ok_iff, pure, Except.pure,
        Except.ok.injEq, Prod.mk.injEq, Relation.Comp]
      constructor
      · rintro ⟨mid, hcolon, _, hskip, rfl, rfl⟩
        exact ⟨⟨mid, hcolon, hskip⟩, rfl⟩
      · rintro ⟨⟨mid, hcolon, hskip⟩, rfl⟩
        exact ⟨mid, hcolon, rest, hskip, rfl, rfl⟩
  | some field =>
      cases hread : field.isRead d with
      | true =>
          intro cs rest h
          simp [member, hfind, hread, Reader.fail] at h
      | false =>
          have hfield := hfields field (List.mem_of_find?_eq_some hfind) d d'
          refine (framed_colon.comp hfield fun _ _ _ => trivial).congr fun cs rest => ?_
          simp [member, hfind, hread, bind_eq_ok_iff, Reader.within_eq_ok_iff, Relation.Comp]

/-! ### Objects -/

/-- A member with what stands in front of its key. -/
def ReadsMember (fields : List (Field δ)) (fresh : Bool) (d d' : δ) (cs rest : List Char) : Prop :=
  ∃ mid, nextKey fresh cs = .ok (some mid) ∧ ∃ key mid', scanString [] mid = .ok (key, mid') ∧
    member fields (String.ofList key) d mid' = .ok (d', rest)

theorem framed_member {fields : List (Field δ)} (hfields : LocalFields fields) (fresh : Bool)
    (d d' : δ) : Framed Closed (ReadsMember fields fresh d d') := by
  have hmember : Framed Closed fun cs rest => ∃ key mid', scanString [] cs = .ok (key, mid') ∧
      member fields (String.ofList key) d mid' = .ok (d', rest) :=
    Framed.exists_ fun key =>
      framed_string.comp (local_member hfields _ d d') fun _ _ _ => trivial
  exact (framed_nextKey fresh).comp hmember fun _ _ _ => trivial

theorem members_succ_iff {fields : List (Field δ)} {n : Nat} {fresh : Bool} {d d' : δ} :
    members fields (n + 1) fresh d cs = .ok (d', rest) ↔
      (dropGap cs = '}' :: rest ∧ d = d') ∨
        ∃ d'' mid, ReadsMember fields fresh d d'' cs mid ∧
          members fields n false d'' mid = .ok (d', rest) := by
  rw [members]
  cases hnext : nextKey fresh cs with
  | error e =>
      have hopen : ∀ mid, dropGap cs ≠ '}' :: mid := not_closing_of_nextKey (by rw [hnext]; simp)
      simp [ReadsMember, hnext, hopen, bind, Except.bind]
  | ok o =>
      cases o with
      | none =>
          obtain ⟨mid, hmark⟩ := nextKey_none_iff.mp hnext
          simp [ReadsMember, hnext, hmark, bind, Except.bind, pure, Except.pure, and_comm]
      | some mid =>
          have hopen : ∀ mid, dropGap cs ≠ '}' :: mid := not_closing_of_nextKey (by rw [hnext]; simp)
          simp only [bind_eq_ok_iff, Reader.lift_eq_ok_iff, ReadsMember, hnext, hopen,
            Except.ok.injEq, Option.some.injEq, false_and, false_or, exists_eq_left',
            Prod.exists]
          constructor
          · rintro ⟨key, mid', hkey, d'', mid'', hmember, hrest⟩
            exact ⟨d'', mid'', ⟨key, mid', hkey, hmember⟩, hrest⟩
          · rintro ⟨d'', mid'', ⟨key, mid', hkey, hmember⟩, hrest⟩
            exact ⟨key, mid', hkey, d'', mid'', hmember, hrest⟩

/-- Members that follow a member cannot belong to a number. -/
theorem closed_of_members {fields : List (Field δ)} {n : Nat} {d d' : δ}
    (h : members fields n false d cs = .ok (d', rest)) : Closed cs := by
  cases n with
  | zero => cases h
  | succ n =>
      rcases members_succ_iff.mp h with ⟨hmark, -⟩ | ⟨_, _, ⟨mid, hnext, -⟩, -⟩
      · exact closed_of_dropGap hmark (by simp)
      · exact closed_of_nextKey hnext

theorem exists_front_of_members {fields : List (Field δ)} (hfields : LocalFields fields) {n : Nat}
    {fresh : Bool} {d d' : δ} (h : members fields n fresh d cs = .ok (d', rest)) :
    ∃ front, front ≠ [] ∧ cs = front ++ rest ∧
      ∀ more m, front.length ≤ m → members fields m fresh d (front ++ more) = .ok (d', more) := by
  -- The state of the loop is whether a member has been read, and what has been read.
  refine Framed.exists_front_of_run (P := Closed)
    (fun n (s : Bool × δ) cs rest => members fields n s.1 s.2 cs = .ok (d', rest))
    (fun s cs rest => dropGap cs = '}' :: rest ∧ s.2 = d')
    (fun s s' cs mid => ReadsMember fields s.1 s.2 s'.2 cs mid ∧ s'.1 = false)
    ?_ ?_ ?_ ?_ ?_ (s := (fresh, d)) h
  · intro s cs rest h
    cases h
  · intro n s cs rest
    rw [members_succ_iff]
    refine or_congr_right ⟨?_, ?_⟩
    · rintro ⟨d'', mid, hmember, hrest⟩
      exact ⟨(false, d''), mid, ⟨hmember, rfl⟩, hrest⟩
    · rintro ⟨⟨_, d''⟩, mid, ⟨hmember, rfl⟩, hrest⟩
      exact ⟨d'', mid, hmember, hrest⟩
  · exact fun s => (Framed.gapMark '}').and_const
  · exact fun s s' => (framed_member hfields _ _ _).and_const
  · rintro s ⟨_, d''⟩ cs mid ⟨-, rfl⟩ n more rest hrun
    exact closed_of_members hrun

/-! ### Lists of values -/

variable {r : Record δ α}

theorem positions_cons_iff {i : Nat} {f : Field δ} {fields : List (Field δ)} {d d' : δ} :
    positions r i (f :: fields) d cs = .ok (d', rest) ↔
      (∃ d'' mid, ReadsEntry (i = 0) (f.read d) d'' cs mid ∧
        positions r (i + 1) fields d'' mid = .ok (d', rest)) ∨
      nextEntry (i = 0) cs = .ok none ∧ f.mayEnd = true ∧
        positions r i fields d cs = .ok (d', rest) := by
  rw [positions]
  cases hnext : nextEntry (i = 0) cs with
  | error e => simp [ReadsEntry, hnext, bind, Except.bind]
  | ok o =>
      cases o with
      | none =>
          cases hend : f.mayEnd <;>
            simp [ReadsEntry, hnext, bind, Except.bind, Reader.fail]
      | some mid => simp [ReadsEntry, hnext, bind_eq_ok_iff, Reader.within_eq_ok_iff]

/-- A list that has ended leaves the fields that may be missing as they are. -/
theorem positions_end {i : Nat} {fields : List (Field δ)} {d d' : δ} {mid : List Char}
    (hend : nextEntry (i = 0) cs = .ok none) :
    positions r i fields d cs = .ok (d', mid) ↔
      (∀ f ∈ fields, f.mayEnd = true) ∧ d = d' ∧ cs = mid := by
  induction fields with
  | nil => simp [positions, pure, Except.pure]
  | cons f fields ih =>
      rw [positions_cons_iff, ih]
      simp [ReadsEntry, hend, and_assoc]

/-- The values of a list up to its closing mark. -/
def ReadsPositions (r : Record δ α) (i : Nat) (fields : List (Field δ)) (d d' : δ)
    (cs rest : List Char) : Prop :=
  ∃ mid, positions r i fields d cs = .ok (d', mid) ∧ closeList mid = .ok rest

theorem closed_of_positions {i : Nat} {fields : List (Field δ)} {d d' : δ}
    (h : ReadsPositions r (i + 1) fields d d' cs rest) : Closed cs := by
  obtain ⟨mid, hread, hclose⟩ := h
  cases fields with
  | nil =>
      cases hread
      exact closed_of_dropGap (Reader.closeList_eq_ok_iff.mp hclose) (by simp)
  | cons f fields =>
      rcases positions_cons_iff.mp hread with ⟨_, _, ⟨mid, hnext, -⟩, -⟩ | ⟨hnext, -⟩
      · exact Reader.closed_of_nextEntry (by simpa using hnext)
      · exact Reader.closed_of_nextEntry (by simpa using hnext)

theorem framed_positions {fields : List (Field δ)} (hfields : LocalFields fields) (i : Nat)
    (d d' : δ) : Framed Anything (ReadsPositions r i fields d d') := by
  induction fields generalizing i d with
  | nil =>
      rintro cs rest ⟨mid, hread, hclose⟩
      cases hread
      obtain ⟨front, hne, rfl, hmore⟩ := Reader.framed_closeList hclose
      exact ⟨front, hne, rfl, fun more hafter => ⟨_, rfl, hmore more hafter⟩⟩
  | cons f fields ih =>
      have hrest : LocalFields fields := fun f' hf' => hfields f' (List.mem_cons_of_mem f hf')
      rintro cs rest ⟨mid, hread, hclose⟩
      rcases positions_cons_iff.mp hread with ⟨d'', mid', hentry, hlast⟩ | ⟨hend, -⟩
      · have hlocal := hfields f (by simp) d
        obtain ⟨front, hne, hcs, hmore⟩ := ((Reader.framed_entry hlocal (i = 0) d'').comp
          (ih hrest (i + 1) d'') fun _ _ => closed_of_positions) ⟨mid', hentry, mid, hlast, hclose⟩
        refine ⟨front, hne, hcs, fun more hafter => ?_⟩
        obtain ⟨mid', hentry, mid, hlast, hclose⟩ := hmore more hafter
        exact ⟨mid, positions_cons_iff.mpr (.inl ⟨d'', mid', hentry, hlast⟩), hclose⟩
      · -- The closing mark is next, so the piece is what closes the list.
        obtain ⟨hmay, rfl, rfl⟩ := (positions_end hend).mp hread
        obtain ⟨front, hne, rfl, hmore⟩ := Reader.framed_closeList hclose
        refine ⟨front, hne, rfl, fun more hafter => ?_⟩
        have hclose := hmore more hafter
        have hend : nextEntry (i = 0) (front ++ more) = .ok none :=
          Reader.nextEntry_none_iff.mpr ⟨more, Reader.closeList_eq_ok_iff.mp hclose⟩
        exact ⟨_, (positions_end hend).mpr ⟨hmay, rfl, rfl⟩, hclose⟩

/-! ### Whole records -/

theorem read_eq_ok_iff {a : α} :
    r.read cs = .ok (a, rest) ↔
      (∃ mid, dropGap cs = '{' :: mid ∧ ∃ d,
        members r.fields (mid.length + 1) true r.blank mid = .ok (d, rest) ∧ r.settle d = .ok a) ∨
      ∃ mid, dropGap cs = '[' :: mid ∧ ∃ d,
        ReadsPositions r 0 r.fields r.blank d mid rest ∧ r.settle d = .ok a := by
  rw [read]
  split
  · rename_i mid hmark
    simp [hmark, bind_eq_ok_iff, pure, Except.pure]
  · rename_i mid hmark
    simp only [hmark, bind_eq_ok_iff, pure, Except.pure, ReadsPositions, Prod.exists,
      Except.ok.injEq, Prod.mk.injEq, List.cons.injEq, Char.reduceEq, true_and,
      false_and, exists_false, false_or, exists_eq_left']
    constructor
    · rintro ⟨d, last, hread, a', hsettle, _, hclose, rfl, rfl⟩
      exact ⟨d, ⟨last, hread, hclose⟩, hsettle⟩
    · rintro ⟨d, ⟨last, hread, hclose⟩, hsettle⟩
      exact ⟨d, last, hread, a, hsettle, rest, hclose, rfl, rfl⟩
  · rename_i hbrace hbracket
    constructor
    · intro h
      exact absurd h Reader.wrongType_ne_ok
    · rintro (⟨mid, hmid, -⟩ | ⟨mid, hmid, -⟩)
      · exact absurd hmid (hbrace mid)
      · exact absurd hmid (hbracket mid)

/-- Behind a record anything may follow. -/
theorem framed_read (hfields : LocalFields r.fields) (a : α) :
    Framed Anything fun cs rest => r.read cs = .ok (a, rest) := by
  have hobject : Framed Anything fun cs rest => ∃ d,
      members r.fields (cs.length + 1) true r.blank cs = .ok (d, rest) ∧ r.settle d = .ok a := by
    refine Framed.exists_ fun d => Framed.and_const ?_
    intro cs rest h
    obtain ⟨front, hne, rfl, hmore⟩ := exists_front_of_members hfields h
    refine ⟨front, hne, rfl, fun more _ => hmore more _ ?_⟩
    rw [List.length_append]
    omega
  have hlist : Framed Anything fun cs rest => ∃ d,
      ReadsPositions r 0 r.fields r.blank d cs rest ∧ r.settle d = .ok a :=
    Framed.exists_ fun d => (framed_positions hfields 0 r.blank d).and_const
  have hleft := (Framed.gapMark '{').comp hobject fun _ _ _ => trivial
  have hright := (Framed.gapMark '[').comp hlist fun _ _ _ => trivial
  exact (hleft.or hright).congr fun _ _ => read_eq_ok_iff

theorem local_read (hfields : LocalFields r.fields) : Local r.read :=
  fun a => (framed_read hfields a).mono

theorem local_slot {name : String} {get : δ → Option β} {set : δ → β → δ} {item : Reader β}
    (hitem : Local item) (d : δ) : Local ((Field.slot name get set item).read d) :=
  hitem.map (set d)

end Record

/-! ## Whole texts -/

theorem atEnd_eq_ok_iff : Reader.atEnd cs = .ok () ↔ dropGap cs = [] := by
  rw [Reader.atEnd]
  cases hrest : dropGap cs <;> simp [Reader.fail, pure, Except.pure]

theorem whole_eq_ok_iff {r : Reader α} {a : α} :
    Reader.whole r cs = .ok a ↔ ∃ rest, r cs = .ok (a, rest) ∧ dropGap rest = [] := by
  simp only [Reader.whole, bind_eq_ok_iff, Prod.exists, pure, Except.pure, Except.ok.injEq]
  constructor
  · rintro ⟨a', rest, hread, ⟨⟩, hend, rfl⟩
    exact ⟨rest, hread, atEnd_eq_ok_iff.mp hend⟩
  · rintro ⟨rest, hread, hend⟩
    exact ⟨a, rest, hread, (), atEnd_eq_ok_iff.mpr hend, rfl⟩

variable {r : Reader α} {a : α}

/-- What has been read is a document of its own. -/
theorem exists_whole (hr : Framed Anything fun cs rest => r cs = .ok (a, rest))
    (h : r cs = .ok (a, rest)) : ∃ doc, cs = doc ++ rest ∧ Reader.whole r doc = .ok a := by
  obtain ⟨doc, -, rfl, hmore⟩ := hr h
  have hdoc := hmore [] trivial
  rw [List.append_nil] at hdoc
  exact ⟨doc, rfl, whole_eq_ok_iff.mpr ⟨[], hdoc, rfl⟩⟩

/-- A document is read off the front of any text, and leaves what follows it. -/
theorem read_of_whole (hr : Framed Anything fun cs rest => r cs = .ok (a, rest))
    {doc : List Char} (h : Reader.whole r doc = .ok a) (more : List Char) :
    ∃ rest, r (doc ++ more) = .ok (a, rest) ∧ dropGap rest = dropGap more := by
  obtain ⟨g, hread, hend⟩ := whole_eq_ok_iff.mp h
  obtain ⟨front, -, rfl, hmore⟩ := hr hread
  refine ⟨g ++ more, ?_, ?_⟩
  · rw [List.append_assoc]
    exact hmore (g ++ more) trivial
  · refine dropGap_append (fun c hc => ?_) more
    exact List.dropWhile_eq_nil_iff.mp hend c hc

end VisualRules.Json
