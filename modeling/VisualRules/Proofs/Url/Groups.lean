import Mathlib.Data.List.Induction
import VisualRules.Proofs.Url.Address

/-!
# Spellings in groups

An address of version 6 is spelled by its eight groups, each of one to four digits in
base sixteen, with colons in between. One run of zero groups may be left out, and the
last two groups may be written as an address of version 4. A grammar says which texts
spell which address, and each of them is read as that address.
-/

namespace VisualRules.Url

namespace Ipv4

/-! ## Digits -/

/-- The texts of a number are those that are read as it. -/
theorem digitsIn_iff {base n : Nat} {cs : List Char} :
    DigitsIn base cs n ↔ numberIn? base cs = some n := by
  constructor
  · exact numberIn?_of_digitsIn
  · intro h
    induction cs using List.reverseRecOn generalizing n with
    | nil =>
      cases h
      exact .nil
    | append_singleton cs c ih =>
      rw [numberIn?, List.foldl_append, ← numberIn?] at h
      simp only [List.foldl_cons, List.foldl_nil, Option.bind_eq_bind,
        Option.bind_eq_some_iff] at h
      obtain ⟨d, hc, h⟩ := h
      split at h
      · rename_i hd
        obtain ⟨m, hm, h⟩ := Option.bind_eq_some_iff.1 h
        cases h
        exact .snoc (ih hm) hc hd
      · cases h

/-! ## Dotted texts -/

/-- The decimal digits of an octet. -/
def octetText (b : UInt8) : List Char :=
  Nat.toDigits 10 b.toNat

/-- What is known of the digits of an octet. -/
theorem octetText_facts (b : UInt8) :
    (octetText b).length ≤ 3 ∧ Ipv6.octet? (octetText b) = some b.toNat ∧
      (octetText b).all Char.isDigit = true := by
  have hall : ∀ n < 256, (Nat.toDigits 10 n).length ≤ 3 ∧
      Ipv6.octet? (Nat.toDigits 10 n) = some n ∧ (Nat.toDigits 10 n).all Char.isDigit = true := by
    decide +kernel
  exact hall b.toNat b.toNat_lt

theorem toList_text (x : Ipv4) :
    x.text.toList =
      ['.'].intercalate [octetText x.a, octetText x.b, octetText x.c, octetText x.d] := by
  have hoctet : ∀ b : UInt8, (toString b).toList = octetText b := by
    intro b
    show (Nat.repr b.toNat).toList = _
    simp [Nat.repr, octetText]
  simp [text, hoctet, List.intercalate]

end Ipv4

namespace Ipv6

/-! ## Spellings -/

/-- A group is one to four digits in base sixteen. -/
structure GroupText (cs : List Char) (n : Nat) : Prop where
  digits : Ipv4.DigitsIn 16 cs n
  ne_nil : cs ≠ []
  length_le : cs.length ≤ 4

/-- Groups with colons in between; the last two may be an address of version 4. -/
inductive GroupsText : List Char → List Nat → Prop
  | last {cs : List Char} {n : Nat} (h : GroupText cs n) : GroupsText cs [n]
  | dotted (x : Ipv4) :
      GroupsText x.text.toList [x.a.toNat * 256 + x.b.toNat, x.c.toNat * 256 + x.d.toNat]
  | more {cs rest : List Char} {n : Nat} {ns : List Nat} (h : GroupText cs n)
      (hrest : GroupsText rest ns) : GroupsText (cs ++ ':' :: rest) (n :: ns)

/-- Groups in front of a gap, each with its colon. -/
inductive FrontText : List Char → List Nat → Prop
  | nil : FrontText [] []
  | more {cs rest : List Char} {n : Nat} {ns : List Nat} (h : GroupText cs n)
      (hrest : FrontText rest ns) : FrontText (cs ++ ':' :: rest) (n :: ns)

/-- Groups behind a gap, if there are any. -/
inductive BackText : List Char → List Nat → Prop
  | nil : BackText [] []
  | groups {cs : List Char} {ns : List Nat} (h : GroupsText cs ns) : BackText cs ns

/-- The numbers of the groups. -/
def numbers (x : Ipv6) : List Nat :=
  x.groups.toList.map UInt16.toNat

/-- A text of an address. A gap stands for one group or more, all of them zero. -/
inductive Spells : List Char → Ipv6 → Prop
  | full {cs : List Char} {x : Ipv6} (h : GroupsText cs x.numbers) : Spells cs x
  | gap {front back : List Char} {ms ns : List Nat} {k : Nat} {x : Ipv6}
      (hfront : FrontText front ms) (hne : ms ≠ []) (hback : BackText back ns) (hk : 0 < k)
      (hx : x.numbers = ms ++ List.replicate k 0 ++ ns) : Spells (front ++ ':' :: back) x
  | leading {back : List Char} {ns : List Nat} {k : Nat} {x : Ipv6} (hback : BackText back ns)
      (hk : 0 < k) (hx : x.numbers = List.replicate k 0 ++ ns) : Spells (':' :: ':' :: back) x

/-! ## Reading one group -/

variable {cs front back rest : List Char} {n fuel : Nat} {ms ns : List Nat} {d : Draft}

theorem takeWhile_group {p : Char → Bool} (hlength : cs.length ≤ 4) (hcs : ∀ c ∈ cs, p c = true)
    (hrest : ∀ c ∈ rest.head?, p c = false) : ((cs ++ rest).take 4).takeWhile p = cs := by
  rw [List.take_append, List.take_of_length_le hlength, List.takeWhile_append_of_pos hcs]
  cases hk : 4 - cs.length with
  | zero => simp
  | succ k =>
    cases rest with
    | nil => simp
    | cons c rest =>
      have hc : p c = false := hrest c rfl
      simp [hc]

theorem ne_colon_of_isSome {c : Char} (h : (hexDigit? c).isSome) : c ≠ ':' := by
  intro hc
  rw [hc] at h
  exact absurd h (by decide)

/-- What is read of a text that starts with digits depends on what follows them. -/
theorem readGroups_digits (hne : cs ≠ []) (hlength : cs.length ≤ 4)
    (hcs : ∀ c ∈ cs, (hexDigit? c).isSome) (hcount : d.count ≠ 8) :
    (∀ c ∈ rest.head?, (hexDigit? c).isSome = false) →
    readGroups (fuel + 1) d (cs ++ rest) =
      match rest with
      | [] => (d.push ((Ipv4.numberIn? 16 cs).getD 0)).finish
      | ':' :: tail =>
        if tail.isEmpty then none
        else readGroups fuel (d.push ((Ipv4.numberIn? 16 cs).getD 0)) tail
      | '.' :: _ =>
        if cs.isEmpty || 6 < d.count then none
        else
          match dotted? (cs ++ rest) with
          | none => none
          | some (m, k) => ((d.push m).push k).finish
      | _ => none := by
  intro hrest
  have hdigits := takeWhile_group hlength hcs hrest
  have hdrop : (cs ++ rest).drop cs.length = rest := List.drop_left
  have hcolon : ∀ tail, cs ++ rest ≠ ':' :: tail := by
    intro tail h
    obtain ⟨c, cs, rfl⟩ := List.exists_cons_of_ne_nil hne
    exact ne_colon_of_isSome (hcs c (by simp)) (List.cons.inj h).1
  have hread := readGroups.eq_4 d (cs ++ rest) fuel (by simp [hne]) hcolon
  rw [if_neg hcount] at hread
  dsimp only at hread
  rw [hdigits, hdrop] at hread
  exact hread

namespace GroupText

theorem read_last (h : GroupText cs n) (hcount : d.count ≠ 8) :
    readGroups (fuel + 1) d cs = (d.push n).finish := by
  have hread : readGroups (fuel + 1) d (cs ++ []) =
      (d.push ((Ipv4.numberIn? 16 cs).getD 0)).finish :=
    readGroups_digits h.ne_nil h.length_le h.digits.isSome hcount (by simp)
  rw [List.append_nil] at hread
  rw [hread, Ipv4.numberIn?_of_digitsIn h.digits]
  rfl

theorem read_more (h : GroupText cs n) (hcount : d.count ≠ 8) (hrest : rest ≠ []) :
    readGroups (fuel + 1) d (cs ++ ':' :: rest) = readGroups fuel (d.push n) rest := by
  have hcolon : ∀ c ∈ (':' :: rest).head?, (hexDigit? c).isSome = false := by
    simp [show hexDigit? ':' = none from rfl]
  rw [readGroups_digits h.ne_nil h.length_le h.digits.isSome hcount hcolon,
    Ipv4.numberIn?_of_digitsIn h.digits]
  simp [hrest]

end GroupText

/-! ## Reading two groups from an address of version 4 -/

theorem isSome_of_isDigit {c : Char} (h : c.isDigit = true) : (hexDigit? c).isSome := by
  simp [hexDigit?, h]

theorem dotted?_text (x : Ipv4) :
    dotted? x.text.toList =
      some (x.a.toNat * 256 + x.b.toNat, x.c.toNat * 256 + x.d.toNat) := by
  have hpoint : ∀ b : UInt8, '.' ∉ Ipv4.octetText b := by
    intro b hmem
    have hdigit := List.all_eq_true.1 (Ipv4.octetText_facts b).2.2 _ hmem
    exact absurd hdigit (by decide)
  have hoctet : ∀ b : UInt8, octet? (Ipv4.octetText b) = some b.toNat :=
    fun b => (Ipv4.octetText_facts b).2.1
  rw [dotted?, Ipv4.toList_text, List.splitOn_intercalate '.' (by simp [hpoint]) (by simp)]
  simp [hoctet]

theorem read_dotted (x : Ipv4) (hcount : d.count ≤ 6) :
    readGroups (fuel + 1) d x.text.toList =
      ((d.push (x.a.toNat * 256 + x.b.toNat)).push (x.c.toNat * 256 + x.d.toNat)).finish := by
  obtain ⟨hlength, hoctet, hdigits⟩ := Ipv4.octetText_facts x.a
  have hne : Ipv4.octetText x.a ≠ [] := by
    intro h
    rw [h] at hoctet
    cases hoctet
  obtain ⟨tail, htail⟩ : ∃ tail, x.text.toList = Ipv4.octetText x.a ++ '.' :: tail := by
    rw [Ipv4.toList_text]
    exact ⟨_, rfl⟩
  have hpoint : ∀ c ∈ ('.' :: tail).head?, (hexDigit? c).isSome = false := by
    simp [show hexDigit? '.' = none from rfl]
  have hhex : ∀ c ∈ Ipv4.octetText x.a, (hexDigit? c).isSome :=
    fun c hc => isSome_of_isDigit (List.all_eq_true.1 hdigits c hc)
  have hnot : ¬ 6 < d.count := by omega
  rw [htail, readGroups_digits hne (by omega) hhex (by omega) hpoint, ← htail, dotted?_text]
  simp [hne, hnot]

/-! ## Reading all groups -/

@[simp]
theorem count_push (d : Draft) (n : Nat) : (d.push n).count = d.count + 1 := by
  obtain ⟨before, after⟩ := d
  cases after with
  | none => simp [Draft.push, Draft.count]
  | some ns =>
    simp only [Draft.push, Draft.count, List.length_cons]
    omega

theorem GroupsText.ne_nil (h : GroupsText cs ns) : cs ≠ [] := by
  cases h with
  | last h => exact h.ne_nil
  | dotted x =>
    intro hnil
    have hread := dotted?_text x
    rw [hnil] at hread
    cases hread
  | more h hrest => simp

theorem GroupsText.read (h : GroupsText cs ns) (hcount : d.count + ns.length ≤ 8)
    (hfuel : cs.length < fuel) : readGroups fuel d cs = (ns.foldl Draft.push d).finish := by
  induction h generalizing fuel d with
  | @last cs n h =>
    obtain ⟨fuel, rfl⟩ := Nat.exists_eq_add_of_lt hfuel
    have hroom : d.count ≠ 8 := by
      simp only [List.length_singleton] at hcount
      omega
    exact h.read_last hroom
  | dotted x =>
    obtain ⟨fuel, rfl⟩ := Nat.exists_eq_add_of_lt hfuel
    exact read_dotted x (by simpa using hcount)
  | @more cs rest n ns h hrest ih =>
    obtain ⟨fuel, rfl⟩ := Nat.exists_eq_add_of_lt (Nat.zero_lt_of_lt hfuel)
    rw [List.length_cons] at hcount
    rw [h.read_more (by omega) hrest.ne_nil, List.foldl_cons]
    refine ih ?_ ?_
    · rw [count_push]
      omega
    · simp only [List.length_append, List.length_cons] at hfuel
      omega

theorem BackText.read (h : BackText back ns) (hcount : d.count + ns.length ≤ 8)
    (hfuel : back.length < fuel) : readGroups fuel d back = (ns.foldl Draft.push d).finish := by
  cases h with
  | nil =>
    obtain ⟨fuel, rfl⟩ := Nat.exists_eq_add_of_lt hfuel
    rfl
  | groups h => exact h.read hcount hfuel

/-- Behind the groups in front of a gap, the groups behind it are still to be read. -/
theorem FrontText.read (h : FrontText front ms) (hgap : d.after = none)
    (hcount : d.count + ms.length < 8) (hfuel : front.length + back.length + 1 < fuel) :
    ∃ fuel', back.length < fuel' ∧
      readGroups fuel d (front ++ ':' :: back) =
        readGroups fuel' { ms.foldl Draft.push d with after := some [] } back := by
  induction h generalizing fuel d with
  | nil =>
    obtain ⟨fuel, rfl⟩ := Nat.exists_eq_add_of_lt (Nat.zero_lt_of_lt hfuel)
    have hroom : d.count ≠ 8 := by omega
    refine ⟨0 + fuel, ?_, ?_⟩
    · simp only [List.length_nil] at hfuel
      omega
    · rw [List.nil_append, readGroups]
      simp [hroom, hgap]
  | @more cs rest n ms h hrest ih =>
    obtain ⟨fuel, rfl⟩ := Nat.exists_eq_add_of_lt (Nat.zero_lt_of_lt hfuel)
    rw [List.length_cons] at hcount
    simp only [List.length_append, List.length_cons] at hfuel
    have hpushed : (d.push n).after = none := by simp [Draft.push, hgap]
    rw [List.append_assoc, List.cons_append, h.read_more (by omega) (by simp), List.foldl_cons]
    refine ih hpushed ?_ ?_
    · rw [count_push]
      omega
    · omega

/-! ## The address -/

theorem foldl_push_none (ns before : List Nat) :
    ns.foldl Draft.push ⟨before, none⟩ = ⟨ns.reverse ++ before, none⟩ := by
  induction ns generalizing before with
  | nil => rfl
  | cons n ns ih =>
    rw [List.foldl_cons, Draft.push, ih]
    simp

theorem foldl_push_some (ns before after : List Nat) :
    ns.foldl Draft.push ⟨before, some after⟩ = ⟨before, some (ns.reverse ++ after)⟩ := by
  induction ns generalizing after with
  | nil => rfl
  | cons n ns ih =>
    rw [List.foldl_cons, Draft.push, ih]
    simp

variable {x : Ipv6}

theorem length_numbers (x : Ipv6) : x.numbers.length = 8 := by
  simp [numbers]

theorem map_numbers (x : Ipv6) : x.numbers.map UInt16.ofNat = x.groups.toList := by
  rw [numbers, List.map_map]
  exact List.map_id'' (fun g => by simp) _

theorem mk_toList (x : Ipv6) (h : x.groups.toList.toArray.size = 8) :
    (⟨⟨x.groups.toList.toArray, h⟩⟩ : Ipv6) = x := by
  obtain ⟨⟨⟨gs⟩, hgs⟩⟩ := x
  rfl

theorem finish_full (x : Ipv6) : Draft.finish ⟨x.numbers.reverse, none⟩ = some x := by
  simp [Draft.finish, map_numbers, mk_toList]

/-- A gap is filled up to eight groups. -/
theorem finish_gap {k : Nat} (hx : x.numbers = ms ++ List.replicate k 0 ++ ns) :
    Draft.finish ⟨ms.reverse, some ns.reverse⟩ = some x := by
  have hlength := length_numbers x
  simp only [hx, List.length_append, List.length_replicate] at hlength
  have hk : 8 - ms.length - ns.length = k := by omega
  simp only [Draft.finish, List.reverse_reverse, List.length_reverse, hk, ← hx, map_numbers]
  simp [mk_toList]

/-- A text that starts with a group has no gap in front. -/
theorem ofChars?_group (h : GroupText cs n) (rest : List Char) :
    ofChars? (cs ++ ':' :: rest) =
      readGroups ((cs ++ ':' :: rest).length + 1) ⟨[], none⟩ (cs ++ ':' :: rest) := by
  obtain ⟨c, cs, rfl⟩ := List.exists_cons_of_ne_nil h.ne_nil
  have hc : c ≠ ':' := ne_colon_of_isSome (h.digits.isSome c (by simp))
  obtain ⟨e, tail, htail⟩ : ∃ e tail, cs ++ ':' :: rest = e :: tail := by
    cases cs with
    | nil => exact ⟨_, _, rfl⟩
    | cons e cs => exact ⟨_, _, rfl⟩
  rw [List.cons_append, htail]
  unfold ofChars?
  split <;> simp_all

/-- **Each text of an address is read as that address.** -/
theorem ofChars?_of_spells (h : Spells cs x) : ofChars? cs = some x := by
  have hlength := length_numbers x
  cases h with
  | full h =>
    have hread : readGroups (cs.length + 1) ⟨[], none⟩ cs =
        (x.numbers.foldl Draft.push ⟨[], none⟩).finish :=
      h.read (by simp [Draft.count, hlength]) (Nat.lt_succ_self _)
    rw [foldl_push_none, List.append_nil, finish_full] at hread
    generalize x.numbers = ns at h hlength
    cases h with
    | last h => cases hlength
    | dotted y => cases hlength
    | @more group rest n ns hgroup hrest => rw [ofChars?_group hgroup, hread]
  | @gap front back ms ns k _ hfront hne hback hk hx =>
    simp only [hx, List.length_append, List.length_replicate] at hlength
    obtain ⟨fuel, hfuel, hread⟩ : ∃ fuel, back.length < fuel ∧
        readGroups ((front ++ ':' :: back).length + 1) ⟨[], none⟩ (front ++ ':' :: back) =
          readGroups fuel { ms.foldl Draft.push ⟨[], none⟩ with after := some [] } back := by
      refine hfront.read rfl ?_ ?_
      · simp only [Draft.count, List.length_nil]
        omega
      · simp only [List.length_append, List.length_cons]
        omega
    rw [foldl_push_none, List.append_nil] at hread
    have hbehind : readGroups fuel ⟨ms.reverse, some []⟩ back =
        (ns.foldl Draft.push ⟨ms.reverse, some []⟩).finish :=
      hback.read (by simp [Draft.count]; omega) hfuel
    rw [foldl_push_some, List.append_nil, finish_gap hx] at hbehind
    cases hfront with
    | nil => exact absurd rfl hne
    | @more group rest n ms hgroup hrest =>
      rw [List.append_assoc, List.cons_append] at hread ⊢
      rw [ofChars?_group hgroup, hread]
      exact hbehind
  | @leading back ns k _ hback hk hx =>
    simp only [hx, List.length_append, List.length_replicate] at hlength
    have hread : readGroups (back.length + 1) ⟨[], some []⟩ back =
        (ns.foldl Draft.push ⟨[], some []⟩).finish :=
      hback.read (by simp [Draft.count]; omega) (Nat.lt_succ_self _)
    have hgroups : x.numbers = [] ++ List.replicate k 0 ++ ns := by rw [hx, List.nil_append]
    rw [foldl_push_some, List.append_nil] at hread
    rw [ofChars?, hread]
    exact finish_gap hgroups

end Ipv6

end VisualRules.Url
