import Mathlib.Data.List.Nodup
import VisualRules.Json.Record
import VisualRules.Proofs.Json.Form

/-!
# Reading a document

A reader for a type reads the texts of a document as a function decodes the
document, whatever white space stands around it. Readers for records take members
in any order and pass over those that they do not know.
-/

namespace VisualRules.Json

variable {α β δ : Type} {cs g rest : List Char}

/-- Whatever a function decodes, the reader takes off the front of a text. -/
def ReadsAs (r : Reader α) (decode : Tree → Option α) : Prop :=
  ∀ t a, decode t = some a → ∀ cs, Spells (.document t) cs → ∀ g rest, Gap g → Closed rest →
    r (g ++ (cs ++ rest)) = .ok (a, rest)

/-! ## Strings -/

/-- The string that a document is. -/
def Tree.string? : Tree → Option String
  | .string s => some s
  | _ => none

theorem reads_string : ReadsAs Reader.string Tree.string? := by
  intro t a ha cs hcs g rest hg hrest
  cases hcs with
  | string hs =>
    cases ha
    simp [Reader.string, Reader.stringAs, dropGap_mark hg, isGap, scanString_text hs, Reader.lift,
      Except.mapError, bind, Except.bind, pure, Except.pure]
  | _ => cases ha

/-- The value that belongs to the name that a document is. -/
def Tree.choice? (known : List (String × α)) : Tree → Option α
  | .string s => known.lookup s
  | _ => none

theorem reads_variant (known : List (String × α)) :
    ReadsAs (Reader.variant known) (Tree.choice? known) := by
  intro t a ha cs hcs g rest hg hrest
  cases hcs with
  | string hs =>
    have ha : known.lookup _ = some a := ha
    simp [Reader.variant, dropGap_mark hg, isGap, scanString_text hs, Reader.lift, Reader.named,
      ha, Except.mapError, bind, Except.bind, pure, Except.pure]
  | _ => cases ha

/-! ## Integers -/

/-- The literal of an integer of 64 bits. -/
def Numeral.IsInt64 (x : Numeral) : Prop :=
  x.IsInteger ∧ Reader.leastInt64 ≤ x.integer ∧ x.integer ≤ Reader.greatestInt64

instance (x : Numeral) : Decidable x.IsInt64 :=
  inferInstanceAs (Decidable (_ ∧ _))

/-- Zero with a minus. -/
def Numeral.IsMinusZero (x : Numeral) : Prop :=
  x.negative = true ∧ x.integer = 0

instance (x : Numeral) : Decidable x.IsMinusZero :=
  inferInstanceAs (Decidable (_ ∧ _))

/-- The integer of 64 bits that a document is; zero with a minus is none. -/
def Tree.int64? : Tree → Option Int64
  | .number x => if x.IsInt64 ∧ ¬ x.IsMinusZero then some (Int64.ofInt x.integer) else none
  | _ => none

theorem int64?_of_isInt64 {x : Numeral} (hx : x.IsInt64) (hzero : ¬ x.IsMinusZero) :
    Tree.int64? (.number x) = some (Int64.ofInt x.integer) :=
  if_pos ⟨hx, hzero⟩

theorem le_foldl_digits (n : Nat) (ds : List Char) :
    n ≤ ds.foldl (fun n c => n * 10 + (c.toNat - 48)) n := by
  induction ds generalizing n with
  | nil => exact Nat.le_refl n
  | cons c ds ih =>
    have hrest := ih (n * 10 + (c.toNat - 48))
    rw [List.foldl_cons]
    omega

theorem takeDigits_eq {n : Nat} {ds : List Char}
    (h : ds.foldl (fun n c => n * 10 + (c.toNat - 48)) n < UInt64.size) :
    takeDigits n ds = (ds.foldl (fun n c => n * 10 + (c.toNat - 48)) n, []) := by
  induction ds generalizing n with
  | nil => rfl
  | cons c ds ih =>
    rw [List.foldl_cons] at h ⊢
    have hfits := Nat.lt_of_le_of_lt (le_foldl_digits (n * 10 + (c.toNat - 48)) ds) h
    rw [takeDigits, if_pos hfits, ih h]

/-- A literal that fits 64 bits keeps all its digits. -/
theorem value_of_isInt64 {x : Numeral} (hx : x.IsInt64) (hzero : ¬ x.IsMinusZero) :
    x.value = .ok (.integer x.integer) := by
  obtain ⟨⟨hfraction, hexponent⟩, hleast, hgreatest⟩ := hx
  have hsize : UInt64.size = 18446744073709551616 := rfl
  cases hnegative : x.negative with
  | false =>
    have hinteger : x.integer = digitsValue x.whole := by simp [Numeral.integer, hnegative]
    have hfits : digitsValue x.whole < UInt64.size := by
      rw [hinteger, Reader.greatestInt64] at hgreatest
      omega
    have htake : takeDigits 0 x.whole = (digitsValue x.whole, []) := takeDigits_eq hfits
    simp [Numeral.value, htake, hfraction, hexponent, hnegative, hinteger]
  | true =>
    have hinteger : x.integer = -digitsValue x.whole := by simp [Numeral.integer, hnegative]
    have hsmall : digitsValue x.whole ≤ UInt64.size / 2 := by
      rw [hinteger, Reader.leastInt64] at hleast
      omega
    have hnonzero : digitsValue x.whole ≠ 0 := by
      intro hdigits
      exact hzero ⟨hnegative, by rw [hinteger, hdigits]; rfl⟩
    have htake : takeDigits 0 x.whole = (digitsValue x.whole, []) :=
      takeDigits_eq (lt_of_le_of_lt hsmall (by decide))
    simp [Numeral.value, htake, hfraction, hexponent, hnegative, hinteger, hnonzero,
      Nat.not_lt.2 hsmall]

/-- What is done with the text of a number depends on the value of the number. -/
theorem int64_text {x : Numeral} (hx : x.Spelled cs) (hg : Gap g) (hrest : Closed rest) :
    Reader.int64 (g ++ (cs ++ rest)) = (Reader.lift x.value).bind fun
      | .integer n =>
        if Reader.leastInt64 ≤ n && n ≤ Reader.greatestInt64 then .ok (Int64.ofInt n, rest)
        else Reader.fail (.wrongInteger n "i64")
      | .decimal d => Reader.fail (.wrongType (.decimal d) "i64") := by
  obtain ⟨c, cs', rfl, hc⟩ := hx.mark
  have hscan := scanNumeral_text hx .endOfValue hrest
  rw [List.cons_append] at hscan ⊢
  rw [Reader.int64, dropGap_mark hg (not_gap_of_number hc)]
  have hnumber : scanNumber (c :: (cs' ++ rest)) = x.value.bind fun n => .ok (n, rest) := by
    rw [scanNumber, hscan]
    rfl
  simp only [if_pos (show (decide (c = '-') || c.isDigit) = true by simpa using hc), hnumber]
  rcases x.value with f | n | d <;> rfl

theorem reads_int64 : ReadsAs Reader.int64 Tree.int64? := by
  intro t a ha cs hcs g rest hg hrest
  cases hcs with
  | @number x _ hspelled =>
    by_cases hx : x.IsInt64 ∧ ¬ x.IsMinusZero
    · obtain rfl : Int64.ofInt x.integer = a := by simpa [Tree.int64?, hx] using ha
      rw [int64_text hspelled hg hrest, value_of_isInt64 hx.1 hx.2]
      simp [Reader.lift, Except.mapError, Except.bind, hx.1.2.1, hx.1.2.2]
    · rw [Tree.int64?, if_neg hx] at ha
      cases ha
  | _ => cases ha

/-! ## Lists -/

/-- The list that a document is. -/
def Tree.list? (item : Tree → Option α) : Tree → Option (List α)
  | .list ts => ts.mapM item
  | _ => none

theorem Spells.length_pos {t : Tree} (h : Spells (.document t) cs) : 0 < cs.length := by
  obtain ⟨c, cs', rfl, _⟩ := h.mark
  simp

theorem Spells.length_entries {ts : List Tree} (h : Spells (.entries ts) cs) :
    ts.length ≤ cs.length := by
  induction ts generalizing cs with
  | nil => simp
  | cons t ts ih =>
    cases h with
    | lastEntry hg ht hg' =>
      have hpos := ht.length_pos
      simp only [List.length_cons, List.length_nil, List.length_append]
      omega
    | entry hg ht hg' hts =>
      have hpos := ht.length_pos
      have hrest := ih hts
      simp only [List.length_cons, List.length_append]
      omega

/-- Behind the lead an entry starts with its mark. -/
theorem nextEntry_lead {fresh : Bool} {lead : List Char} (hlead : Lead fresh lead) (hg : Gap g)
    {c : Char} (hgap : isGap c = false) (hc : c ≠ ']') :
    Reader.nextEntry fresh (lead ++ (g ++ c :: cs)) = .ok (some (c :: cs)) := by
  cases hlead with
  | fresh => simp [Reader.nextEntry, dropGap_mark hg hgap, hc, pure, Except.pure]
  | comma hg' =>
    simp [Reader.nextEntry, dropGap_mark hg', dropGap_mark hg hgap, isGap, hc, pure, Except.pure]

theorem nextEntry_end (fresh : Bool) (hg : Gap g) (rest : List Char) :
    Reader.nextEntry fresh (g ++ ']' :: rest) = .ok none := by
  simp [Reader.nextEntry, dropGap_mark hg, isGap, pure, Except.pure]

theorem closeList_end (hg : Gap g) (rest : List Char) :
    Reader.closeList (g ++ ']' :: rest) = .ok rest := by
  simp [Reader.closeList, dropGap_mark hg, isGap, pure, Except.pure]

theorem entries_end (item : Reader α) (n : Nat) (read : List α) (hg : Gap g) (rest : List Char) :
    Reader.entries item (n + 1) read (g ++ ']' :: rest) = .ok (read.reverse, rest) := by
  simp [Reader.entries, nextEntry_end _ hg, closeList_end hg, bind, Except.bind, pure, Except.pure]

/-- Reads one entry behind its lead. -/
theorem entries_entry {item : Reader α} {decode : Tree → Option α} (hitem : ReadsAs item decode)
    {t : Tree} {a : α} (ha : decode t = some a) (ht : Spells (.document t) cs) (hg : Gap g)
    (hrest : Closed rest) {read : List α} {lead : List Char} (hlead : Lead read.isEmpty lead)
    (n : Nat) :
    Reader.entries item (n + 1) read (lead ++ (g ++ (cs ++ rest))) =
      Reader.entries item n (a :: read) rest := by
  have hread := hitem t a ha cs ht [] rest (by simp [Gap]) hrest
  obtain ⟨c, cs', rfl, hmark⟩ := ht.mark
  rw [List.nil_append, List.cons_append] at hread
  rw [Reader.entries, List.cons_append, nextEntry_lead hlead hg hmark.not_gap.1 hmark.not_gap.2.1]
  simp [hread, Reader.within, Except.mapError, bind, Except.bind]

theorem entries_text {item : Reader α} {decode : Tree → Option α} (hitem : ReadsAs item decode)
    {ts : List Tree} {as : List α} (has : ts.mapM decode = some as)
    (hts : Spells (.entries ts) cs) (read : List α) {lead : List Char}
    (hlead : Lead read.isEmpty lead) {n : Nat} (hn : ts.length < n) (rest : List Char) :
    Reader.entries item n read (lead ++ (cs ++ ']' :: rest)) =
      .ok (read.reverse ++ as, rest) := by
  induction ts generalizing cs as read lead n with
  | nil => cases hts
  | cons t ts ih =>
    obtain ⟨n, rfl⟩ : ∃ m, n = m + 1 + 1 := ⟨n - 2, by rw [List.length_cons] at hn; omega⟩
    rw [List.mapM_cons] at has
    obtain ⟨a, ha, hmore⟩ := Option.bind_eq_some_iff.1 has
    obtain ⟨as', has', heq⟩ := Option.bind_eq_some_iff.1 hmore
    obtain rfl : a :: as' = as := by simpa using heq
    cases hts with
    | lastEntry hg ht hg' =>
      obtain rfl : [] = as' := by simpa using has'
      simp only [List.append_assoc]
      rw [entries_entry hitem ha ht hg (closed_append hg' (closed_bracket _)) hlead,
        entries_end _ _ _ hg', List.reverse_cons]
    | entry hg ht hg' hts =>
      simp only [List.append_assoc, List.cons_append]
      rw [entries_entry hitem ha ht hg (closed_append hg' (closed_comma _)) hlead]
      have hfuel : ts.length < n + 1 := by
        rw [List.length_cons] at hn
        omega
      simpa using ih has' hts (a :: read) (Lead.comma hg') hfuel

theorem reads_list {item : Reader α} {decode : Tree → Option α} (hitem : ReadsAs item decode) :
    ReadsAs (Reader.list item) (Tree.list? decode) := by
  intro t as has cs hcs g rest hg hrest
  cases hcs with
  | emptyList hg' =>
    obtain rfl : [] = as := by simpa [Tree.list?] using has
    simp only [List.cons_append, List.append_assoc, List.nil_append]
    rw [Reader.list, dropGap_mark hg (by decide)]
    exact entries_end item _ [] hg' rest
  | list hts =>
    simp only [List.cons_append, List.append_assoc, List.nil_append]
    rw [Reader.list, dropGap_mark hg (by decide)]
    refine entries_text hitem has hts [] Lead.fresh ?_ rest
    have hlength := hts.length_entries
    simp only [List.length_append, List.length_cons]
    omega
  | _ => cases has

/-! ## Records -/

/-- The value of the member with a key: nothing inside if there is none, and
nothing at all if it cannot be decoded or there are several. -/
def Tree.field? (ms : List (String × Tree)) (key : String) (decode : Tree → Option β) :
    Option (Option β) :=
  match ms.filter (·.1 = key) with
  | [] => some none
  | [m] => (decode m.2).map some
  | _ => none

theorem Tree.field?_cons {key name : String} {t : Tree} {ms : List (String × Tree)}
    {decode : Tree → Option β} {o : Option β}
    (h : field? ((key, t) :: ms) name decode = some o) :
    (key = name ∧ field? ms name decode = some none ∧ ∃ x, decode t = some x ∧ o = some x) ∨
      (key ≠ name ∧ field? ms name decode = some o) := by
  by_cases hkey : key = name
  · left
    refine ⟨hkey, ?_⟩
    rw [field?, List.filter_cons_of_pos (by simpa using hkey)] at h
    cases hrest : ms.filter (·.1 = name) with
    | nil =>
      rw [hrest] at h
      obtain ⟨x, hx, heq⟩ := Option.map_eq_some_iff.1 h
      exact ⟨by rw [field?, hrest], x, hx, heq.symm⟩
    | cons m ms' =>
      rw [hrest] at h
      cases h
  · right
    rw [field?, List.filter_cons_of_neg (by simpa using hkey)] at h
    exact ⟨hkey, h⟩

theorem Tree.filter_of_not_mem {ms : List (String × Tree)} {name : String}
    (h : name ∉ ms.map Prod.fst) : ms.filter (·.1 = name) = [] := by
  rw [List.filter_eq_nil_iff]
  intro m hm hname
  exact h (List.mem_map.2 ⟨m, hm, by simpa using hname⟩)

theorem Tree.field?_of_not_mem {ms : List (String × Tree)} {name : String}
    (h : name ∉ ms.map Prod.fst) (decode : Tree → Option β) :
    field? ms name decode = some none := by
  rw [field?, filter_of_not_mem h]

/-- With distinct keys a member is found by its key. -/
theorem Tree.field?_of_mem {ms : List (String × Tree)} (hdistinct : (ms.map Prod.fst).Nodup)
    {name : String} {u : Tree} (hu : (name, u) ∈ ms) (decode : Tree → Option β) :
    field? ms name decode = (decode u).map some := by
  induction ms with
  | nil => cases hu
  | cons m ms ih =>
    obtain ⟨hfirst, hrest⟩ := List.nodup_cons.1 hdistinct
    rcases List.mem_cons.1 hu with rfl | hu
    · rw [field?, List.filter_cons_of_pos (by simp), filter_of_not_mem hfirst]
    · have hne : m.1 ≠ name := by
        rintro rfl
        exact hfirst (List.mem_map.2 ⟨_, hu, rfl⟩)
      have ih := ih hrest hu
      rw [field?] at ih ⊢
      rw [List.filter_cons_of_neg (by simpa using hne), ih]

/-- A field of a record with its place in the draft, and what its reader decodes. -/
structure Slot (δ : Type) where
  {β : Type}
  name : String
  get : δ → Option β
  set : δ → β → δ
  item : Reader β
  mayEnd : Bool := false
  decode : Tree → Option β
  reads : ReadsAs item decode

namespace Slot

/-- The field that a slot is read by. -/
def field (s : Slot δ) : Field δ :=
  { Field.slot s.name s.get s.set s.item with mayEnd := s.mayEnd }

/-- The slots of a draft do not disturb one another. -/
structure Independent (slots : List (Slot δ)) : Prop where
  get_set : ∀ s ∈ slots, ∀ d x, s.get (s.set d x) = some x
  get_set_of_ne : ∀ s ∈ slots, ∀ s' ∈ slots, s.name ≠ s'.name →
    ∀ d x, s'.get (s.set d x) = s'.get d
  nodup : (slots.map (·.name)).Nodup

variable {slots : List (Slot δ)}

theorem colon_text {h : List Char} (hh : Gap h) (cs : List Char) :
    Record.colon (h ++ ':' :: cs) = .ok cs := by
  simp [Record.colon, dropGap_mark hh, isGap, pure, Except.pure]

theorem find_field (slots : List (Slot δ)) (key : String) :
    (slots.map field).find? (·.name == key) = (slots.find? (·.name == key)).map field := by
  rw [List.find?_map]
  rfl

/-- What is done with a member whose key belongs to a slot. -/
theorem member_known {s : Slot δ} {key : String} (hslot : slots.find? (·.name == key) = some s)
    {h : List Char} (hh : Gap h) (d : δ) (cs : List Char) :
    Record.member (slots.map field) key d (h ++ ':' :: cs) =
      if (s.get d).isSome then Reader.fail (.repeatedField key)
      else Reader.within (.key key) (s.item.map (s.set d) cs) := by
  rw [Record.member, find_field, hslot]
  simp [colon_text hh, field, Field.slot, bind, Except.bind]

/-- Reads a member behind its key. -/
theorem member_text (hslots : Independent slots) {key : String} {t : Tree} {h h' : List Char}
    (hh : Gap h) (hh' : Gap h') (ht : Spells (.document t) cs) (hrest : Closed rest) {d : δ}
    (hknown : ∀ s ∈ slots, s.name = key → s.get d = none ∧ ∃ x, s.decode t = some x) :
    ∃ d', Record.member (slots.map field) key d (h ++ ':' :: (h' ++ (cs ++ rest))) =
        .ok (d', rest) ∧
      ∀ s ∈ slots, s.get d' = if s.name = key then s.decode t else s.get d := by
  cases hslot : slots.find? (·.name == key) with
  | none =>
    refine ⟨d, ?_, fun s hs => ?_⟩
    · rw [Record.member, find_field, hslot]
      simp [colon_text hh, skipValue_text ht hh' hrest, Reader.lift, Except.mapError, bind,
        Except.bind, pure, Except.pure]
    · have hne := List.find?_eq_none.1 hslot s hs
      rw [if_neg (by simpa using hne)]
  | some s =>
    have hs := List.mem_of_find?_eq_some hslot
    have hname : s.name = key := by simpa using List.find?_some hslot
    obtain ⟨hfree, x, hx⟩ := hknown s hs hname
    refine ⟨s.set d x, ?_, fun s' hs' => ?_⟩
    · have hread := s.reads t x hx cs ht h' rest hh' hrest
      simp [member_known hslot hh, hfree, Reader.map, hread, Reader.within, Except.mapError, bind,
        Except.bind, pure, Except.pure]
    · by_cases hname' : s'.name = key
      · obtain rfl : s = s' :=
          List.inj_on_of_nodup_map hslots.nodup hs hs' (hname.trans hname'.symm)
        rw [if_pos hname', hslots.get_set s hs, hx]
      · rw [if_neg hname', hslots.get_set_of_ne s hs s' hs' (by rw [hname]; exact Ne.symm hname')]

theorem nextKey_lead {fresh : Bool} {lead : List Char} (hlead : Lead fresh lead) (hg : Gap g)
    (cs : List Char) : Record.nextKey fresh (lead ++ (g ++ '"' :: cs)) = .ok (some cs) := by
  cases hlead with
  | fresh => simp [Record.nextKey, dropGap_mark hg, isGap, pure, Except.pure]
  | comma hg' =>
    simp [Record.nextKey, dropGap_mark hg', dropGap_mark hg, isGap, pure, Except.pure]

theorem members_end (fields : List (Field δ)) (n : Nat) (fresh : Bool) (d : δ) (hg : Gap g)
    (rest : List Char) :
    Record.members fields (n + 1) fresh d (g ++ '}' :: rest) = .ok (d, rest) := by
  simp [Record.members, Record.nextKey, dropGap_mark hg, isGap, bind, Except.bind, pure,
    Except.pure]

/-- Behind its lead and its key a member is read and then the others. -/
theorem members_key (fields : List (Field δ)) {key : String} {k lead : List Char} {fresh : Bool}
    (hlead : Lead fresh lead) (hg : Gap g) (hk : StringText key.toList k) (n : Nat) (d : δ)
    (rest : List Char) :
    Record.members fields (n + 1) fresh d (lead ++ (g ++ '"' :: (k ++ '"' :: rest))) =
      (Record.member fields key d rest).bind fun (d', rest') =>
        Record.members fields n false d' rest' := by
  simp [Record.members, nextKey_lead hlead hg, scanString_text hk, Reader.lift, Except.mapError,
    bind, Except.bind]

/-- Reads one member behind its lead. -/
theorem members_member (hslots : Independent slots) {key : String} {t : Tree}
    {k h h' lead : List Char} {fresh : Bool} (hlead : Lead fresh lead) (hg : Gap g)
    (hk : StringText key.toList k) (hh : Gap h) (hh' : Gap h') (ht : Spells (.document t) cs)
    (hrest : Closed rest) {d : δ}
    (hknown : ∀ s ∈ slots, s.name = key → s.get d = none ∧ ∃ x, s.decode t = some x) (n : Nat) :
    ∃ d', Record.members (slots.map field) (n + 1) fresh d
          (lead ++ (g ++ '"' :: (k ++ '"' :: (h ++ ':' :: (h' ++ (cs ++ rest)))))) =
        Record.members (slots.map field) n false d' rest ∧
      ∀ s ∈ slots, s.get d' = if s.name = key then s.decode t else s.get d := by
  obtain ⟨d', hmember, hget⟩ := member_text hslots hh hh' ht hrest hknown
  refine ⟨d', ?_, hget⟩
  rw [members_key _ hlead hg hk, hmember]
  rfl

/-- What the draft holds behind the members is what it held before them and what
they are decoded to. -/
theorem members_text (hslots : Independent slots) {ms : List (String × Tree)}
    (hms : Spells (.members ms) cs) {fresh : Bool} {lead : List Char} (hlead : Lead fresh lead)
    {n : Nat} (hn : ms.length < n) {d : δ}
    (hknown : ∀ s ∈ slots, ∃ o, Tree.field? ms s.name s.decode = some o ∧
      (o.isSome → s.get d = none)) (rest : List Char) :
    ∃ d', Record.members (slots.map field) n fresh d (lead ++ (cs ++ '}' :: rest)) =
        .ok (d', rest) ∧
      ∀ s ∈ slots, ∀ o, Tree.field? ms s.name s.decode = some o → s.get d' = o.or (s.get d) := by
  induction ms generalizing cs fresh lead n d with
  | nil => cases hms
  | cons m ms ih =>
    obtain ⟨key, t⟩ := m
    obtain ⟨n, rfl⟩ : ∃ m, n = m + 1 + 1 := ⟨n - 2, by rw [List.length_cons] at hn; omega⟩
    have hfirst : ∀ s ∈ slots, s.name = key → s.get d = none ∧ ∃ x, s.decode t = some x := by
      intro s hs hname
      obtain ⟨o, ho, hfree⟩ := hknown s hs
      rcases Tree.field?_cons ho with ⟨-, -, x, hx, rfl⟩ | ⟨hne, -⟩
      · exact ⟨hfree rfl, x, hx⟩
      · exact absurd hname.symm hne
    have hlater {d' : δ}
        (hget : ∀ s ∈ slots, s.get d' = if s.name = key then s.decode t else s.get d) :
        ∀ s ∈ slots, ∃ o', Tree.field? ms s.name s.decode = some o' ∧
          (o'.isSome → s.get d' = none) ∧
          ∀ o, Tree.field? ((key, t) :: ms) s.name s.decode = some o →
            o'.or (s.get d') = o.or (s.get d) := by
      intro s hs
      obtain ⟨o, ho, hfree⟩ := hknown s hs
      rcases Tree.field?_cons ho with ⟨rfl, hrest, x, hx, rfl⟩ | ⟨hne, hrest⟩
      · refine ⟨none, hrest, by simp, fun o' ho' => ?_⟩
        rw [ho] at ho'
        cases ho'
        rw [hget s hs, if_pos rfl, hx]
        rfl
      · have hsame : s.get d' = s.get d := by rw [hget s hs, if_neg (Ne.symm hne)]
        refine ⟨o, hrest, by rwa [hsame], fun o' ho' => ?_⟩
        rw [ho] at ho'
        cases ho'
        rw [hsame]
    cases hms with
    | lastMember hg hk hh hh' ht hg' =>
      obtain ⟨d', hread, hget⟩ := members_member hslots hlead hg hk hh hh' ht
        (closed_append hg' (closed_brace rest)) hfirst (n + 1)
      refine ⟨d', ?_, fun s hs o ho => ?_⟩
      · simp only [List.append_assoc, List.cons_append]
        rw [hread, members_end _ _ _ _ hg']
      · obtain ⟨o', ho', -, heq⟩ := hlater hget s hs
        cases ho'
        exact heq o ho
    | member hg hk hh hh' ht hg' hms =>
      obtain ⟨d', hread, hget⟩ := members_member hslots hlead hg hk hh hh' ht
        (closed_append hg' (closed_comma _)) hfirst (n + 1)
      have hknown' : ∀ s ∈ slots, ∃ o, Tree.field? ms s.name s.decode = some o ∧
          (o.isSome → s.get d' = none) := by
        intro s hs
        obtain ⟨o', ho', hfree, -⟩ := hlater hget s hs
        exact ⟨o', ho', hfree⟩
      have hfuel : ms.length < n + 1 := by
        rw [List.length_cons] at hn
        omega
      obtain ⟨d'', hread', hget'⟩ := ih hms (Lead.comma hg') hfuel hknown'
      refine ⟨d'', ?_, fun s hs o ho => ?_⟩
      · simp only [List.append_assoc, List.cons_append]
        rw [hread]
        simpa using hread'
      · obtain ⟨o', ho', -, heq⟩ := hlater hget s hs
        rw [hget' s hs o' ho', heq o ho]

end Slot

theorem Spells.length_members {ms : List (String × Tree)} (h : Spells (.members ms) cs) :
    ms.length ≤ cs.length := by
  induction ms generalizing cs with
  | nil => simp
  | cons m ms ih =>
    cases h with
    | lastMember hg hk hh hh' ht hg' =>
      simp only [List.length_cons, List.length_nil, List.length_append]
      omega
    | member hg hk hh hh' ht hg' hms =>
      have hrest := ih hms
      simp only [List.length_cons, List.length_append]
      omega

/-- The record that a document is. -/
def Tree.record? (decode : List (String × Tree) → Option α) : Tree → Option α
  | .object ms => decode ms
  | _ => none

/-- A record is read from an object if its draft can be finished with what the
members are decoded to. -/
theorem reads_record {r : Record δ α} (slots : List (Slot δ))
    (hfields : r.fields = slots.map Slot.field) (hslots : Slot.Independent slots)
    (hblank : ∀ s ∈ slots, s.get r.blank = none) {decode : List (String × Tree) → Option α}
    (hdecode : ∀ ms a, decode ms = some a →
      (∀ s ∈ slots, ∃ o, Tree.field? ms s.name s.decode = some o) ∧
      ∀ d, (∀ s ∈ slots, Tree.field? ms s.name s.decode = some (s.get d)) → r.finish d = .ok a) :
    ReadsAs r.read (Tree.record? decode) := by
  intro t a ha cs hcs g rest hg hrest
  cases hcs with
  | emptyObject hg' =>
    obtain ⟨hfound, hfinish⟩ := hdecode [] a ha
    have hsettle : r.finish r.blank = .ok a := by
      refine hfinish r.blank fun s hs => ?_
      rw [hblank s hs]
      rfl
    simp only [List.cons_append, List.append_assoc, List.nil_append]
    rw [Record.read, dropGap_mark hg (by decide)]
    simp [Slot.members_end _ _ _ _ hg', Record.settle, hsettle, bind, Except.bind, pure,
      Except.pure]
  | @object ms inner hms =>
    obtain ⟨hfound, hfinish⟩ := hdecode ms a ha
    have hfuel : ms.length < (inner ++ '}' :: rest).length + 1 := by
      have hlength := hms.length_members
      rw [List.length_append]
      omega
    have hknown : ∀ s ∈ slots, ∃ o, Tree.field? ms s.name s.decode = some o ∧
        (o.isSome → s.get r.blank = none) := by
      intro s hs
      obtain ⟨o, ho⟩ := hfound s hs
      exact ⟨o, ho, fun _ => hblank s hs⟩
    obtain ⟨d, hread, hget⟩ :=
      Slot.members_text hslots hms Lead.fresh hfuel hknown rest
    have hsettle : r.finish d = .ok a := by
      refine hfinish d fun s hs => ?_
      obtain ⟨o, ho⟩ := hfound s hs
      rw [hget s hs o ho, hblank s hs, Option.or_none, ho]
    simp only [List.cons_append, List.append_assoc, List.nil_append]
    rw [List.nil_append] at hread
    rw [Record.read, dropGap_mark hg (by decide)]
    simp only [hfields, hread, Record.settle, hsettle, bind, Except.bind, pure, Except.pure]
  | _ => cases ha

/-! ## Whole texts -/

/-- A reader leaves the white space behind a document that is alone in its text. -/
theorem read_of_spelled {r : Reader α} {decode : Tree → Option α} (hr : ReadsAs r decode)
    {t : Tree} {a : α} (ha : decode t = some a) {text : List Char} (ht : t.Spelled text) :
    ∃ g, Gap g ∧ r text = .ok (a, g) := by
  obtain ⟨g, cs, g', hg, hcs, hg', rfl⟩ := ht
  have hclosed : Closed g' := by
    rw [← List.append_nil g']
    exact closed_append hg' (by simp [Closed])
  exact ⟨g', hg', hr t a ha cs hcs g g' hg hclosed⟩

theorem atEnd_of_gap (hg : Gap g) : Reader.atEnd g = .ok () := by
  simp [Reader.atEnd, dropGap_of_gap hg, pure, Except.pure]

theorem whole_of_reads {r : Reader α} {decode : Tree → Option α} (hr : ReadsAs r decode) {t : Tree}
    {a : α} (ha : decode t = some a) {text : List Char} (ht : t.Spelled text) :
    Reader.whole r text = .ok a := by
  obtain ⟨g, hg, hread⟩ := read_of_spelled hr ha ht
  simp [Reader.whole, hread, atEnd_of_gap hg, bind, Except.bind, pure, Except.pure]

end VisualRules.Json
