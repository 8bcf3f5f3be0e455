import VisualRules.Proofs.Json.Reading

/-!
# Refused documents

A literal of zero with a minus is a rounded number for the reader, so no integer
is read from it. A record is refused if the value of one of its fields is, wherever
the member stands.
-/

namespace VisualRules.Json

variable {α δ : Type} {cs rest : List Char}

/-- No text of a document is read. -/
def Refuses (r : Reader α) (t : Tree) : Prop :=
  ∀ cs, Spells (.document t) cs → ∀ g rest, Gap g → Closed rest →
    ∃ e, r (g ++ (cs ++ rest)) = .error e

/-! ## Zero with a minus -/

theorem value_of_isMinusZero {x : Numeral} (hx : x.IsInteger) (hzero : x.IsMinusZero) :
    x.value = roundedNumber true 0 0 := by
  obtain ⟨hnegative, hinteger⟩ := hzero
  have hdigits : digitsValue x.whole = 0 := by simpa [Numeral.integer, hnegative] using hinteger
  have htake : takeDigits 0 x.whole = (digitsValue x.whole, []) :=
    takeDigits_eq (by rw [← digitsValue, hdigits]; decide)
  simp [Numeral.value, htake, hx.1, hx.2, hnegative, hdigits]

theorem roundedNumber_ne_integer (negative : Bool) (significand : Nat) (power n : Int) :
    roundedNumber negative significand power ≠ .ok (.integer n) := by
  unfold roundedNumber
  split <;> simp

theorem refuses_int64 {x : Numeral} (hx : x.IsInteger) (hzero : x.IsMinusZero) :
    Refuses Reader.int64 (.number x) := by
  intro cs hcs g rest hg hrest
  cases hcs with
  | number hspelled =>
    rw [int64_text hspelled hg hrest]
    cases hvalue : x.value with
    | error f => exact ⟨_, rfl⟩
    | ok number =>
      cases number with
      | integer n =>
        rw [value_of_isMinusZero hx hzero] at hvalue
        exact absurd hvalue (roundedNumber_ne_integer true 0 0 n)
      | decimal d => exact ⟨_, rfl⟩

/-! ## Records -/

namespace Slot

variable {slots : List (Slot δ)}

/-- The slot of a member refuses its value. -/
def Hits (slots : List (Slot δ)) (m : String × Tree) : Prop :=
  ∃ s ∈ slots, s.name = m.1 ∧ Refuses s.item m.2

/-- The slot of a member reads its value or refuses it. -/
def Settles (slots : List (Slot δ)) (m : String × Tree) : Prop :=
  ∀ s ∈ slots, s.name = m.1 → (∃ x, s.decode m.2 = some x) ∨ Refuses s.item m.2

/-- Only a member that is not refused leaves the text behind it. -/
theorem member_outcome (hslots : Independent slots) {key : String} {t : Tree} {h h' : List Char}
    (hh : Gap h) (hh' : Gap h') (ht : Spells (.document t) cs) (hrest : Closed rest) (d : δ)
    (hsettles : Settles slots (key, t)) :
    (∃ e, Record.member (slots.map field) key d (h ++ ':' :: (h' ++ (cs ++ rest))) = .error e) ∨
      ¬ Hits slots (key, t) ∧
        ∃ d', Record.member (slots.map field) key d (h ++ ':' :: (h' ++ (cs ++ rest))) =
          .ok (d', rest) := by
  cases hslot : slots.find? (·.name == key) with
  | none =>
    right
    have hne : ∀ s ∈ slots, s.name ≠ key := by simpa using List.find?_eq_none.1 hslot
    obtain ⟨d', hread, -⟩ := member_text hslots hh hh' ht hrest fun s hs hname =>
      absurd hname (hne s hs)
    exact ⟨fun ⟨s, hs, hname, _⟩ => hne s hs hname, d', hread⟩
  | some s =>
    have hs := List.mem_of_find?_eq_some hslot
    have hname : s.name = key := by simpa using List.find?_some hslot
    have honly : ∀ s' ∈ slots, s'.name = key → s' = s := fun s' hs' hname' =>
      List.inj_on_of_nodup_map hslots.nodup hs' hs (hname'.trans hname.symm)
    cases hfree : s.get d with
    | some x => exact .inl ⟨_, by rw [member_known hslot hh, hfree]; rfl⟩
    | none =>
      by_cases hrefuses : Refuses s.item t
      · obtain ⟨e, he⟩ := hrefuses cs ht h' rest hh' hrest
        exact .inl ⟨_, by rw [member_known hslot hh, hfree, Reader.map, he]; rfl⟩
      · right
        have hdecodes := (hsettles s hs hname).resolve_right hrefuses
        obtain ⟨d', hread, -⟩ := member_text hslots hh hh' ht hrest fun s' hs' hname' => by
          rw [honly s' hs' hname']
          exact ⟨hfree, hdecodes⟩
        refine ⟨?_, d', hread⟩
        rintro ⟨s', hs', hname', hrefuses'⟩
        rw [honly s' hs' hname'] at hrefuses'
        exact hrefuses hrefuses'

theorem members_refused (hslots : Independent slots) {ms : List (String × Tree)}
    (hms : Spells (.members ms) cs) {fresh : Bool} {lead : List Char} (hlead : Lead fresh lead)
    (hsettles : ∀ m ∈ ms, Settles slots m) (hhits : ∃ m ∈ ms, Hits slots m) (n : Nat) (d : δ)
    (rest : List Char) :
    ∃ e, Record.members (slots.map field) n fresh d (lead ++ (cs ++ '}' :: rest)) = .error e := by
  induction ms generalizing cs fresh lead n d with
  | nil => cases hms
  | cons m ms ih =>
    obtain ⟨key, t⟩ := m
    cases n with
    | zero => exact ⟨_, rfl⟩
    | succ n =>
      have hfirst := hsettles (key, t) (by simp)
      cases hms with
      | lastMember hg hk hh hh' ht hg' =>
        simp only [List.append_assoc, List.cons_append]
        rw [members_key _ hlead hg hk]
        rcases member_outcome hslots hh hh' ht (closed_append hg' (closed_brace rest)) d hfirst with
          ⟨e, he⟩ | ⟨hmiss, -⟩
        · exact ⟨e, by rw [he]; rfl⟩
        · obtain ⟨m, hm, hhits⟩ := hhits
          obtain rfl : m = (key, t) := by simpa using hm
          exact absurd hhits hmiss
      | member hg hk hh hh' ht hg' hms =>
        simp only [List.append_assoc, List.cons_append]
        rw [members_key _ hlead hg hk]
        rcases member_outcome hslots hh hh' ht (closed_append hg' (closed_comma _)) d hfirst with
          ⟨e, he⟩ | ⟨hmiss, d', hd'⟩
        · exact ⟨e, by rw [he]; rfl⟩
        · obtain ⟨m, hm, hhits⟩ := hhits
          have hlater : m ∈ ms := by
            rcases List.mem_cons.1 hm with rfl | hm
            · exact absurd hhits hmiss
            · exact hm
          obtain ⟨e, he⟩ := ih hms (Lead.comma hg')
            (fun m hm => hsettles m (by simp [hm])) ⟨m, hlater, hhits⟩ n d'
          refine ⟨e, ?_⟩
          rw [hd']
          simpa [Except.bind] using he

end Slot

/-- A record with a refused field is refused, if its other fields are read. -/
theorem refuses_record {r : Record δ α} (slots : List (Slot δ))
    (hfields : r.fields = slots.map Slot.field) (hslots : Slot.Independent slots)
    {ms : List (String × Tree)} (hsettles : ∀ m ∈ ms, Slot.Settles slots m)
    (hhits : ∃ m ∈ ms, Slot.Hits slots m) : Refuses r.read (.object ms) := by
  intro cs hcs g rest hg hrest
  cases hcs with
  | emptyObject hg' => simp at hhits
  | @object ms inner hms =>
    obtain ⟨e, he⟩ := Slot.members_refused hslots hms Lead.fresh hsettles hhits
      ((inner ++ '}' :: rest).length + 1) r.blank rest
    refine ⟨e, ?_⟩
    simp only [List.cons_append, List.append_assoc, List.nil_append] at he ⊢
    rw [Record.read, dropGap_mark hg (by decide)]
    simp only [hfields, he, bind, Except.bind]

theorem whole_of_refuses {r : Reader α} {t : Tree} (hr : Refuses r t) {text : List Char}
    (ht : t.Spelled text) : ∃ e, Reader.whole r text = .error e := by
  obtain ⟨g, cs, g', hg, hcs, hg', rfl⟩ := ht
  have hclosed : Closed g' := by
    rw [← List.append_nil g']
    exact closed_append hg' (by simp [Closed])
  obtain ⟨e, he⟩ := hr cs hcs g g' hg hclosed
  exact ⟨e, by simp [Reader.whole, he, bind, Except.bind]⟩

end VisualRules.Json
