import VisualRules.Proofs.Json.Filling

/-!
# Reading records in any layout

The reader of a record takes the forms that fill its cells and can be finished. So it
understands a shape when its cells do: each change of layout fills the cells with the same
values, and a field that is repeated or missing leaves no record.
-/

namespace VisualRules.Json

open Cell (Adds Collects Fills Separate)

variable {α δ : Type} {cs g rest : List Char}

/-! ## Reading an object -/

section Members

variable {cells : List (Cell δ)} {f : Form} {d d' : δ} {ms : List (List Char × Form)}

theorem Cell.field_read (c : Cell δ) (d : δ) : c.field.read d = c.item.map (c.set d) := rfl

/-- What is done with a member behind its key. -/
theorem member_form_iff (hcells : Separate cells) {key : String} {h h' rest' : List Char}
    (hh : Gap h) (hh' : Gap h') (hf : Renders (.form f) cs) (hrest : Closed rest) :
    Record.member (cells.map Cell.field) key d (h ++ ':' :: (h' ++ (cs ++ rest))) =
      .ok (d', rest') ↔ Adds cells key f d d' ∧ rest' = rest := by
  have hfind : (cells.map Cell.field).find? (·.name == key) =
      (cells.find? (·.name == key)).map Cell.field := by
    rw [List.find?_map]
    rfl
  have hcolon := Slot.colon_text hh (h' ++ (cs ++ rest))
  rcases Cell.known_or_unknown cells key with ⟨c, hc, rfl⟩ | hkey
  · rw [Cell.adds_known hcells hc, Record.member, hfind, hcells.find hc]
    simp only [Option.map_some]
    have hread : c.field.isRead d = (c.get d).isSome := rfl
    rw [hread]
    by_cases hfree : c.get d = none
    · rw [hfree, Option.isSome_none, if_neg (by simp), bind_eq_ok_iff]
      simp only [hcolon, Except.ok.injEq, exists_eq_left', Reader.within_eq_ok_iff,
        Cell.field_read, Reader.map_eq_ok_iff, c.understood.reads hf hh' hrest, true_and]
      constructor
      · intro hfound
        obtain ⟨x, ⟨hx, hrest'⟩, hset⟩ := hfound
        exact ⟨⟨x, hx, hset.symm⟩, hrest'⟩
      · intro hfound
        obtain ⟨⟨x, hx, hset⟩, hrest'⟩ := hfound
        exact ⟨x, ⟨hx, hrest'⟩, hset.symm⟩
    · rw [if_pos (Option.isSome_iff_ne_none.mpr hfree)]
      exact iff_of_false (by intro herror; cases herror) fun hadds => hfree hadds.1.1
  · have hnone : cells.find? (·.name == key) = none := by
      rw [List.find?_eq_none]
      intro c hc hname
      exact hkey (List.mem_map.mpr ⟨c, hc, by simpa using hname⟩)
    rw [Cell.adds_unknown hkey, Record.member, hfind, hnone]
    simp [hcolon, skipValue_form hf hh' hrest, Reader.lift, Except.mapError, bind, Except.bind,
      pure, Except.pure, eq_comm]

theorem members_form_iff (hcells : Separate cells) {fresh : Bool} {rest' : List Char}
    (hms : Renders (.members fresh ms) cs) {n : Nat} (hn : ms.length < n) :
    Record.members (cells.map Cell.field) n fresh d (cs ++ rest) = .ok (d', rest') ↔
      Collects cells ms d d' ∧ rest' = rest := by
  induction ms generalizing cs fresh d n with
  | nil =>
    obtain ⟨n, rfl⟩ := Nat.exists_eq_add_of_lt hn
    cases hms with
    | membersEnd hg =>
      rw [List.append_assoc, List.singleton_append, Slot.members_end _ _ _ _ hg]
      simp [Collects, eq_comm]
  | cons m ms ih =>
    obtain ⟨n, rfl⟩ := Nat.exists_eq_add_of_lt hn
    rw [Record.members_succ_iff, hms.members_end_iff]
    cases hms with
    | @member _ k f _ _ _ _ _ _ _ hlead hg hk hh hh' hf hms =>
      have hclosed := hms.closed_members rest
      have hfuel : ms.length < ((k, f) :: ms).length + n := by
        rw [List.length_cons]
        omega
      simp only [List.append_assoc, List.cons_append, Record.ReadsMember,
        Slot.nextKey_lead hlead hg, Except.ok.injEq, Option.some.injEq, exists_eq_left',
        scanString_quoted_iff hk]
      constructor
      · intro hread
        cases hread with
        | inl hend => exact absurd hend.1.1 (by simp)
        | inr hread =>
          obtain ⟨d₁, mid, ⟨key, mid', ⟨hkey, rfl⟩, hmember⟩, hlater⟩ := hread
          obtain ⟨hadds, rfl⟩ := (member_form_iff hcells hh hh' hf hclosed).mp hmember
          obtain ⟨hcollects, hrest'⟩ := (ih hms hfuel).mp hlater
          refine ⟨⟨_, d₁, ?_, hadds, hcollects⟩, hrest'⟩
          rw [IsKey, String.toList_ofList]
          exact hkey
      · intro hfound
        obtain ⟨⟨key, d₁, hkey, hadds, hcollects⟩, hrest'⟩ := hfound
        refine .inr ⟨d₁, _, ⟨key.toList, _, ⟨hkey, rfl⟩, ?_⟩,
          (ih hms hfuel).mpr ⟨hcollects, hrest'⟩⟩
        rw [String.ofList_toList]
        exact (member_form_iff hcells hh hh' hf hclosed).mpr ⟨hadds, rfl⟩

theorem exists_key {fresh : Bool} {mid : List Char}
    (h : Record.nextKey fresh cs = .ok (some mid)) :
    ∃ lead g, Lead fresh lead ∧ Gap g ∧ cs = lead ++ (g ++ '"' :: mid) := by
  cases fresh with
  | true =>
    obtain ⟨g, hg, hsplit⟩ := split_at_mark (Record.nextKey_fresh_iff.mp h)
    exact ⟨[], g, .fresh, hg, hsplit⟩
  | false =>
    obtain ⟨u, hcomma, hquote⟩ := Record.nextKey_later_iff.mp h
    obtain ⟨g, hg, rfl⟩ := split_at_mark hcomma
    obtain ⟨g', hg', rfl⟩ := split_at_mark hquote
    exact ⟨g ++ [','], g', .comma hg, hg', by simp⟩

theorem exists_member_value {key : String}
    (hread : Record.member (cells.map Cell.field) key d cs = .ok (d', rest)) :
    ∃ h h' f front, Gap h ∧ Gap h' ∧ Renders (.form f) front ∧
      cs = h ++ ':' :: (h' ++ (front ++ rest)) := by
  rw [Record.member] at hread
  cases hfind : (cells.map Cell.field).find? (·.name == key) with
  | some field =>
    obtain ⟨c, -, rfl⟩ := List.mem_map.mp (List.mem_of_find?_eq_some hfind)
    simp only [hfind] at hread
    split at hread
    · cases hread
    · obtain ⟨mid, hcolon, hvalue⟩ := bind_eq_ok_iff.mp hread
      rw [Reader.within_eq_ok_iff, Cell.field_read, Reader.map_eq_ok_iff] at hvalue
      obtain ⟨x, hx, -⟩ := hvalue
      obtain ⟨h, hh, rfl⟩ := split_at_mark (Record.colon_eq_ok_iff.mp hcolon)
      obtain ⟨f, h', front, hh', hf, rfl⟩ := c.understood.formed hx
      exact ⟨h, h', f, front, hh, hh', hf, rfl⟩
  | none =>
    simp only [hfind] at hread
    obtain ⟨mid, hcolon, hvalue⟩ := bind_eq_ok_iff.mp hread
    obtain ⟨rest', hskip, hrest⟩ := bind_eq_ok_iff.mp hvalue
    cases hrest
    obtain ⟨h, hh, rfl⟩ := split_at_mark (Record.colon_eq_ok_iff.mp hcolon)
    obtain ⟨f, h', front, hh', hf, rfl⟩ := exists_form (Reader.lift_eq_ok_iff.mp hskip)
    exact ⟨h, h', f, front, hh, hh', hf, rfl⟩

theorem exists_members_form {fresh : Bool} {n : Nat}
    (h : Record.members (cells.map Cell.field) n fresh d cs = .ok (d', rest)) :
    ∃ ms front, Renders (.members fresh ms) front ∧ cs = front ++ rest := by
  induction n generalizing fresh d cs with
  | zero => cases h
  | succ n ih =>
    cases Record.members_succ_iff.mp h with
    | inl hend =>
      obtain ⟨g, hg, rfl⟩ := split_at_mark hend.1
      exact ⟨[], _, .membersEnd hg, by simp⟩
    | inr hread =>
      obtain ⟨d₁, mid, ⟨start, hnext, key, mid', hscan, hmember⟩, hlater⟩ := hread
      obtain ⟨lead, g, hlead, hg, rfl⟩ := exists_key hnext
      obtain ⟨s, k, -, hk, rfl⟩ := exists_stringText hscan
      obtain ⟨h, h', f, front, hh, hh', hf, rfl⟩ := exists_member_value hmember
      obtain ⟨ms, front', hms, rfl⟩ := ih hlater
      exact ⟨(k, f) :: ms, _, .member hlead hg hk.quoted hh hh' hf hms, by simp⟩

theorem length_members {fresh : Bool} (h : Renders (.members fresh ms) cs) :
    ms.length < cs.length := by
  induction ms generalizing fresh cs with
  | nil =>
    cases h
    simp
  | cons m ms ih =>
    cases h with
    | member hlead hg hk hh hh' hf hms =>
      have hlength := ih hms
      simp only [List.length_append, List.length_cons]
      omega

end Members

/-! ## Reading a list of values -/

section Positions

variable {r : Record δ α} {d d' : δ} {rest' : List Char}

theorem readsPositions_cons_iff {i : Nat} {f : Field δ} {fields : List (Field δ)} :
    Record.ReadsPositions r i (f :: fields) d d' cs rest ↔
      (∃ d₁ mid, Reader.ReadsEntry (i = 0) (f.read d) d₁ cs mid ∧
        Record.ReadsPositions r (i + 1) fields d₁ d' mid rest) ∨
      Reader.nextEntry (i = 0) cs = .ok none ∧ f.mayEnd = true ∧
        Record.ReadsPositions r i fields d d' cs rest := by
  simp only [Record.ReadsPositions, Record.positions_cons_iff]
  constructor
  · intro hfound
    obtain ⟨last, hread, hclose⟩ := hfound
    rcases hread with ⟨d₁, mid, hentry, hlater⟩ | ⟨hend, hmay, hlater⟩
    · exact .inl ⟨d₁, mid, hentry, last, hlater, hclose⟩
    · exact .inr ⟨hend, hmay, last, hlater, hclose⟩
  · rintro (⟨d₁, mid, hentry, last, hlater, hclose⟩ | ⟨hend, hmay, last, hlater, hclose⟩)
    · exact ⟨last, .inl ⟨d₁, mid, hentry, hlater⟩, hclose⟩
    · exact ⟨last, .inr ⟨hend, hmay, hlater⟩, hclose⟩

theorem readsPositions_nil_iff {i : Nat} :
    Record.ReadsPositions r i [] d d' cs rest ↔ dropGap cs = ']' :: rest ∧ d' = d := by
  rw [Record.ReadsPositions]
  simp only [Record.positions, pure, Except.pure, Except.ok.injEq, Prod.mk.injEq,
    Reader.closeList_eq_ok_iff]
  constructor
  · intro hfound
    obtain ⟨mid, ⟨hd, hmid⟩, hclose⟩ := hfound
    rw [← hmid] at hclose
    exact ⟨hclose, hd.symm⟩
  · intro hfound
    obtain ⟨hclose, hd⟩ := hfound
    exact ⟨cs, ⟨hd.symm, rfl⟩, hclose⟩

theorem readsEntry_map_iff {β : Type} {item : Reader α} {φ : α → β} {fresh : Bool} {b : β}
    {mid : List Char} : Reader.ReadsEntry fresh (item.map φ) b cs mid ↔
      ∃ a, Reader.ReadsEntry fresh item a cs mid ∧ φ a = b := by
  simp only [Reader.ReadsEntry, Reader.map_eq_ok_iff]
  constructor
  · intro hfound
    obtain ⟨start, hnext, a, ha, hb⟩ := hfound
    exact ⟨a, ⟨start, hnext, ha⟩, hb⟩
  · intro hfound
    obtain ⟨a, ⟨start, hnext, ha⟩, hb⟩ := hfound
    exact ⟨start, hnext, a, ha, hb⟩

theorem positions_form_iff {cells : List (Cell δ)} {i : Nat} {fs : List Form}
    (hfs : Renders (.entries (i = 0) fs) cs) :
    Record.ReadsPositions r i (cells.map Cell.field) d d' (cs ++ rest) rest' ↔
      Fills cells fs d d' ∧ rest' = rest := by
  induction cells generalizing cs i fs d with
  | nil =>
    rw [List.map_nil, readsPositions_nil_iff, hfs.entries_end_iff]
    cases fs with
    | nil => simp [Fills, and_comm]
    | cons f fs => simp [Fills]
  | cons c cells ih =>
    rw [List.map_cons, readsPositions_cons_iff, Cell.field_read]
    simp only [readsEntry_map_iff]
    cases fs with
    | nil =>
      -- the list is at its end, and the cell is passed over if it may be
      have hend : Reader.nextEntry (i = 0) (cs ++ rest) = .ok none := by
        rw [Reader.nextEntry_none_iff]
        exact ⟨rest, hfs.entries_end_iff.mpr ⟨rfl, rfl⟩⟩
      have hmay : c.field.mayEnd = c.mayEnd := rfl
      simp only [Reader.ReadsEntry, hend, ih hfs, Except.ok.injEq, reduceCtorEq, false_and,
        exists_false, false_or, true_and, hmay, Fills, List.forall_mem_cons, and_assoc]
    | cons f fs =>
      -- the list goes on, and no cell is passed over before it ends
      have hopen : Reader.nextEntry (i = 0) (cs ++ rest) ≠ .ok none := by
        intro hnone
        obtain ⟨mid, hmark⟩ := Reader.nextEntry_none_iff.mp hnone
        exact absurd (hfs.entries_end_iff.mp hmark).1 (by simp)
      rw [or_iff_left fun hend => hopen hend.1]
      cases hfs with
      | entry hlead hg hf hfs =>
        have hclosed := hfs.closed_entries rest
        simp only [List.append_assoc, Fills,
          Reader.readsEntry_iff c.understood hlead hg hf hclosed]
        have hlater : ∀ d₁, Record.ReadsPositions r (i + 1) (cells.map Cell.field) d₁ d'
            (_ ++ rest) rest' ↔ Fills cells fs d₁ d' ∧ rest' = rest := fun d₁ => ih hfs
        constructor
        · intro hfound
          obtain ⟨d₁, mid, ⟨x, ⟨hx, hmid⟩, hset⟩, hread⟩ := hfound
          rw [hmid, ← hset, hlater] at hread
          exact ⟨⟨x, hx, hread.1⟩, hread.2⟩
        · intro hfound
          obtain ⟨⟨x, hx, hfills⟩, hrest'⟩ := hfound
          exact ⟨c.set d x, _, ⟨x, ⟨hx, rfl⟩, rfl⟩, (hlater _).mpr ⟨hfills, hrest'⟩⟩

theorem exists_positions_form {cells : List (Cell δ)} {i : Nat}
    (h : Record.ReadsPositions r i (cells.map Cell.field) d d' cs rest) :
    ∃ fs front, Renders (.entries (i = 0) fs) front ∧ cs = front ++ rest := by
  induction cells generalizing cs i d with
  | nil =>
    obtain ⟨g, hg, rfl⟩ := split_at_mark (readsPositions_nil_iff.mp h).1
    exact ⟨[], _, .entriesEnd hg, by simp⟩
  | cons c cells ih =>
    cases readsPositions_cons_iff.mp h with
    | inl hread =>
      obtain ⟨d₁, mid, hentry, hlater⟩ := hread
      obtain ⟨x, hentry, -⟩ := readsEntry_map_iff.mp hentry
      obtain ⟨lead, g, f, front, hlead, hg, hf, rfl⟩ :=
        Reader.exists_entry_form c.understood hentry
      obtain ⟨fs, front', hfs, rfl⟩ := ih hlater
      exact ⟨f :: fs, _, .entry hlead hg hf hfs, by simp⟩
    | inr hread => exact ih hread.2.2

end Positions

/-! ## Records -/

/-- A record that is read through cells. A draft that can be finished has the fields that
have to be there, and a value that is assumed is the same as none. -/
structure Described (r : Record δ α) (cells : List (Cell δ)) : Prop where
  fields : r.fields = cells.map Cell.field
  separate : Separate cells
  blank : ∀ c ∈ cells, c.get r.blank = none
  complete : ∀ {d a}, r.finish d = .ok a → ∀ c ∈ cells, c.need = .required → c.get d ≠ none
  assumed : ∀ c ∈ cells, ∀ m, c.need = .assumed m → c.mayEnd = true ∧
    ∃ x₀, (∀ x, c.holds (.mark m) x ↔ x = x₀) ∧
      ∀ d, c.get d = none → r.finish (c.set d x₀) = r.finish d

/-- The record that a form holds. -/
def Record.Holds (r : Record δ α) (cells : List (Cell δ)) : Form → α → Prop
  | .mark _, _ => False
  | .object ms, a => ∃ d, Collects cells ms r.blank d ∧ r.finish d = .ok a
  | .list fs, a => ∃ d, Fills cells fs r.blank d ∧ r.finish d = .ok a

namespace Described

variable {r : Record δ α} {cells : List (Cell δ)} {f f' : Form} {a : α}

theorem settle_eq_ok_iff {d : δ} : r.settle d = .ok a ↔ r.finish d = .ok a := by
  rw [Record.settle]
  cases r.finish d with
  | ok a' => simp
  | error name => simp [Reader.fail]

theorem reads (h : Described r cells) (hf : Renders (.form f) cs) (hg : Gap g) (a : α)
    (rest' : List Char) :
    r.read (g ++ (cs ++ rest)) = .ok (a, rest') ↔ r.Holds cells f a ∧ rest' = rest := by
  rw [Record.read_eq_ok_iff]
  cases hf with
  | mark hmark =>
    obtain ⟨c, cs', rfl, hgap, -, hlist, hobject⟩ := hmark.head
    rw [List.cons_append, dropGap_mark hg hgap]
    simp [hlist, hobject, Record.Holds]
  | @object ms inner hms =>
    have hfuel : ms.length < (inner ++ rest).length + 1 := by
      have hlength := length_members hms
      rw [List.length_append]
      omega
    rw [List.cons_append, dropGap_mark hg (by decide)]
    simp only [List.cons.injEq, true_and, exists_eq_left', Char.reduceEq, false_and,
      exists_false, or_false, h.fields, members_form_iff h.separate hms hfuel,
      settle_eq_ok_iff, Record.Holds]
    constructor
    · intro ⟨d, ⟨hd, hrest⟩, hfinish⟩
      exact ⟨⟨d, hd, hfinish⟩, hrest⟩
    · intro ⟨⟨d, hd, hfinish⟩, hrest⟩
      exact ⟨d, ⟨hd, hrest⟩, hfinish⟩
  | @list fs inner hfs =>
    have hread : ∀ d, Record.ReadsPositions r 0 r.fields r.blank d (inner ++ rest) rest' ↔
        Fills cells fs r.blank d ∧ rest' = rest := by
      intro d
      rw [h.fields]
      exact positions_form_iff hfs
    rw [List.cons_append, dropGap_mark hg (by decide)]
    simp only [List.cons.injEq, true_and, exists_eq_left', Char.reduceEq, false_and,
      exists_false, false_or, hread, settle_eq_ok_iff, Record.Holds]
    constructor
    · intro ⟨d, ⟨hd, hrest⟩, hfinish⟩
      exact ⟨⟨d, hd, hfinish⟩, hrest⟩
    · intro ⟨⟨d, hd, hfinish⟩, hrest⟩
      exact ⟨d, ⟨hd, hrest⟩, hfinish⟩

theorem formed (h : Described r cells) (hread : r.read cs = .ok (a, rest)) :
    ∃ f g front, Gap g ∧ Renders (.form f) front ∧ cs = g ++ (front ++ rest) := by
  cases Record.read_eq_ok_iff.mp hread with
  | inl hobject =>
    obtain ⟨mid, hmark, d, hmembers, -⟩ := hobject
    rw [h.fields] at hmembers
    obtain ⟨g, hg, rfl⟩ := split_at_mark hmark
    obtain ⟨ms, front, hms, rfl⟩ := exists_members_form hmembers
    exact ⟨_, g, _, hg, .object hms, rfl⟩
  | inr hpositions =>
    obtain ⟨mid, hmark, d, hlist, -⟩ := hpositions
    rw [h.fields] at hlist
    obtain ⟨g, hg, rfl⟩ := split_at_mark hmark
    obtain ⟨fs, front, hfs, rfl⟩ := exists_positions_form hlist
    exact ⟨_, g, _, hg, .list hfs, rfl⟩

/-! ### Other layouts -/

variable {name : String} {need : Need} {s : Shape} {k : List Char}
  {before after : List (List Char × Form)}

theorem exists_cell (hfield : (name, need, s) ∈ cells.map Cell.outline) :
    ∃ c ∈ cells, c.name = name ∧ c.need = need ∧ c.shape = s := by
  obtain ⟨c, hc, heq⟩ := List.mem_map.mp hfield
  simp only [Cell.outline, Prod.mk.injEq] at heq
  exact ⟨c, hc, heq⟩

/-- The cell at a place, with those in front of it and behind it. -/
theorem exists_split {i : Nat} (hfield : (cells.map Cell.outline)[i]? = some (name, need, s)) :
    ∃ front c back, cells = front ++ c :: back ∧ front.length = i ∧ c.need = need ∧
      c.shape = s := by
  rw [List.getElem?_map, Option.map_eq_some_iff] at hfield
  obtain ⟨c, hget, heq⟩ := hfield
  obtain ⟨hi, rfl⟩ := List.getElem?_eq_some_iff.mp hget
  simp only [Cell.outline, Prod.mk.injEq] at heq
  refine ⟨cells.take i, cells[i], cells.drop (i + 1), ?_, ?_, heq.2⟩
  · rw [List.getElem_cons_drop, List.take_append_drop]
  · rw [List.length_take]
    omega

theorem relaid_value (h : Described r cells) {c : Cell δ} (hc : c ∈ cells)
    (hk : IsKey c.name k) (hvalue : ∀ x, c.holds f x ↔ c.holds f' x) :
    r.Holds cells (.object (before ++ (k, f) :: after)) a ↔
      r.Holds cells (.object (before ++ (k, f') :: after)) a := by
  simp only [Record.Holds, Cell.collects_known h.separate hc hk, hvalue]

theorem fills_middle {front back : List (Cell δ)} {c : Cell δ} {fs fs' : List Form}
    (hlength : front.length = fs.length) {d d' : δ} :
    Fills (front ++ c :: back) (fs ++ f :: fs') d d' ↔
      ∃ d₁, Fills front fs d d₁ ∧ ∃ x, c.holds f x ∧ Fills back fs' (c.set d₁ x) d' :=
  Cell.fills_append hlength

theorem relaid_omitted (h : Described r cells) {c : Cell δ} (hc : c ∈ cells) {m : List Char}
    (hneed : c.need = .assumed m) (hk : IsKey c.name k)
    (halone : ∀ m' ∈ before ++ after, ¬ IsKey c.name m'.1) :
    r.Holds cells (.object (before ++ (k, .mark m) :: after)) a ↔
      r.Holds cells (.object (before ++ after)) a := by
  obtain ⟨-, x₀, hx₀, hfinish⟩ := h.assumed c hc m hneed
  simp only [Record.Holds, Cell.collects_known h.separate hc hk, hx₀]
  constructor
  · intro ⟨d, ⟨d₁, hms, hfree, x, hx, hset⟩, hd⟩
    rw [hset, hx, hfinish d₁ hfree] at hd
    exact ⟨d₁, hms, hd⟩
  · intro ⟨d, hms, hd⟩
    have hfree : c.get d = none := by
      rw [Cell.get_of_collects h.separate hms hc halone, h.blank c hc]
    exact ⟨c.set d x₀, ⟨d, hms, hfree, x₀, rfl, rfl⟩, by rw [hfinish d hfree, hd]⟩

theorem relaid_shortened (h : Described r cells) {m : List Char} {fs : List Form}
    (hfield : (cells.map Cell.outline)[fs.length]? = some (name, .assumed m, s)) :
    r.Holds cells (.list (fs ++ [.mark m])) a ↔ r.Holds cells (.list fs) a := by
  obtain ⟨front, c, back, hsplit, hlength, hneed, -⟩ := exists_split hfield
  have hc : c ∈ cells := by
    rw [hsplit]
    simp
  have hfront : ∀ c' ∈ front, c' ∈ cells ∧ c'.name ≠ c.name := by
    intro c' hc'
    have hnodup := h.separate.nodup
    rw [hsplit, List.map_append, List.nodup_append] at hnodup
    exact ⟨by rw [hsplit]; simp [hc'],
      hnodup.2.2 _ (List.mem_map.mpr ⟨c', hc', rfl⟩) _ (by simp)⟩
  obtain ⟨hmay, x₀, hx₀, hfinish⟩ := h.assumed c hc m hneed
  -- both lists fill the cells in front alike, and the ones behind may stay empty
  have hshort : ∀ d, Fills cells fs r.blank d ↔ ∃ d₁, Fills front fs r.blank d₁ ∧
      (∀ c' ∈ back, c'.mayEnd = true) ∧ d = d₁ := by
    intro d
    have happend : Fills (front ++ c :: back) (fs ++ []) r.blank d ↔ _ :=
      Cell.fills_append hlength
    rw [List.append_nil, ← hsplit] at happend
    simpa [Fills, hmay] using happend
  have hlong : ∀ d, Fills cells (fs ++ [.mark m]) r.blank d ↔ ∃ d₁, Fills front fs r.blank d₁ ∧
      (∀ c' ∈ back, c'.mayEnd = true) ∧ d = c.set d₁ x₀ := by
    intro d
    rw [hsplit, fills_middle hlength]
    simp [Fills, hx₀]
  simp only [Record.Holds, hshort, hlong]
  constructor
  · intro hfound
    obtain ⟨d, ⟨d₁, hfills, hback, hset⟩, hd⟩ := hfound
    have hfree : c.get d₁ = none := by
      rw [Cell.get_of_fills h.separate hfront hc hfills, h.blank c hc]
    rw [hset, hfinish d₁ hfree] at hd
    exact ⟨d₁, ⟨d₁, hfills, hback, rfl⟩, hd⟩
  · intro hfound
    obtain ⟨d, ⟨d₁, hfills, hback, hsame⟩, hd⟩ := hfound
    have hfree : c.get d₁ = none := by
      rw [Cell.get_of_fills h.separate hfront hc hfills, h.blank c hc]
    rw [hsame] at hd
    exact ⟨c.set d₁ x₀, ⟨d₁, hfills, hback, rfl⟩, by rw [hfinish d₁ hfree, hd]⟩

theorem relaid (h : Described r cells) (hrelaid : Relaid (.record (cells.map Cell.outline)) f f') :
    r.Holds cells f a ↔ r.Holds cells f' a := by
  cases hrelaid with
  | value before after hfield hk hvalue =>
    obtain ⟨c, hc, rfl, -, rfl⟩ := exists_cell hfield
    exact h.relaid_value hc hk (c.understood.relaid hvalue)
  | position before after hfield hvalue =>
    obtain ⟨front, c, back, hsplit, hlength, -, rfl⟩ := exists_split hfield
    simp only [Record.Holds, hsplit, fills_middle hlength, c.understood.relaid hvalue]
  | reordered hperm => simp only [Record.Holds, Cell.collects_perm_iff h.separate hperm]
  | @extended _ key _ _ before after hk hfield =>
    have hkey : key ∉ cells.map (·.name) := by
      rwa [List.map_map] at hfield
    simp only [Record.Holds, Cell.collects_unknown h.separate hk hkey]
  | omitted before after hfield hk halone =>
    obtain ⟨c, hc, rfl, hneed, -⟩ := exists_cell hfield
    exact h.relaid_omitted hc hneed hk halone
  | shortened hfield => exact h.relaid_shortened hfield
  | positional hkeys =>
    rw [List.forall₂_map_left_iff] at hkeys
    have htodo : ∀ c ∈ cells, c ∈ cells ∧ c.get r.blank = none := fun c hc => ⟨hc, h.blank c hc⟩
    simp only [Record.Holds,
      Cell.collects_iff_fills h.separate htodo h.separate.nodup hkeys]

theorem spoilt (h : Described r cells)
    (hspoilt : Spoilt (.record (cells.map Cell.outline)) f f') (hholds : r.Holds cells f a)
    (b : α) : ¬ r.Holds cells f' b := by
  intro hholds'
  cases hspoilt with
  | value before after hfield hk hvalue =>
    obtain ⟨c, hc, rfl, -, rfl⟩ := exists_cell hfield
    simp only [Record.Holds, Cell.collects_known h.separate hc hk] at hholds hholds'
    obtain ⟨d, ⟨-, -, -, x, hx, -⟩, -⟩ := hholds
    obtain ⟨d', ⟨-, -, -, y, hy, -⟩, -⟩ := hholds'
    exact c.understood.spoilt hvalue hx y hy
  | position before after hfield hvalue =>
    obtain ⟨front, c, back, hsplit, hlength, -, rfl⟩ := exists_split hfield
    simp only [Record.Holds, hsplit, fills_middle hlength] at hholds hholds'
    obtain ⟨d, ⟨-, -, x, hx, -⟩, -⟩ := hholds
    obtain ⟨d', ⟨-, -, y, hy, -⟩, -⟩ := hholds'
    exact c.understood.spoilt hvalue hx y hy
  | repeated before after hfield hk hmem =>
    obtain ⟨c, hc, rfl, -, -⟩ := exists_cell hfield
    obtain ⟨m, hm, hkey⟩ := hmem
    simp only [Record.Holds, Cell.collects_known h.separate hc hk] at hholds'
    obtain ⟨d, ⟨d₁, hms, hfree, -⟩, -⟩ := hholds'
    exact Cell.not_free_of_collects h.separate hms hc hm hkey hfree
  | removed before after hfield hk =>
    obtain ⟨c, hc, rfl, hneed, -⟩ := exists_cell hfield
    simp only [Record.Holds, Cell.collects_known h.separate hc hk] at hholds hholds'
    obtain ⟨-, ⟨d₁, hms, hfree, -⟩, -⟩ := hholds
    obtain ⟨d, hms', hd⟩ := hholds'
    -- its cell was free for the member, so none of the others fills it
    have halone : ∀ m ∈ before ++ after, ¬ IsKey c.name m.1 := by
      intro m hm hkey
      exact Cell.not_free_of_collects h.separate hms hc hm hkey hfree
    have hfree' : c.get d = none := by
      rw [Cell.get_of_collects h.separate hms' hc halone, h.blank c hc]
    exact h.complete hd c hc hneed hfree'

/-- The reader of a record understands the shape of its cells. -/
theorem understands (h : Described r cells) :
    Understands r.read (.record (cells.map Cell.outline)) (r.Holds cells) where
  reads hf _ _ hg _ := h.reads hf hg
  formed hread := h.formed hread
  relaid hrelaid _ := h.relaid hrelaid
  spoilt hspoilt _ := h.spoilt hspoilt

end Described

/-! ## Whole texts -/

namespace Understands

variable {r : Reader α} {s : Shape} {holds : Form → α → Prop} {f f' : Form} {a : α}
  {text : List Char}

theorem whole_iff (h : Understands r s holds) (hf : f.Rendered text) :
    Reader.whole r text = .ok a ↔ holds f a := by
  obtain ⟨g, cs, g', hg, hcs, hg', rfl⟩ := hf
  have hclosed : Closed g' := by
    have happend : Closed (g' ++ []) := closed_append hg' (by simp [Closed])
    rwa [List.append_nil] at happend
  rw [whole_eq_ok_iff]
  simp only [h.reads hcs hg hclosed]
  constructor
  · intro hfound
    obtain ⟨rest, ⟨ha, _⟩, _⟩ := hfound
    exact ha
  · intro ha
    exact ⟨g', ⟨ha, rfl⟩, dropGap_of_gap hg'⟩

theorem exists_rendered (h : Understands r s holds) (hread : Reader.whole r text = .ok a) :
    ∃ f : Form, f.Rendered text := by
  obtain ⟨rest, hread, hend⟩ := whole_eq_ok_iff.mp hread
  obtain ⟨f, g, front, hg, hf, rfl⟩ := h.formed hread
  obtain ⟨g', hg', hsplit⟩ := exists_gap rest
  rw [hend, List.append_nil] at hsplit
  exact ⟨f, g, front, rest, hg, hf, hsplit ▸ hg', rfl⟩

theorem relaid_many (h : Understands r s holds) (hrelaid : Relation.EqvGen (Relaid s) f f') :
    holds f a ↔ holds f' a := by
  induction hrelaid with
  | rel f f' hstep => exact h.relaid hstep a
  | refl => exact Iff.rfl
  | symm _ _ _ ih => exact ih.symm
  | trans _ _ _ _ _ ih ih' => exact ih.trans ih'

end Understands

end VisualRules.Json
