import VisualRules.Proofs.Json.Holding

/-!
# What a record holds

A record is filled from the members of an object, each into the cell of its key, or from
the entries of a list, each into the next cell. As the cells do not touch one another, the
members may come in any order, and a list of all values fills the record like an object
with all fields. The reader of a record understands its forms if the readers of its cells
do.
-/

namespace VisualRules.Json

variable {α δ : Type} {cs g rest : List Char}

/-- A field of a record with its place in the draft, and the forms of its values. -/
structure Cell (δ : Type) where
  {β : Type}
  name : String
  get : δ → Option β
  set : δ → β → δ
  item : Reader β
  mayEnd : Bool := false
  need : Need := .required
  shape : Shape
  holds : Form → β → Prop
  understood : Understands item shape holds

namespace Cell

/-- The cell of a field that has to be there. -/
def of {β : Type} {item : Reader β} {shape : Shape} {holds : Form → β → Prop} (name : String)
    (get : δ → Option β) (set : δ → β → δ) (understood : Understands item shape holds) :
    Cell δ :=
  { name, get, set, item, shape, holds, understood }

/-- The field that a cell is read by. -/
def field (c : Cell δ) : Field δ :=
  { Field.slot c.name c.get c.set c.item with mayEnd := c.mayEnd }

/-- What a shape says of the field. -/
def outline (c : Cell δ) : String × Need × Shape :=
  (c.name, c.need, c.shape)

/-- The cells of a draft do not touch one another. -/
structure Separate (cells : List (Cell δ)) : Prop where
  get_set : ∀ c ∈ cells, ∀ d x, c.get (c.set d x) = some x
  get_set_of_ne : ∀ c ∈ cells, ∀ c' ∈ cells, c.name ≠ c'.name →
    ∀ d x, c'.get (c.set d x) = c'.get d
  set_comm : ∀ c ∈ cells, ∀ c' ∈ cells, c.name ≠ c'.name →
    ∀ d x y, c'.set (c.set d x) y = c.set (c'.set d y) x
  nodup : (cells.map (·.name)).Nodup

/-- A member is put into the cell of its key, which must be free, and is dropped if there
is none. -/
def Adds (cells : List (Cell δ)) (key : String) (f : Form) (d d' : δ) : Prop :=
  match cells.find? (·.name == key) with
  | some c => c.get d = none ∧ ∃ x, c.holds f x ∧ d' = c.set d x
  | none => d' = d

/-- The members of an object are put into the cells of a draft. -/
def Collects (cells : List (Cell δ)) : List (List Char × Form) → δ → δ → Prop
  | [], d, d' => d' = d
  | (k, f) :: ms, d, d' => ∃ key d₁, IsKey key k ∧ Adds cells key f d d₁ ∧ Collects cells ms d₁ d'

/-- The entries of a list are put into cells in their order; some cells may get none. -/
def Fills : List (Cell δ) → List Form → δ → δ → Prop
  | cells, [], d, d' => (∀ c ∈ cells, c.mayEnd = true) ∧ d' = d
  | [], _ :: _, _, _ => False
  | c :: cells, f :: fs, d, d' => ∃ x, c.holds f x ∧ Fills cells fs (c.set d x) d'

variable {cells : List (Cell δ)} {c : Cell δ} {key : String} {f f' : Form} {d d₁ d' : δ}
  {ms ms' : List (List Char × Form)}

/-! ## One member -/

theorem Separate.eq_of_name (h : Separate cells) {c' : Cell δ} (hc : c ∈ cells)
    (hc' : c' ∈ cells) (hname : c.name = c'.name) : c = c' :=
  List.inj_on_of_nodup_map h.nodup hc hc' hname

theorem Separate.find (h : Separate cells) (hc : c ∈ cells) :
    cells.find? (·.name == c.name) = some c := by
  cases hfind : cells.find? (·.name == c.name) with
  | none =>
    have hne := List.find?_eq_none.mp hfind c hc
    simp at hne
  | some c' =>
    have hname : c'.name = c.name := by simpa using List.find?_some hfind
    rw [h.eq_of_name (List.mem_of_find?_eq_some hfind) hc hname]

theorem adds_known (h : Separate cells) (hc : c ∈ cells) :
    Adds cells c.name f d d' ↔ c.get d = none ∧ ∃ x, c.holds f x ∧ d' = c.set d x := by
  rw [Adds, h.find hc]

theorem adds_unknown (h : key ∉ cells.map (·.name)) : Adds cells key f d d' ↔ d' = d := by
  have hfind : cells.find? (·.name == key) = none := by
    rw [List.find?_eq_none]
    intro c hc hname
    exact h (List.mem_map.mpr ⟨c, hc, by simpa using hname⟩)
  rw [Adds, hfind]

theorem known_or_unknown (cells : List (Cell δ)) (key : String) :
    (∃ c ∈ cells, c.name = key) ∨ key ∉ cells.map (·.name) := by
  by_cases h : key ∈ cells.map (·.name)
  · exact .inl (List.mem_map.mp h)
  · exact .inr h

theorem get_of_adds (h : Separate cells) (hadds : Adds cells key f d d') (hc : c ∈ cells)
    (hne : key ≠ c.name) : c.get d' = c.get d := by
  rcases known_or_unknown cells key with ⟨c', hc', rfl⟩ | hkey
  · obtain ⟨-, x, -, rfl⟩ := (adds_known h hc').mp hadds
    exact h.get_set_of_ne c' hc' c hc hne d x
  · rw [(adds_unknown hkey).mp hadds]

/-- Two members may change places. -/
theorem adds_swap (h : Separate cells) {key' : String} (hfirst : Adds cells key f d d₁)
    (hsecond : Adds cells key' f' d₁ d') :
    ∃ d₂, Adds cells key' f' d d₂ ∧ Adds cells key f d₂ d' := by
  rcases known_or_unknown cells key with ⟨c, hc, rfl⟩ | hkey
  · rcases known_or_unknown cells key' with ⟨c', hc', rfl⟩ | hkey'
    · obtain ⟨hfree, x, hx, rfl⟩ := (adds_known h hc).mp hfirst
      obtain ⟨hfree', y, hy, rfl⟩ := (adds_known h hc').mp hsecond
      -- in one and the same cell the second value would not find it free
      have hne : c.name ≠ c'.name := by
        intro hname
        rw [← h.eq_of_name hc hc' hname, h.get_set c hc] at hfree'
        cases hfree'
      rw [h.get_set_of_ne c hc c' hc' hne] at hfree'
      refine ⟨c'.set d y, (adds_known h hc').mpr ⟨hfree', y, hy, rfl⟩,
        (adds_known h hc).mpr ⟨?_, x, hx, h.set_comm c hc c' hc' hne d x y⟩⟩
      rw [h.get_set_of_ne c' hc' c hc hne.symm]
      exact hfree
    · rw [(adds_unknown hkey').mp hsecond]
      exact ⟨d, (adds_unknown hkey').mpr rfl, hfirst⟩
  · rw [(adds_unknown hkey).mp hfirst] at hsecond
    exact ⟨d', hsecond, (adds_unknown hkey).mpr rfl⟩

/-! ## All members -/

theorem collects_append : Collects cells (ms ++ ms') d d' ↔
    ∃ d₁, Collects cells ms d d₁ ∧ Collects cells ms' d₁ d' := by
  induction ms generalizing d with
  | nil => simp [Collects]
  | cons m ms ih =>
    simp only [List.cons_append, Collects, ih]
    constructor
    · intro ⟨key, d₁, hk, hadds, d₂, hms, hms'⟩
      exact ⟨d₂, ⟨key, d₁, hk, hadds, hms⟩, hms'⟩
    · intro ⟨d₂, ⟨key, d₁, hk, hadds, hms⟩, hms'⟩
      exact ⟨key, d₁, hk, hadds, d₂, hms, hms'⟩

theorem collects_perm (h : Separate cells) (hperm : ms.Perm ms') :
    Collects cells ms d d' → Collects cells ms' d d' := by
  induction hperm generalizing d with
  | nil => exact id
  | cons m _ ih =>
    intro ⟨key, d₁, hk, hadds, hms⟩
    exact ⟨key, d₁, hk, hadds, ih hms⟩
  | swap m m' ms =>
    intro ⟨key, d₁, hk, hadds, key', d₂, hk', hadds', hms⟩
    obtain ⟨d₃, hfirst, hsecond⟩ := adds_swap h hadds hadds'
    exact ⟨key', d₃, hk', hfirst, key, d₂, hk, hsecond, hms⟩
  | trans _ _ ih ih' => exact ih' ∘ ih

theorem collects_perm_iff (h : Separate cells) (hperm : ms.Perm ms') :
    Collects cells ms d d' ↔ Collects cells ms' d d' :=
  ⟨collects_perm h hperm, collects_perm h hperm.symm⟩

/-- A member in the middle may as well come last, and needs a free cell. -/
theorem collects_known (h : Separate cells) (hc : c ∈ cells) {k : List Char}
    (hk : IsKey c.name k) {before after : List (List Char × Form)} :
    Collects cells (before ++ (k, f) :: after) d d' ↔
      ∃ d₁, Collects cells (before ++ after) d d₁ ∧ c.get d₁ = none ∧
        ∃ x, c.holds f x ∧ d' = c.set d₁ x := by
  have hperm : (before ++ (k, f) :: after).Perm ((before ++ after) ++ [(k, f)]) :=
    List.perm_middle.trans (List.perm_append_singleton _ _).symm
  rw [collects_perm_iff h hperm, collects_append]
  refine exists_congr fun d₁ => and_congr_right fun _ => ?_
  rw [← adds_known h hc]
  constructor
  · intro ⟨key, d₂, hkey, hadds, hend⟩
    rw [hkey.inj hk] at hadds
    rw [show d' = d₂ from hend]
    exact hadds
  · intro hadds
    exact ⟨c.name, d', hk, hadds, rfl⟩

theorem collects_unknown (h : Separate cells) {k : List Char} (hk : IsKey key k)
    (hkey : key ∉ cells.map (·.name)) {before after : List (List Char × Form)} :
    Collects cells (before ++ (k, f) :: after) d d' ↔ Collects cells (before ++ after) d d' := by
  rw [collects_perm_iff h List.perm_middle]
  constructor
  · intro ⟨key', d₁, hkey', hadds, hms⟩
    rw [hkey'.inj hk, adds_unknown hkey] at hadds
    rw [← hadds]
    exact hms
  · intro hms
    exact ⟨key, d, hk, (adds_unknown hkey).mpr rfl, hms⟩

/-- A cell whose key is among the members has a value. -/
theorem not_free_of_collects (h : Separate cells) (hms : Collects cells ms d d') (hc : c ∈ cells)
    {m : List Char × Form} (hm : m ∈ ms) (hk : IsKey c.name m.1) : c.get d' ≠ none := by
  obtain ⟨before, after, rfl⟩ := List.append_of_mem hm
  obtain ⟨d₁, -, -, x, -, rfl⟩ := (collects_known h hc hk).mp hms
  rw [h.get_set c hc]
  simp

theorem get_of_collects (h : Separate cells) (hms : Collects cells ms d d') (hc : c ∈ cells)
    (hnone : ∀ m ∈ ms, ¬ IsKey c.name m.1) : c.get d' = c.get d := by
  induction ms generalizing d with
  | nil => rw [show d' = d from hms]
  | cons m ms ih =>
    obtain ⟨key, d₁, hk, hadds, hrest⟩ := hms
    have hne : key ≠ c.name := by
      intro hname
      rw [hname] at hk
      exact hnone m (by simp) hk
    rw [ih hrest (fun m' hm' => hnone m' (by simp [hm'])), get_of_adds h hadds hc hne]

/-! ## Entries -/

theorem fills_append {front back : List (Cell δ)} {fs fs' : List Form}
    (hlength : front.length = fs.length) : Fills (front ++ back) (fs ++ fs') d d' ↔
      ∃ d₁, Fills front fs d d₁ ∧ Fills back fs' d₁ d' := by
  induction front generalizing fs d with
  | nil =>
    obtain rfl : fs = [] := List.length_eq_zero_iff.mp hlength.symm
    simp [Fills]
  | cons c front ih =>
    cases fs with
    | nil => cases hlength
    | cons f fs =>
      have hrest := Nat.succ.inj hlength
      simp only [List.cons_append, Fills, ih hrest]
      constructor
      · intro ⟨x, hx, d₁, hfront, hback⟩
        exact ⟨d₁, ⟨x, hx, hfront⟩, hback⟩
      · intro ⟨d₁, ⟨x, hx, hfront⟩, hback⟩
        exact ⟨x, hx, d₁, hfront, hback⟩

theorem get_of_fills (h : Separate cells) {front : List (Cell δ)} {fs : List Form}
    (hfront : ∀ c' ∈ front, c' ∈ cells ∧ c'.name ≠ c.name) (hc : c ∈ cells)
    (hfills : Fills front fs d d') : c.get d' = c.get d := by
  induction front generalizing fs d with
  | nil =>
    cases fs with
    | nil => rw [hfills.2]
    | cons f fs => exact absurd hfills id
  | cons c' front ih =>
    cases fs with
    | nil => rw [hfills.2]
    | cons f fs =>
      obtain ⟨x, -, hrest⟩ := hfills
      obtain ⟨hmem, hne⟩ := hfront c' (by simp)
      rw [ih (fun c'' hc'' => hfront c'' (by simp [hc''])) hrest,
        h.get_set_of_ne c' hmem c hc hne]

/-- The values of an object with the fields of the cells in their order fill them like a
list. -/
theorem collects_iff_fills (h : Separate cells) {todo : List (Cell δ)}
    (htodo : ∀ c ∈ todo, c ∈ cells ∧ c.get d = none) (hnodup : (todo.map (·.name)).Nodup)
    (hkeys : List.Forall₂ (fun (c : Cell δ) (m : List Char × Form) => IsKey c.name m.1) todo ms) :
    Collects cells ms d d' ↔ Fills todo (ms.map Prod.snd) d d' := by
  induction hkeys generalizing d with
  | nil => simp [Collects, Fills]
  | @cons c m todo ms hk _ ih =>
    obtain ⟨hc, hfree⟩ := htodo c (by simp)
    obtain ⟨hnew, hrest⟩ := List.nodup_cons.mp hnodup
    -- the cells still to do stay free when this one gets its value
    have hlater : ∀ x, ∀ c' ∈ todo, c' ∈ cells ∧ c'.get (c.set d x) = none := by
      intro x c' hc'
      obtain ⟨hmem, hfree'⟩ := htodo c' (by simp [hc'])
      have hne : c.name ≠ c'.name := by
        intro hname
        exact hnew (List.mem_map.mpr ⟨c', hc', hname.symm⟩)
      refine ⟨hmem, ?_⟩
      rw [h.get_set_of_ne c hc c' hmem hne, hfree']
    simp only [List.map_cons, Collects, Fills]
    constructor
    · intro ⟨key, d₁, hkey, hadds, hms⟩
      rw [hkey.inj hk, adds_known h hc] at hadds
      obtain ⟨-, x, hx, rfl⟩ := hadds
      exact ⟨x, hx, (ih (hlater x) hrest).mp hms⟩
    · intro ⟨x, hx, hfills⟩
      exact ⟨c.name, c.set d x, hk, (adds_known h hc).mpr ⟨hfree, x, hx, rfl⟩,
        (ih (hlater x) hrest).mpr hfills⟩

end Cell

end VisualRules.Json
