import VisualRules.Proofs.Json.Form

/-!
# Layouts

The same record can be laid out in many ways: as an object, with its members in any order
and with others among them that mean nothing to it, or as a list of its values. A shape
says where in a form records are looked for, and with which fields. What may be changed
without a change of meaning, and what may not, goes by the shape alone.
-/

namespace VisualRules.Json

/-- The characters between the quotes of a key with a name. -/
def IsKey (name : String) (k : List Char) : Prop :=
  StringText name.toList k

/-- The characters that need no escape. -/
def isPlainChar (c : Char) : Bool :=
  !decide (c < ' ') && c != '"' && c != '\\'

/-- Characters that need no escape stand for themselves. -/
theorem stringText_self {k : List Char} (h : k.all isPlainChar = true) : StringText k k := by
  induction k with
  | nil => exact .nil
  | cons c k ih =>
    rw [List.all_cons, Bool.and_eq_true] at h
    obtain ⟨hc, hk⟩ := h
    simp only [isPlainChar, Bool.and_eq_true, Bool.not_eq_true', decide_eq_false_iff_not,
      bne_iff_ne] at hc
    exact .plain hc.1.1 hc.1.2 hc.2 (ih hk)

theorem isKey_self {name : String} (h : name.toList.all isPlainChar = true) :
    IsKey name name.toList :=
  stringText_self h

/-- Whether a field has to be there: a record without it fails, is a record all the same, or
is the same record as one with a given mark for its value. -/
inductive Need
  | required
  | optional
  | assumed (mark : List Char)

/-- Where records are looked for in a form, and the names of their fields in order. -/
inductive Shape
  | leaf
  | list (entries : Shape)
  | record (fields : List (String × Need × Shape))

/-- One change of the layout of a form, at any depth. -/
inductive Relaid : Shape → Form → Form → Prop
  | entry {s : Shape} {f f' : Form} (before after : List Form) (h : Relaid s f f') :
      Relaid (.list s) (.list (before ++ f :: after)) (.list (before ++ f' :: after))
  | value {fields : List (String × Need × Shape)} {name : String} {need : Need} {s : Shape}
      {k : List Char} {f f' : Form} (before after : List (List Char × Form))
      (hfield : (name, need, s) ∈ fields) (hk : IsKey name k) (h : Relaid s f f') :
      Relaid (.record fields) (.object (before ++ (k, f) :: after))
        (.object (before ++ (k, f') :: after))
  | position {fields : List (String × Need × Shape)} {name : String} {need : Need} {s : Shape}
      {f f' : Form} (before after : List Form)
      (hfield : fields[before.length]? = some (name, need, s)) (h : Relaid s f f') :
      Relaid (.record fields) (.list (before ++ f :: after)) (.list (before ++ f' :: after))
  /-- Members in another order. -/
  | reordered {fields : List (String × Need × Shape)} {ms ms' : List (List Char × Form)}
      (h : ms.Perm ms') : Relaid (.record fields) (.object ms) (.object ms')
  /-- A member more, with a key that names no field. -/
  | extended {fields : List (String × Need × Shape)} {key : String} {k : List Char} {f : Form}
      (before after : List (List Char × Form)) (hk : IsKey key k)
      (hfield : key ∉ fields.map Prod.fst) :
      Relaid (.record fields) (.object (before ++ after)) (.object (before ++ (k, f) :: after))
  /-- A member less, with a value that is assumed without it. -/
  | omitted {fields : List (String × Need × Shape)} {name : String} {m : List Char} {s : Shape}
      {k : List Char} (before after : List (List Char × Form))
      (hfield : (name, .assumed m, s) ∈ fields) (hk : IsKey name k)
      (halone : ∀ m' ∈ before ++ after, ¬ IsKey name m'.1) :
      Relaid (.record fields) (.object (before ++ (k, .mark m) :: after))
        (.object (before ++ after))
  /-- The same at the end of a list. -/
  | shortened {fields : List (String × Need × Shape)} {name : String} {m : List Char} {s : Shape}
      {fs : List Form} (hfield : fields[fs.length]? = some (name, .assumed m, s)) :
      Relaid (.record fields) (.list (fs ++ [.mark m])) (.list fs)
  /-- The values of all fields in a list instead of an object. -/
  | positional {fields : List (String × Need × Shape)} {ms : List (List Char × Form)}
      (h : List.Forall₂ (fun field m => IsKey field.1 m.1) fields ms) :
      Relaid (.record fields) (.object ms) (.list (ms.map Prod.snd))

/-- One change to a form, at any depth, that no record survives. -/
inductive Spoilt : Shape → Form → Form → Prop
  | entry {s : Shape} {f f' : Form} (before after : List Form) (h : Spoilt s f f') :
      Spoilt (.list s) (.list (before ++ f :: after)) (.list (before ++ f' :: after))
  | value {fields : List (String × Need × Shape)} {name : String} {need : Need} {s : Shape}
      {k : List Char} {f f' : Form} (before after : List (List Char × Form))
      (hfield : (name, need, s) ∈ fields) (hk : IsKey name k) (h : Spoilt s f f') :
      Spoilt (.record fields) (.object (before ++ (k, f) :: after))
        (.object (before ++ (k, f') :: after))
  | position {fields : List (String × Need × Shape)} {name : String} {need : Need} {s : Shape}
      {f f' : Form} (before after : List Form)
      (hfield : fields[before.length]? = some (name, need, s)) (h : Spoilt s f f') :
      Spoilt (.record fields) (.list (before ++ f :: after)) (.list (before ++ f' :: after))
  /-- A field once more, with any value. -/
  | repeated {fields : List (String × Need × Shape)} {name : String} {need : Need} {s : Shape}
      {k : List Char} {f : Form} (before after : List (List Char × Form))
      (hfield : (name, need, s) ∈ fields) (hk : IsKey name k)
      (hmem : ∃ m ∈ before ++ after, IsKey name m.1) :
      Spoilt (.record fields) (.object (before ++ after)) (.object (before ++ (k, f) :: after))
  /-- A field less that has to be there. -/
  | removed {fields : List (String × Need × Shape)} {name : String} {s : Shape} {k : List Char}
      {f : Form} (before after : List (List Char × Form))
      (hfield : (name, .required, s) ∈ fields) (hk : IsKey name k) :
      Spoilt (.record fields) (.object (before ++ (k, f) :: after)) (.object (before ++ after))

end VisualRules.Json
