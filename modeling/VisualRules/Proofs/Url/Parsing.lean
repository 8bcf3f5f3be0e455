import Mathlib.Data.List.DropRight
import VisualRules.Proofs.Url.Authority

/-!
# Special URLs

A URL with a special scheme is its scheme, its authority and what stands behind the
authority. Which part of a text is the authority is settled by the text up to the end
of the authority.
-/

namespace VisualRules.Url

variable {raw scheme : String} {cs rest : List Char} {form : NameForm}

/-! ## Blanks around a URL -/

/-- The blanks and controls at the end of a text, behind something else; line breaks and tabs
are left out. -/
def trailingBlanks (cs : List Char) : List Char :=
  ((cs.dropWhile isEdge).rtakeWhile isEdge).filter (!isBreak ·)

theorem trailingBlanks_blanks (cs : List Char) : Blanks (trailingBlanks cs) := by
  intro c hc
  exact List.mem_rtakeWhile_imp (List.mem_filter.1 hc).1

/-- Behind the blanks at the front stands what counts, and behind that the blanks at the end. -/
theorem filter_dropWhile_isEdge (cs : List Char) :
    (cs.dropWhile isEdge).filter (!isBreak ·) = clean cs ++ trailingBlanks cs := by
  rw [clean, trailingBlanks, ← List.filter_append]
  exact congrArg _ List.rdropWhile_append_rtakeWhile.symm

variable {behind : List Char}

theorem dropWhile_isEdge_append (hedge : ∀ c ∈ behind, isEdge c = false) (cs : List Char) :
    (cs ++ behind).dropWhile isEdge = cs.dropWhile isEdge ++ behind :=
  dropWhile_append_of_head cs fun c hc => hedge c (List.mem_of_mem_head? hc)

theorem trailingBlanks_append (hedge : ∀ c ∈ behind, isEdge c = false) (hne : behind ≠ [])
    (cs : List Char) : trailingBlanks (cs ++ behind) = [] := by
  have hlast : ((cs ++ behind).dropWhile isEdge).rtakeWhile isEdge = [] := by
    rw [dropWhile_isEdge_append hedge, List.rtakeWhile_eq_nil_iff]
    intro _
    rw [List.getLast_append_of_ne_nil _ hne, hedge _ (List.getLast_mem hne)]
    exact Bool.false_ne_true
  rw [trailingBlanks, hlast, List.filter_nil]

/-- What is put behind a text makes the blanks at its end count. -/
theorem clean_append (hedge : ∀ c ∈ behind, isEdge c = false) (hne : behind ≠ [])
    (cs : List Char) : clean (cs ++ behind) = clean cs ++ trailingBlanks cs ++ behind := by
  have hbehind : behind.filter (!isBreak ·) = behind := by
    refine List.filter_eq_self.2 fun c hc => ?_
    have hedge := hedge c hc
    have hne : ∀ d, isEdge d = true → c ≠ d := fun d hd heq => by simp [← heq, hedge] at hd
    simp [isBreak, hne '\t' (by decide), hne '\n' (by decide), hne '\r' (by decide)]
  calc clean (cs ++ behind)
      = clean (cs ++ behind) ++ trailingBlanks (cs ++ behind) := by
        rw [trailingBlanks_append hedge hne, List.append_nil]
    _ = ((cs ++ behind).dropWhile isEdge).filter (!isBreak ·) :=
        (filter_dropWhile_isEdge _).symm
    _ = (cs.dropWhile isEdge).filter (!isBreak ·) ++ behind := by
        rw [dropWhile_isEdge_append hedge, List.filter_append, hbehind]
    _ = clean cs ++ trailingBlanks cs ++ behind := by rw [filter_dropWhile_isEdge]

/-! ## The scheme -/

/-- A scheme stands in front of the first colon. -/
theorem scheme?_eq_some_iff : scheme? cs = some (scheme, rest) ↔
    ∃ front, cs = front ++ ':' :: rest ∧ (∀ c ∈ front, isSchemePart c = true) ∧
      (front.head?.map Char.isAlpha).getD false = true ∧
      scheme = String.ofList (front.map Char.toLower) := by
  have hcolon : isSchemePart ':' = false := by decide
  constructor
  · intro h
    unfold scheme? at h
    split at h
    · rename_i behind hbehind
      split at h
      · rename_i halpha
        cases h
        have hparts := List.takeWhile_append_dropWhile (p := isSchemePart) (l := cs)
        rw [hbehind] at hparts
        refine ⟨cs.takeWhile isSchemePart, hparts.symm, fun c hc => List.mem_takeWhile_imp hc, ?_,
          rfl⟩
        -- The first character is a letter, so it is not the colon but part of the scheme.
        cases cs with
        | nil => simp at halpha
        | cons c cs =>
          have hletter : c.isAlpha = true := by simpa using halpha
          have hpart : isSchemePart c = true := by
            simp [isSchemePart, Char.isAlphanum, hletter]
          simp [hpart, hletter]
      · cases h
    · cases h
  · rintro ⟨front, rfl, hfront, halpha, rfl⟩
    have hhead : (front ++ ':' :: rest).head? = front.head? := by
      cases front with
      | nil => simp at halpha
      | cons c front => rfl
    simp [scheme?, List.dropWhile_append_of_pos hfront, List.takeWhile_append_of_pos hfront, hcolon,
      hhead, halpha]

theorem scheme?_append (h : scheme? cs = some (scheme, rest)) (behind : List Char) :
    scheme? (cs ++ behind) = some (scheme, rest ++ behind) := by
  obtain ⟨front, rfl, hfront⟩ := scheme?_eq_some_iff.1 h
  exact scheme?_eq_some_iff.2 ⟨front, by simp, hfront⟩

/-- What holds no colon has no part in the scheme. -/
theorem exists_scheme?_of_append (hcolon : ':' ∉ behind)
    (h : scheme? (cs ++ behind) = some (scheme, rest)) :
    ∃ rest', scheme? cs = some (scheme, rest') ∧ rest = rest' ++ behind := by
  obtain ⟨front, happend, hfront⟩ := scheme?_eq_some_iff.1 h
  rcases List.append_eq_append_iff.1 happend with ⟨more, -, hbehind⟩ | ⟨more, hcs, hrest⟩
  · exact absurd (by simp [hbehind]) hcolon
  · cases more with
    | nil =>
      rw [List.nil_append] at hrest
      exact absurd (by simp [← hrest]) hcolon
    | cons c more =>
      obtain ⟨rfl, rfl⟩ := List.cons.inj hrest
      exact ⟨more, scheme?_eq_some_iff.2 ⟨front, hcs, hfront⟩, rfl⟩

/-! ## The authority and the rest -/

/-- A URL with an authority from what stands behind it. -/
def behindAuthority (scheme : String) (a : Authority) (cs : List Char) : Url where
  scheme := scheme
  authority := some a
  path := pathAfterAuthority (schemeKind scheme) (splitPath cs).1
  query := (queryAndFragment (schemeKind scheme) (splitPath cs).2).1
  fragment := (queryAndFragment (schemeKind scheme) (splitPath cs).2).2

theorem parse_special (hscheme : scheme? (clean raw.toList) = some (scheme, rest))
    (hkind : schemeKind scheme = .special) :
    Url.parse raw form =
      (readAuthority scheme (rest.dropWhile (isSlash .special)) form).map fun p =>
        behindAuthority scheme p.1 p.2 := by
  rw [Url.parse, hscheme]
  simp only [splitAuthority, hkind]
  cases readAuthority scheme (rest.dropWhile (isSlash .special)) form with
  | error fault => rfl
  | ok p => simp [behindAuthority, hkind, bind, Except.bind, pure, Except.pure, Except.map]

/-- What a special URL was read from. -/
theorem exists_of_parse {u : Url} (h : Url.parse raw form = .ok u)
    (hkind : schemeKind u.scheme = .special) :
    ∃ rest a tail, scheme? (clean raw.toList) = some (u.scheme, rest) ∧
      readAuthority u.scheme (rest.dropWhile (isSlash .special)) form = .ok (a, tail) ∧
      u = behindAuthority u.scheme a tail := by
  cases hscheme : scheme? (clean raw.toList) with
  | none =>
    rw [Url.parse, hscheme] at h
    cases h
  | some p =>
    obtain ⟨scheme, rest⟩ := p
    -- The scheme of the result is the one in front, so its kind is known.
    obtain rfl : u.scheme = scheme := by
      rw [Url.parse, hscheme] at h
      simp only [bind, Except.bind] at h
      split at h <;> cases h
      rfl
    rw [parse_special hscheme hkind] at h
    cases ha : readAuthority u.scheme (rest.dropWhile (isSlash .special)) form with
    | error fault =>
      rw [ha] at h
      cases h
    | ok p =>
      rw [ha] at h
      exact ⟨rest, p.1, p.2, rfl, ha, (Except.ok.inj h).symm⟩

/-! ### What stands behind the authority -/

theorem ends_dropWhile_append {kind : SchemeKind} (h : ¬ Unended kind cs ∨ Ends kind rest) :
    Ends kind (cs.dropWhile (!endsAuthority kind ·) ++ rest) := by
  cases hdrop : cs.dropWhile (!endsAuthority kind ·) with
  | nil =>
    have hunended : Unended kind cs := by simpa [Unended] using hdrop
    exact h.resolve_left (not_not_intro hunended)
  | cons c tail =>
    have hc := List.head?_dropWhile_not (!endsAuthority kind ·) cs
    simpa [Ends, hdrop] using hc

/-- What stands behind an authority may be replaced by anything that leaves the end of the
authority where it is. -/
theorem exists_readAuthority_append (h : schemeKind scheme = .special) {a : Authority}
    {tail : List Char} (hrest : ¬ Unended .special cs ∨ Ends .special rest)
    (hbehind : ¬ Unended .special cs ∨ Ends .special behind)
    (ha : readAuthority scheme (cs ++ rest) form = .ok (a, tail)) :
    ∃ tail', readAuthority scheme (cs ++ behind) form = .ok (a, tail') := by
  have hunended : Unended .special (cs.takeWhile (!endsAuthority .special ·)) := fun c hc => by
    simpa using List.mem_takeWhile_imp hc
  have hsplit : ∀ rest, cs ++ rest = cs.takeWhile (!endsAuthority .special ·) ++
      (cs.dropWhile (!endsAuthority .special ·) ++ rest) := fun rest => by
    rw [← List.append_assoc, List.takeWhile_append_dropWhile]
  rw [hsplit, readAuthority_append h hunended (ends_dropWhile_append hrest)] at ha
  rw [hsplit, readAuthority_append h hunended (ends_dropWhile_append hbehind)]
  cases hfront : readAuthority scheme (cs.takeWhile (!endsAuthority .special ·)) form with
  | error fault =>
    rw [hfront] at ha
    cases ha
  | ok p =>
    rw [hfront] at ha
    cases ha
    exact ⟨_, rfl⟩

end VisualRules.Url
