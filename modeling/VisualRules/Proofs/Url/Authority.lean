import Mathlib.Data.List.TakeDrop
import Mathlib.Tactic.IntervalCases
import VisualRules.Proofs.Bytes.Utf8
import VisualRules.Url.Basic

/-!
# The authority of a special URL

An authority ends at a slash, a question mark or a number sign, so what stands behind
it has no part in who is addressed. Blanks and controls in front of that end leave no
authority at all: they belong to the host or the port, which cannot hold them.
-/

namespace VisualRules.Url

variable {cs rest blanks : List Char} {scheme : String} {form : NameForm}

/-- No character ends an authority. -/
def Unended (kind : SchemeKind) (cs : List Char) : Prop :=
  ∀ c ∈ cs, endsAuthority kind c = false

/-- What may stand behind an authority: nothing, or a character that ends it. -/
def Ends (kind : SchemeKind) (cs : List Char) : Prop :=
  ∀ c ∈ cs.head?, endsAuthority kind c = true

/-- Blanks and controls. -/
def Blanks (cs : List Char) : Prop :=
  ∀ c ∈ cs, isEdge c = true

/-! ## Characters -/

theorem ne_of_isEdge {c d : Char} (hc : isEdge c = true) (hd : isEdge d = false) : c ≠ d := by
  rintro rfl
  simp [hc] at hd

theorem Blanks.unended (h : Blanks blanks) (kind : SchemeKind) : Unended kind blanks := by
  intro c hc
  have hne : ∀ d, isEdge d = false → c ≠ d := fun d => ne_of_isEdge (h c hc)
  simp [endsAuthority, isSlash, hne '/' (by decide), hne '\\' (by decide), hne '?' (by decide),
    hne '#' (by decide)]

theorem takeWhile_unended {kind : SchemeKind} (h : Unended kind cs) (behind : List Char) :
    (cs ++ behind).takeWhile (!endsAuthority kind ·) =
      cs ++ behind.takeWhile (!endsAuthority kind ·) :=
  List.takeWhile_append_of_pos fun c hc => by simp [h c hc]

theorem takeWhile_ends {kind : SchemeKind} (h : Ends kind rest) :
    rest.takeWhile (!endsAuthority kind ·) = [] := by
  cases rest with
  | nil => rfl
  | cons c rest =>
    have hc : endsAuthority kind c = true := h c (by simp)
    simp [hc]

/-! ## Credentials -/

/-- Credentials stand in front of the last at sign of the authority. -/
theorem splitCredentials_append {kind : SchemeKind} (h : Unended kind cs) {behind : List Char}
    (hat : '@' ∉ behind.takeWhile (!endsAuthority kind ·)) :
    splitCredentials kind (cs ++ behind) =
      ((splitCredentials kind cs).1, (splitCredentials kind cs).2 ++ behind) := by
  have harea : cs.takeWhile (!endsAuthority kind ·) = cs := by
    simpa using takeWhile_unended h []
  have hskip : ∀ xs : List Char, '@' ∉ xs → ∀ ys : List Char,
      (xs ++ ys).dropWhile (· ≠ '@') = ys.dropWhile (· ≠ '@') := by
    intro xs hxs ys
    refine List.dropWhile_append_of_pos fun c hc => ?_
    have hne : c ≠ '@' := by
      rintro rfl
      exact hxs hc
    simpa using hne
  unfold splitCredentials
  simp only [takeWhile_unended h, harea, List.reverse_append]
  rw [hskip _ (by simpa using hat)]
  cases hfront : cs.reverse.dropWhile (· ≠ '@') with
  | nil => rfl
  | cons c front =>
    have hlength : front.length + 1 ≤ cs.length := by
      have hle := (List.dropWhile_suffix (· ≠ '@') (l := cs.reverse)).length_le
      rw [hfront] at hle
      simpa using hle
    simp [List.drop_append_of_le_length hlength]

theorem splitCredentials_suffix (kind : SchemeKind) (cs : List Char) :
    (splitCredentials kind cs).2 <:+ cs := by
  unfold splitCredentials
  dsimp only
  split
  · exact List.suffix_refl cs
  · exact List.drop_suffix _ cs

/-- The credentials of an authority, whatever without an at sign stands behind it. -/
theorem splitCredentials_unended {kind : SchemeKind} (h : Unended kind cs) :
    ∃ front host, splitCredentials kind cs = (front, host) ∧ Unended kind host ∧
      ∀ behind, '@' ∉ behind.takeWhile (!endsAuthority kind ·) →
        splitCredentials kind (cs ++ behind) = (front, host ++ behind) :=
  ⟨_, _, rfl, fun c hc => h c ((splitCredentials_suffix kind cs).subset hc),
    fun _ hat => splitCredentials_append h hat⟩

/-! ## The host -/

theorem splitHost_append (kind : SchemeKind) (b : Bool) (cs behind : List Char) :
    (∃ c rest, splitHost kind b cs = ((splitHost kind b cs).1, c :: rest) ∧
        splitHost kind b (cs ++ behind) = ((splitHost kind b cs).1, c :: rest ++ behind)) ∨
      (splitHost kind b cs = (cs, []) ∧ ∃ b', splitHost kind b (cs ++ behind) =
        (cs ++ (splitHost kind b' behind).1, (splitHost kind b' behind).2)) := by
  induction cs generalizing b with
  | nil => exact .inr ⟨by rw [splitHost], b, rfl⟩
  | cons c cs ih =>
    by_cases hends : (endsAuthority kind c || (c = ':' && !b)) = true
    · left
      exact ⟨c, cs, by simp [splitHost, hends], by simp [splitHost, hends]⟩
    · simp only [List.cons_append, splitHost, hends]
      rcases ih (if c = '[' then true else if c = ']' then false else b) with
        ⟨d, rest, hcs, happend⟩ | ⟨hcs, b', happend⟩
      · exact .inl ⟨d, rest, by rw [hcs]; rfl, by rw [happend]; rfl⟩
      · exact .inr ⟨by rw [hcs]; rfl, b', by rw [happend]; rfl⟩

theorem splitHost_parts (kind : SchemeKind) (b : Bool) (cs : List Char) :
    (splitHost kind b cs).1 ++ (splitHost kind b cs).2 = cs ∧
      ∀ c ∈ (splitHost kind b cs).2.head?, endsAuthority kind c = true ∨ c = ':' := by
  induction cs generalizing b with
  | nil => simp [splitHost]
  | cons c cs ih =>
    by_cases hends : (endsAuthority kind c || (c = ':' && !b)) = true
    · have hc : endsAuthority kind c = true ∨ c = ':' := by
        rw [Bool.or_eq_true, Bool.and_eq_true, decide_eq_true_eq] at hends
        exact hends.imp_right And.left
      simpa [splitHost, hends] using hc
    · obtain ⟨hparts, hhead⟩ := ih (if c = '[' then true else if c = ']' then false else b)
      simp only [splitHost, hends]
      exact ⟨congrArg (c :: ·) hparts, hhead⟩

theorem splitHost_of_ends {kind : SchemeKind} (b : Bool) (h : Ends kind rest) :
    splitHost kind b rest = ([], rest) := by
  cases rest with
  | nil => rw [splitHost]
  | cons c rest =>
    have hc : endsAuthority kind c = true := h c (by simp)
    simp [splitHost, hc]

theorem splitHost_blanks {kind : SchemeKind} (b : Bool) (hblanks : Blanks blanks)
    (h : Ends kind rest) : splitHost kind b (blanks ++ rest) = (blanks, rest) := by
  induction blanks with
  | nil => exact splitHost_of_ends b h
  | cons c blanks ih =>
    obtain ⟨hc, hrest⟩ := List.forall_mem_cons.1 hblanks
    have hne : ∀ d, isEdge d = false → c ≠ d := fun d => ne_of_isEdge hc
    have hunended : endsAuthority kind c = false := hblanks.unended kind c (by simp)
    simp [splitHost, hunended, hne ':' (by decide), hne '[' (by decide), hne ']' (by decide),
      ih hrest]

/-- What may stand behind a host without an end: nothing, or the colon of a port. -/
def PortText (kind : SchemeKind) (cs : List Char) : Prop :=
  cs = [] ∨ ∃ digits, cs = ':' :: digits ∧ Unended kind digits

/-- The host and the port of an authority, whatever stands behind it. -/
theorem splitHost_unended {kind : SchemeKind} (h : Unended kind cs) (behind : List Char) :
    ∃ name port, PortText kind port ∧ splitHost kind false cs = (name, port) ∧
      ((port ≠ [] ∧ splitHost kind false (cs ++ behind) = (name, port ++ behind)) ∨
        (port = [] ∧ ∃ b, splitHost kind false (cs ++ behind) =
          (name ++ (splitHost kind b behind).1, (splitHost kind b behind).2))) := by
  rcases splitHost_append kind false cs behind with ⟨c, digits, hcs, happend⟩ | ⟨hcs, b, happend⟩
  · obtain ⟨hparts, hhead⟩ := splitHost_parts kind false cs
    rw [hcs] at hparts hhead
    have hmem : ∀ d ∈ c :: digits, endsAuthority kind d = false := by
      intro d hd
      refine h d ?_
      rw [← hparts]
      exact List.mem_append_right _ hd
    have hc : c = ':' := by
      rcases hhead c rfl with hc | hc
      · rw [hmem c (by simp)] at hc
        cases hc
      · exact hc
    exact ⟨_, _, .inr ⟨digits, by rw [hc], fun d hd => hmem d (by simp [hd])⟩, hcs,
      .inl ⟨by simp, happend⟩⟩
  · exact ⟨cs, [], .inl rfl, hcs, .inr ⟨rfl, b, happend⟩⟩

/-! ### A name holds no blank -/

theorem hexDigit?_of_isEdge {c : Char} (hc : isEdge c = true) : hexDigit? c = none := by
  have hle : c.toNat ≤ 0x20 := by simpa [isEdge] using hc
  rw [← Char.ofNat_toNat c]
  generalize c.toNat = n at hle
  interval_cases n <;> rfl

theorem byteOf?_of_isEdge {c : Char} (hc : isEdge c = true) (rest : List Char) :
    byteOf? (c :: rest) = none ∧ ∀ d, byteOf? (d :: c :: rest) = none := by
  constructor
  · cases rest <;> simp [byteOf?, hexDigit?_of_isEdge hc]
  · simp [byteOf?, hexDigit?_of_isEdge hc]

/-- A blank is in no escape, so that its byte is one of those that the text stands for. -/
theorem mem_decodeFrom {c : Char} (hc : isEdge c = true) (cs rest : List Char) {n : Nat}
    (hn : n ≤ cs.length) : UInt8.ofNat c.toNat ∈ decodeFrom n (cs ++ c :: rest) := by
  induction cs generalizing n with
  | nil =>
    have hle : c.toNat ≤ 0x20 := by simpa [isEdge] using hc
    have hpercent : c ≠ '%' := by
      rintro rfl
      exact absurd hc (by decide)
    obtain rfl : n = 0 := by simpa using hn
    simp [decodeFrom, hpercent, Bytes.ofText_singleton_of_lt (show c.toNat < 0x80 by omega)]
  | cons d cs ih =>
    cases n with
    | succ n => exact ih (by simpa using hn)
    | zero =>
      rw [List.cons_append, decodeFrom]
      split
      · rename_i b hb
        have hlength : 2 ≤ cs.length := by
          split at hb
          · -- An escape is two characters, and neither is the blank.
            rcases cs with _ | ⟨e, _ | ⟨f, cs⟩⟩
            · simp [(byteOf?_of_isEdge hc rest).1] at hb
            · simp [(byteOf?_of_isEdge hc rest).2] at hb
            · simp
          · cases hb
        exact List.mem_cons_of_mem _ (ih hlength)
      · exact List.mem_append_right _ (ih (Nat.zero_le _))

theorem formOf?_blanks (cs : List Char) (hne : blanks ≠ []) (hblanks : Blanks blanks) :
    form.formOf? (Bytes.toChars (decode (cs ++ blanks))) = none := by
  obtain ⟨c, blanks, rfl⟩ := List.exists_cons_of_ne_nil hne
  have hc : isEdge c = true := hblanks c (by simp)
  have hle : c.toNat ≤ 0x20 := by simpa [isEdge] using hc
  have hnat : (UInt8.ofNat c.toNat).toNat = c.toNat := by
    rw [UInt8.toNat_ofNat']
    omega
  have hascii : UInt8.ofNat c.toNat < 0x80 := by
    rw [UInt8.lt_iff_toNat_lt, hnat]
    exact Nat.lt_of_le_of_lt hle (by decide)
  have hmem := Bytes.mem_toChars hascii (mem_decodeFrom hc cs blanks (Nat.zero_le _))
  rw [hnat, Char.ofNat_toNat] at hmem
  exact form.formOf?_of_edge _ (List.any_eq_true.2 ⟨c, hmem, hc⟩)

theorem special_blanks (form : NameForm) (cs : List Char) (hne : blanks ≠ [])
    (hblanks : Blanks blanks) :
    ∃ fault, Host.special (cs ++ blanks) form = .error fault := by
  unfold Host.special
  split
  · rename_i rest hbracket
    -- The bracket is none of the blanks, and the last blank is no bracket.
    have hlast : rest.getLast? ≠ some ']' := by
      intro hlast
      have hwhole : (cs ++ blanks).getLast? = some ']' := by
        rw [hbracket, List.getLast?_cons, hlast]
        rfl
      rw [List.getLast?_append, List.getLast?_eq_some_getLast hne, Option.some_or] at hwhole
      have hmem := List.getLast_mem hne
      rw [Option.some_inj.1 hwhole] at hmem
      exact absurd (hblanks _ hmem) (by decide)
    refine ⟨.badIpv6, ?_⟩
    unfold Host.ofBrackets
    split
    · exact absurd (by assumption) hlast
    · rfl
  · exact ⟨.badDomain, by simp [formOf?_blanks cs hne hblanks]⟩

/-! ## The port -/

theorem not_mem_ends {c : Char} (h : endsAuthority .special c = false) :
    ['/', '\\', '?', '#'].contains c = false := by
  simp only [endsAuthority, isSlash] at h
  simp_all

theorem mem_ends {c : Char} (h : endsAuthority .special c = true) :
    ['/', '\\', '?', '#'].contains c = true ∧ c.isDigit = false := by
  have hc : c = '/' ∨ c = '\\' ∨ c = '?' ∨ c = '#' := by
    simp only [endsAuthority, isSlash] at h
    simp_all [or_assoc]
  rcases hc with rfl | rfl | rfl | rfl <;> decide

theorem takeWhile_append_of_head {p : Char → Bool} (cs : List Char)
    (h : ∀ c ∈ rest.head?, p c = false) : (cs ++ rest).takeWhile p = cs.takeWhile p := by
  induction cs with
  | nil => cases rest <;> simp_all
  | cons c cs ih => simp only [List.cons_append, List.takeWhile_cons, ih]

theorem dropWhile_append_of_head {p : Char → Bool} (cs : List Char)
    (h : ∀ c ∈ rest.head?, p c = false) : (cs ++ rest).dropWhile p = cs.dropWhile p ++ rest := by
  induction cs with
  | nil => cases rest <;> simp_all
  | cons c cs ih =>
    simp only [List.cons_append, List.dropWhile_cons, ih]
    split <;> rfl

theorem port?_append (hcs : Unended .special cs) (hrest : Ends .special rest) :
    port? (cs ++ rest) = (port? cs).map fun p => (p.1, rest) := by
  have hhead : ∀ c ∈ rest.head?, c.isDigit = false := fun c hc => (mem_ends (hrest c hc)).2
  unfold port?
  rw [takeWhile_append_of_head cs hhead, dropWhile_append_of_head cs hhead]
  dsimp only
  split
  · rfl
  · cases hbehind : cs.dropWhile Char.isDigit with
    | nil =>
      cases rest with
      | nil => rfl
      | cons c rest =>
        have hc := (mem_ends (hrest c rfl)).1
        simp only [List.nil_append, hc]
        rfl
    | cons c behind =>
      have hc : c ∈ cs := (List.dropWhile_suffix Char.isDigit).subset (by simp [hbehind])
      simp only [List.cons_append, not_mem_ends (hcs c hc)]
      rfl

theorem port?_blanks (hcs : Unended .special cs) (hne : blanks ≠ []) (hblanks : Blanks blanks)
    (rest : List Char) : port? (cs ++ (blanks ++ rest)) = .error .badPort := by
  obtain ⟨c, blanks, rfl⟩ := List.exists_cons_of_ne_nil hne
  have hc : isEdge c = true := hblanks c (by simp)
  have hunended := hblanks.unended .special c (by simp)
  have hdigit : c.isDigit = false := by
    have hnone := hexDigit?_of_isEdge hc
    by_contra hdigit
    rw [hexDigit?, if_pos (by simpa using hdigit)] at hnone
    cases hnone
  have hhead : ∀ d ∈ (c :: blanks ++ rest).head?, d.isDigit = false := by
    simpa using hdigit
  unfold port?
  rw [takeWhile_append_of_head cs hhead, dropWhile_append_of_head cs hhead]
  dsimp only
  split
  · rfl
  · cases hbehind : cs.dropWhile Char.isDigit with
    | nil => simp only [List.nil_append, List.cons_append, not_mem_ends hunended]; rfl
    | cons d behind =>
      have hd : d ∈ cs := (List.dropWhile_suffix Char.isDigit).subset (by simp [hbehind])
      simp only [List.cons_append, not_mem_ends (hcs d hd)]
      rfl

theorem portBehind_append {port : List Char} (hport : PortText .special port)
    (hrest : Ends .special rest) :
    portBehind scheme (port ++ rest) = (portBehind scheme port).map fun p => (p.1, rest) := by
  rcases hport with rfl | ⟨digits, rfl, hdigits⟩
  · cases rest with
    | nil => rfl
    | cons c rest =>
      have hc : c ≠ ':' := by
        rintro rfl
        exact absurd (hrest ':' rfl) (by decide)
      rw [List.nil_append]
      unfold portBehind
      split
      · simp_all
      · rfl
  · rw [List.cons_append, portBehind, portBehind, port?_append hdigits hrest]
    cases port? digits <;> rfl

/-! ## The authority -/

/-- A special URL needs a host. -/
theorem readAuthority_special (h : schemeKind scheme = .special) {front : Option (List Char)}
    {behind name : List Char} (hcredentials : splitCredentials .special cs = (front, behind))
    (hhost : splitHost .special false behind = (name, rest)) :
    readAuthority scheme cs form =
      if name.isEmpty then .error .emptyHost
      else do
        let host ← Host.special name form
        let (port, tail) ← portBehind scheme rest
        return (⟨(credentials (front.getD [])).1, (credentials (front.getD [])).2, some host, port⟩,
          tail) := by
  rw [readAuthority]
  simp only [h, hcredentials, hhost]
  by_cases hname : name.isEmpty = true
  · simp only [hname, decide_true, Bool.true_or, if_true]
    split <;> rfl
  · -- The host is not empty, so the authority does not end right behind its credentials.
    have hstart : (behind.head?.map (endsAuthority .special)).getD false = false := by
      cases behind with
      | nil => rfl
      | cons c behind =>
        by_contra hc
        have hc : endsAuthority .special c = true := by simpa using hc
        rw [splitHost, hc] at hhost
        cases hhost
        exact hname rfl
    simp only [hname, hstart, Bool.and_false]
    rfl

/-- The host of a special URL is read from a piece of its text. -/
theorem exists_special_of_readAuthority (h : schemeKind scheme = .special) {a : Authority}
    (ha : readAuthority scheme cs form = .ok (a, rest)) :
    ∃ name host, Host.special name form = .ok host ∧ a.host = some host := by
  obtain ⟨front, behind, hcredentials⟩ :
      ∃ front behind, splitCredentials .special cs = (front, behind) := ⟨_, _, rfl⟩
  obtain ⟨name, port, hname⟩ :
      ∃ name port, splitHost .special false behind = (name, port) := ⟨_, _, rfl⟩
  rw [readAuthority_special h hcredentials hname] at ha
  split at ha
  · cases ha
  · cases hhost : Host.special name form with
    | error fault =>
      rw [hhost] at ha
      cases ha
    | ok host =>
      cases hport : portBehind scheme port with
      | error fault =>
        rw [hhost, hport] at ha
        cases ha
      | ok p =>
        rw [hhost, hport] at ha
        cases ha
        exact ⟨name, host, hhost, rfl⟩

/-- What stands behind an authority is left as it is and changes nothing in front of it. -/
theorem readAuthority_append (h : schemeKind scheme = .special) (hcs : Unended .special cs)
    (hrest : Ends .special rest) :
    readAuthority scheme (cs ++ rest) form =
      (readAuthority scheme cs form).map fun p => (p.1, rest) := by
  obtain ⟨front, behind, hcredentials, hbehind, happend⟩ := splitCredentials_unended hcs
  have hcredentials' := happend rest (by simp [takeWhile_ends hrest])
  obtain ⟨name, port, hport, hhost, hbranch⟩ := splitHost_unended hbehind rest
  have hhost' : splitHost .special false (behind ++ rest) = (name, port ++ rest) := by
    rcases hbranch with ⟨-, happend⟩ | ⟨rfl, b, happend⟩
    · exact happend
    · rw [happend, splitHost_of_ends b hrest, List.append_nil, List.nil_append]
  rw [readAuthority_special h hcredentials' hhost', readAuthority_special h hcredentials hhost,
    portBehind_append hport hrest]
  split
  · rfl
  · cases Host.special name form with
    | error fault => rfl
    | ok host => cases portBehind scheme port <;> rfl

/-- Blanks at the end of an authority would be part of the host or of the port. -/
theorem readAuthority_blanks (h : schemeKind scheme = .special) (hcs : Unended .special cs)
    (hne : blanks ≠ []) (hblanks : Blanks blanks) (hrest : Ends .special rest) :
    ∃ fault, readAuthority scheme (cs ++ (blanks ++ rest)) form = .error fault := by
  obtain ⟨front, behind, -, hbehind, hcredentials⟩ := splitCredentials_unended hcs
  have hat : '@' ∉ (blanks ++ rest).takeWhile (!endsAuthority .special ·) := by
    rw [takeWhile_unended (hblanks.unended .special), takeWhile_ends hrest, List.append_nil]
    exact fun hmem => absurd (hblanks _ hmem) (by decide)
  have hcredentials := hcredentials (blanks ++ rest) hat
  obtain ⟨name, port, hport, -, hbranch⟩ := splitHost_unended hbehind (blanks ++ rest)
  rcases hbranch with ⟨hcolon, happend⟩ | ⟨rfl, b, happend⟩
  · -- The blanks stand behind the digits of a port.
    obtain rfl | ⟨digits, rfl, hdigits⟩ := hport
    · exact absurd rfl hcolon
    rw [readAuthority_special h hcredentials happend]
    split
    · exact ⟨_, rfl⟩
    · cases Host.special name form with
      | error fault => exact ⟨fault, rfl⟩
      | ok host =>
        refine ⟨.badPort, ?_⟩
        rw [List.cons_append, portBehind, port?_blanks hdigits hne hblanks rest]
        rfl
  · -- The blanks stand behind the host.
    rw [splitHost_blanks b hblanks hrest] at happend
    rw [readAuthority_special h hcredentials happend]
    obtain ⟨fault, hfault⟩ := special_blanks form name hne hblanks
    split
    · exact ⟨_, rfl⟩
    · exact ⟨fault, by rw [hfault]; rfl⟩

end VisualRules.Url
