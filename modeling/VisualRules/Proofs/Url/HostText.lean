import VisualRules.Proofs.Bytes.RoundTrip
import VisualRules.Proofs.Url.Groups
import VisualRules.Proofs.Url.Parsing

/-!
# Texts of hosts in URLs

The host of a special URL is the text between its credentials and its port. What the
URL says besides its host does not depend on that text. A number of an address is
written in ASCII, so it is a host as it stands and its own name.
-/

namespace VisualRules.Url

variable {raw scheme : String} {front cs behind : List Char} {form : NameForm} {host : Host}

/-! ## Texts of hosts -/

/-- Characters of a host outside of brackets. -/
def isHostChar (c : Char) : Bool :=
  !endsAuthority .special c && !(['@', ':', '[', ']'].contains c)

/-- A text that is taken for a host as a whole: without colons or in brackets. -/
inductive HostText : List Char → Prop
  | plain {cs : List Char} (hne : cs ≠ []) (h : ∀ c ∈ cs, isHostChar c = true) : HostText cs
  | brackets {cs : List Char} (h : ∀ c ∈ cs, isHostChar c = true ∨ c = ':') :
      HostText ('[' :: cs ++ [']'])

/-- What may stand behind a host: nothing, the colon of a port, or the end of the
authority. -/
def EndsHost (behind : List Char) : Prop :=
  ∀ c ∈ behind.head?, endsAuthority .special c = true ∨ c = ':'

theorem splitHost_chars {inBrackets : Bool}
    (h : ∀ c ∈ cs, isHostChar c = true ∨ c = ':' ∧ inBrackets = true) (rest : List Char) :
    splitHost .special inBrackets (cs ++ rest) =
      (cs ++ (splitHost .special inBrackets rest).1, (splitHost .special inBrackets rest).2) := by
  induction cs with
  | nil => rfl
  | cons c cs ih =>
    have hcs := ih fun d hd => h d (by simp [hd])
    rcases h c (by simp) with hc | ⟨rfl, rfl⟩
    · simp only [isHostChar, Bool.and_eq_true, Bool.not_eq_true', List.contains_eq_mem,
        decide_eq_false_iff_not, List.mem_cons, not_or] at hc
      obtain ⟨hends, -, hcolon, hopen, hclose, -⟩ := hc
      simp [splitHost, hends, hcolon, hopen, hclose, hcs]
    · have hends : endsAuthority .special ':' = false := by decide
      simp [splitHost, hends, hcs]

theorem splitHost_endsHost (h : EndsHost behind) :
    splitHost .special false behind = ([], behind) := by
  cases behind with
  | nil => rw [splitHost]
  | cons c behind =>
    have hc : endsAuthority .special c = true ∨ c = ':' := h c rfl
    rcases hc with hc | rfl
    · simp [splitHost, hc]
    · simp [splitHost]

namespace HostText

theorem ne_nil (h : HostText cs) : cs ≠ [] := by
  cases h with
  | plain hne h => exact hne
  | brackets h => simp

theorem splitHost (h : HostText cs) (hbehind : EndsHost behind) :
    splitHost .special false (cs ++ behind) = (cs, behind) := by
  cases h with
  | plain hne h =>
    rw [splitHost_chars fun c hc => .inl (h c hc), splitHost_endsHost hbehind, List.append_nil]
  | @brackets cs h =>
    have hopen : endsAuthority .special '[' = false := by decide
    have hclose : endsAuthority .special ']' = false := by decide
    have hinner : Url.splitHost .special true (cs ++ (']' :: behind)) =
        (cs ++ [']'], behind) := by
      rw [splitHost_chars fun c hc => (h c hc).imp_right (⟨·, rfl⟩)]
      simp [Url.splitHost, hclose, splitHost_endsHost hbehind]
    simp [Url.splitHost, hopen, hinner]

theorem unended (h : HostText cs) : Unended .special cs := by
  have hchar : ∀ c, isHostChar c = true → endsAuthority .special c = false := by
    intro c hc
    simp only [isHostChar, Bool.and_eq_true, Bool.not_eq_true'] at hc
    exact hc.1
  cases h with
  | plain hne h => exact fun c hc => hchar c (h c hc)
  | @brackets cs h =>
    intro c hc
    simp only [List.cons_append, List.mem_cons, List.mem_append, List.not_mem_nil, or_false] at hc
    rcases hc with rfl | hc | rfl
    · decide
    · rcases h c hc with hc | rfl
      · exact hchar c hc
      · decide
    · decide

theorem at_not_mem (h : HostText cs) : '@' ∉ cs := by
  have hat : isHostChar '@' = false := by decide
  intro hmem
  cases h with
  | plain hne h => simp [h _ hmem] at hat
  | @brackets cs h =>
    simp only [List.cons_append, List.mem_cons, List.mem_append, List.not_mem_nil, or_false] at hmem
    rcases hmem with hmem | hmem | hmem
    · exact absurd hmem (by decide)
    · rcases h _ hmem with hc | hc
      · simp [hc] at hat
      · exact absurd hc (by decide)
    · exact absurd hmem (by decide)

end HostText

/-! ## A URL around a host -/

/-- A URL with a scheme that has a text in the place of its host. -/
structure Around (raw scheme : String) (front cs behind : List Char) : Prop where
  scheme : ∃ rest, scheme? (clean raw.toList) = some (scheme, rest) ∧
    rest.dropWhile (isSlash .special) = front ++ (cs ++ behind)
  credentials : front = [] ∨ ∃ user, front = user ++ ['@'] ∧ Unended .special user
  ends_host : EndsHost behind
  at_not_mem : '@' ∉ behind.takeWhile (!endsAuthority .special ·)

/-- The written credentials in front of a host. -/
def userOf (front : List Char) : String × String :=
  credentials ((splitCredentials .special front).1.getD [])

namespace Around

theorem splitCredentials (h : Around raw scheme front cs behind) (hcs : HostText cs) :
    splitCredentials .special (front ++ (cs ++ behind)) =
      ((splitCredentials .special front).1, cs ++ behind) := by
  have hat : '@' ∉ (cs ++ behind).takeWhile (!endsAuthority .special ·) := by
    rw [takeWhile_unended hcs.unended]
    simp [hcs.at_not_mem, h.at_not_mem]
  have hunended : Unended .special front ∧ (Url.splitCredentials .special front).2 = [] := by
    rcases h.credentials with rfl | ⟨user, rfl, huser⟩
    · exact ⟨by simp [Unended], rfl⟩
    · have hfront : Unended .special (user ++ ['@']) := by
        intro c hc
        rcases List.mem_append.1 hc with hc | hc
        · exact huser c hc
        · rw [List.mem_singleton.1 hc]
          decide
      have harea : (user ++ ['@']).takeWhile (!endsAuthority .special ·) = user ++ ['@'] := by
        simpa using takeWhile_unended hfront []
      refine ⟨hfront, ?_⟩
      simp [Url.splitCredentials, harea]
  rw [splitCredentials_append hunended.1 hat, hunended.2, List.nil_append]

/-- The host is read from its text, and nothing else is. -/
theorem parse (h : Around raw scheme front cs behind) (hkind : schemeKind scheme = .special)
    (hcs : HostText cs) (hhost : Host.special cs form = .ok host) :
    Url.parse raw form = (portBehind scheme behind).map fun p =>
      behindAuthority scheme ⟨(userOf front).1, (userOf front).2, some host, p.1⟩ p.2 := by
  obtain ⟨rest, hscheme, hrest⟩ := h.scheme
  rw [parse_special hscheme hkind, hrest,
    readAuthority_special hkind (h.splitCredentials hcs) (hcs.splitHost h.ends_host), hhost]
  simp only [List.isEmpty_iff, hcs.ne_nil, if_false]
  cases portBehind scheme behind <;> rfl

end Around

/-! ## Numbers as names -/

/-- A text without percent signs stands for itself. -/
theorem toChars_decode (h : '%' ∉ cs) : Bytes.toChars (decode cs) = cs := by
  have hbytes : decode cs = Bytes.ofText (String.ofList cs) := by
    rw [decode]
    induction cs with
    | nil => rfl
    | cons c cs ih =>
      have hc : c ≠ '%' := fun heq => h (by simp [heq])
      rw [decodeFrom, if_neg hc, ih fun hmem => h (by simp [hmem])]
      simp [Bytes.ofText]
  rw [hbytes, Bytes.toChars, Bytes.decode_ofText, String.toList_ofList, List.map_map]
  exact List.map_id'' (fun c => rfl) cs

namespace Ipv4

/-- Characters of the texts of addresses. -/
def numberChars : List Char :=
  "0123456789abcdefABCDEFxX.".toList

theorem forall_numberChars {P : Char → Prop} [DecidablePred P]
    (h : numberChars.all (fun c => decide (P c)) = true) : ∀ c ∈ numberChars, P c := by
  simpa using h

theorem mem_numberChars {c : Char} (h : (hexDigit? c).isSome) : c ∈ numberChars := by
  have hrange : 48 ≤ c.toNat ∧ c.toNat ≤ 102 := by
    unfold hexDigit? at h
    split at h
    · rename_i hdigit
      have hdigit : 48 ≤ c.toNat ∧ c.toNat ≤ 57 := by
        simpa [Char.isDigit, UInt32.le_iff_toNat_le] using hdigit
      omega
    · split at h
      · rename_i hlower
        have hlower : 97 ≤ c.toNat ∧ c.toNat ≤ 102 := by
          simpa [Char.le_def, UInt32.le_iff_toNat_le] using hlower
        omega
      · split at h
        · rename_i hupper
          have hupper : 65 ≤ c.toNat ∧ c.toNat ≤ 70 := by
            simpa [Char.le_def, UInt32.le_iff_toNat_le] using hupper
          omega
        · cases h
  rw [← Char.ofNat_toNat c] at h ⊢
  obtain ⟨hlow, hhigh⟩ := hrange
  generalize c.toNat = n at *
  interval_cases n <;> first | decide | exact absurd h (by decide)

variable {base n left : Nat} {x : Ipv4}

theorem NumberText.mem (h : NumberText cs n) : ∀ c ∈ cs, c ∈ numberChars := by
  intro c hc
  cases h with
  | decimal hne h => exact mem_numberChars (h.isSome c hc)
  | octal h =>
    rcases List.mem_cons.1 hc with rfl | hc
    · decide
    · exact mem_numberChars (h.isSome c hc)
  | hex hx h =>
    simp only [List.mem_cons] at hc
    rcases hc with rfl | rfl | hc
    · decide
    · rcases hx with rfl | rfl <;> decide
    · exact mem_numberChars (h.isSome c hc)

theorem PartsText.mem {ps : List (List Char)} (h : PartsText left ps n) :
    ∀ p ∈ ps, ∀ c ∈ p, c ∈ numberChars := by
  induction h with
  | last hp hn => simpa using hp.mem
  | more hp hn hps ih => exact List.forall_mem_cons.2 ⟨hp.mem, ih⟩

theorem mem_intercalate {ps : List (List Char)} (h : ∀ p ∈ ps, ∀ c ∈ p, c ∈ numberChars) :
    ∀ c ∈ ['.'].intercalate ps, c ∈ numberChars := by
  induction ps with
  | nil => simp
  | cons p ps ih =>
    obtain ⟨hp, hps⟩ := List.forall_mem_cons.1 h
    by_cases hnil : ps = []
    · simpa [hnil] using hp
    · intro c hc
      rw [List.intercalate_cons_of_ne_nil hnil, List.mem_append, List.mem_append] at hc
      rcases hc with (hc | hc) | hc
      · exact hp c hc
      · rw [List.mem_singleton.1 hc]
        decide
      · exact ih hps c hc

theorem DigitsIn.lower (h : DigitsIn base cs n) : DigitsIn base (cs.map Char.toLower) n := by
  induction h with
  | nil => exact .nil
  | @snoc cs n c d hcs hc hd ih =>
    have hlower : ∀ e ∈ numberChars, hexDigit? e.toLower = hexDigit? e :=
      forall_numberChars (by decide)
    rw [List.map_append]
    exact .snoc ih ((hlower c (mem_numberChars (by simp [hc]))).trans hc) hd

theorem NumberText.lower (h : NumberText cs n) : NumberText (cs.map Char.toLower) n := by
  cases h with
  | @decimal c cs n hc h =>
    have hzero : ∀ e ∈ numberChars, e ≠ '0' → e.toLower ≠ '0' :=
      forall_numberChars (by decide)
    exact .decimal (hzero c (mem_numberChars (h.isSome c (by simp))) hc) h.lower
  | octal h => exact .octal h.lower
  | hex hx h => exact .hex (.inl (by rcases hx with rfl | rfl <;> decide)) h.lower

theorem PartsText.lower {ps : List (List Char)} (h : PartsText left ps n) :
    PartsText left (ps.map (·.map Char.toLower)) n := by
  induction h with
  | last hp hn => exact .last hp.lower hn
  | more hp hn hps ih => exact .more hp.lower hn ih

theorem lower_intercalate (ps : List (List Char)) :
    (['.'].intercalate ps).map Char.toLower =
      ['.'].intercalate (ps.map (·.map Char.toLower)) := by
  induction ps with
  | nil => rfl
  | cons p ps ih =>
    by_cases hps : ps = []
    · simp [hps]
    · rw [List.map_cons, List.intercalate_cons_of_ne_nil hps,
        List.intercalate_cons_of_ne_nil (by simpa using hps), ← ih]
      simp

theorem Spells.lower (h : Spells cs x) : Spells (cs.map Char.toLower) x := by
  cases h with
  | plain hps =>
    rw [lower_intercalate]
    exact .plain hps.lower
  | rooted hps =>
    rw [List.map_append, lower_intercalate]
    exact .rooted hps.lower

theorem Spells.mem (h : Spells cs x) : ∀ c ∈ cs, c ∈ numberChars := by
  cases h with
  | plain hps => exact mem_intercalate hps.mem
  | rooted hps =>
    intro c hc
    rcases List.mem_append.1 hc with hc | hc
    · exact mem_intercalate hps.mem c hc
    · rw [List.mem_singleton.1 hc]
      decide

end Ipv4

/-! ### Names in ASCII -/

theorem mem_intercalate_of_mem {sep p : List Char} {c : Char} {ps : List (List Char)} (hp : p ∈ ps)
    (hc : c ∈ p) : c ∈ sep.intercalate ps := by
  induction ps with
  | nil => cases hp
  | cons q ps ih =>
    by_cases hps : ps = []
    · subst hps
      rw [List.mem_singleton] at hp
      simpa [hp] using hc
    · rw [List.intercalate_cons_of_ne_nil hps]
      rcases List.mem_cons.1 hp with rfl | hp
      · simp [hc]
      · exact List.mem_append_right _ (ih hp)

/-- A label without a hyphen is no encoded one. -/
theorem isLabel_of_not_mem {label : List Char} (h : '-' ∉ label) :
    NameForm.isLabel label = true := by
  unfold NameForm.isLabel
  split
  · simp at h
  · rfl

/-- Each text of an address is a name in ASCII. -/
theorem ascii_of_spells {x : Ipv4} (h : Ipv4.Spells cs x) :
    NameForm.ascii.formOf? cs = some (cs.map Char.toLower) := by
  have hallowed : ∀ c ∈ Ipv4.numberChars, NameForm.isForbidden c.toLower = false :=
    Ipv4.forall_numberChars (by decide)
  have hhyphen : ∀ c ∈ Ipv4.numberChars, c.toLower ≠ '-' :=
    Ipv4.forall_numberChars (by decide)
  have hforbidden : (cs.map Char.toLower).any NameForm.isForbidden = false := by
    rw [List.any_map, List.any_eq_false]
    intro c hc
    simp [hallowed c (h.mem c hc)]
  have hlabels : ((cs.map Char.toLower).splitOn '.').all NameForm.isLabel = true := by
    rw [List.all_eq_true]
    intro label hlabel
    apply isLabel_of_not_mem
    intro hmem
    have hmem : '-' ∈ ['.'].intercalate ((cs.map Char.toLower).splitOn '.') :=
      mem_intercalate_of_mem hlabel hmem
    rw [List.intercalate_splitOn] at hmem
    obtain ⟨c, hc, heq⟩ := List.mem_map.1 hmem
    exact hhyphen c (h.mem c hc) heq
  show NameForm.ascii? cs = _
  simp only [NameForm.ascii?, hforbidden, hlabels]
  rfl

theorem isHostChar_of_mem {c : Char} (h : c ∈ Ipv4.numberChars) : isHostChar c = true := by
  have hall : ∀ c ∈ Ipv4.numberChars, isHostChar c = true :=
    Ipv4.forall_numberChars (by decide)
  exact hall c h

theorem Ipv4.ne_nil_of_spells {x : Ipv4} (h : Ipv4.Spells cs x) : cs ≠ [] := by
  intro hnil
  have hnumber := endsInNumber_of_spells h
  rw [hnil] at hnumber
  cases hnumber

/-! ## Addresses in brackets -/

namespace Ipv6

variable {n : Nat} {ns : List Nat} {x : Ipv6}

theorem GroupText.mem (h : GroupText cs n) : ∀ c ∈ cs, c ∈ ':' :: Ipv4.numberChars :=
  fun c hc => List.mem_cons_of_mem _ (Ipv4.mem_numberChars (h.digits.isSome c hc))

theorem mem_of_text (x : Ipv4) : ∀ c ∈ x.text.toList, c ∈ Ipv4.numberChars := by
  have hoctet : ∀ b : UInt8, ∀ c ∈ Ipv4.octetText b, c ∈ Ipv4.numberChars := by
    intro b c hc
    have hdigit := List.all_eq_true.1 (Ipv4.octetText_facts b).2.2 c hc
    exact Ipv4.mem_numberChars (isSome_of_isDigit hdigit)
  rw [Ipv4.toList_text]
  apply Ipv4.mem_intercalate
  simpa using ⟨hoctet x.a, hoctet x.b, hoctet x.c, hoctet x.d⟩

theorem mem_colon {front back : List Char} (hfront : ∀ c ∈ front, c ∈ ':' :: Ipv4.numberChars)
    (hback : ∀ c ∈ back, c ∈ ':' :: Ipv4.numberChars) :
    ∀ c ∈ front ++ ':' :: back, c ∈ ':' :: Ipv4.numberChars := by
  intro c hc
  rcases List.mem_append.1 hc with hc | hc
  · exact hfront c hc
  · rcases List.mem_cons.1 hc with rfl | hc
    · exact List.mem_cons_self
    · exact hback c hc

theorem GroupsText.mem (h : GroupsText cs ns) : ∀ c ∈ cs, c ∈ ':' :: Ipv4.numberChars := by
  induction h with
  | last h => exact h.mem
  | dotted x => exact fun c hc => List.mem_cons_of_mem _ (mem_of_text x c hc)
  | more h hrest ih => exact mem_colon h.mem ih

theorem FrontText.mem (h : FrontText cs ns) : ∀ c ∈ cs, c ∈ ':' :: Ipv4.numberChars := by
  induction h with
  | nil => simp
  | more h hrest ih => exact mem_colon h.mem ih

theorem BackText.mem (h : BackText cs ns) : ∀ c ∈ cs, c ∈ ':' :: Ipv4.numberChars := by
  cases h with
  | nil => simp
  | groups h => exact h.mem

theorem Spells.mem (h : Spells cs x) : ∀ c ∈ cs, c ∈ ':' :: Ipv4.numberChars := by
  cases h with
  | full h => exact h.mem
  | gap hfront hne hback hk hx => exact mem_colon hfront.mem hback.mem
  | @leading back ns k _ hback hk hx =>
    show ∀ c ∈ [':'] ++ ':' :: back, c ∈ ':' :: Ipv4.numberChars
    exact mem_colon (by simp) hback.mem

theorem Spells.hostText (h : Spells cs x) : HostText ('[' :: cs ++ [']']) := by
  apply HostText.brackets
  intro c hc
  rcases List.mem_cons.1 (h.mem c hc) with hcolon | hmem
  · exact .inr hcolon
  · exact .inl (isHostChar_of_mem hmem)

theorem special_of_spells (h : Spells cs x) :
    Host.special ('[' :: cs ++ [']']) form = .ok (.ipv6 x) := by
  simp [Host.special, Host.ofBrackets, ofChars?_of_spells h]

end Ipv6

end VisualRules.Url
