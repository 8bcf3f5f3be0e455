import VisualRules.Proofs.Upload.DataUri

/-!
# References to uploads

A file is classified and named in its reference by one and the same part of its content
type: what stands in front of the parameters, without the white space around it and
without regard to case. The bytes behind it are those of the file.
-/

namespace VisualRules

/-! ## Cutting and lower case -/

namespace Text

variable {p : Char → Bool} {cs : List Char} {c : Char}

theorem trimBy_surrounded {front back : List Char} (hfront : ∀ c ∈ front, p c = true)
    (hback : ∀ c ∈ back, p c = true) : trimBy p (front ++ cs ++ back) = trimBy p cs := by
  have hreverse : ∀ c ∈ back.reverse, p c = true := by
    intro c hc
    exact hback c (List.mem_reverse.mp hc)
  rw [trimBy, trimBy, List.append_assoc, List.dropWhile_append_of_pos hfront,
    List.dropWhile_append]
  by_cases hblank : (cs.dropWhile p).isEmpty = true
  · rw [if_pos hblank, List.isEmpty_iff.mp hblank, List.dropWhile_eq_nil_iff.mpr hback]
  · rw [if_neg hblank, List.reverse_append, List.dropWhile_append_of_pos hreverse]

/-- What is cut off, and what is left. -/
theorem exists_trimBy (p : Char → Bool) (cs : List Char) :
    ∃ front back : List Char, (∀ c ∈ front, p c = true) ∧ (∀ c ∈ back, p c = true) ∧
      cs = front ++ trimBy p cs ++ back := by
  refine ⟨cs.takeWhile p, ((cs.dropWhile p).reverse.takeWhile p).reverse, ?_, ?_, ?_⟩
  · intro c hc
    exact List.mem_takeWhile_imp hc
  · intro c hc
    exact List.mem_takeWhile_imp (List.mem_reverse.mp hc)
  · rw [trimBy, List.append_assoc, ← List.reverse_append, List.takeWhile_append_dropWhile,
      List.reverse_reverse, List.takeWhile_append_dropWhile]

/-- Neither end of a text satisfies `p`. -/
def Bare (p : Char → Bool) (cs : List Char) : Prop :=
  (∀ c ∈ cs.head?, p c = false) ∧ ∀ c ∈ cs.getLast?, p c = false

theorem dropWhile_of_head (h : ∀ c ∈ cs.head?, p c = false) : cs.dropWhile p = cs := by
  cases cs with
  | nil => rfl
  | cons c cs =>
    have hc : p c = false := h c rfl
    rw [List.dropWhile_cons_of_neg (by rw [hc]; decide)]

theorem Bare.trimBy (h : Bare p cs) : trimBy p cs = cs := by
  have hlast : ∀ c ∈ cs.reverse.head?, p c = false := by
    intro c hc
    rw [List.head?_reverse] at hc
    exact h.2 c hc
  rw [Text.trimBy, dropWhile_of_head h.1, dropWhile_of_head hlast, List.reverse_reverse]

theorem head_dropWhile (hc : c ∈ (cs.dropWhile p).head?) : p c = false := by
  have hhead := List.head?_dropWhile_not p cs
  rw [Option.mem_def] at hc
  rw [hc] at hhead
  exact hhead

theorem bare_trimBy (p : Char → Bool) (cs : List Char) : Bare p (Text.trimBy p cs) := by
  constructor
  · intro c hc
    -- the front of what is left is the front of what the first cut leaves
    obtain ⟨blank, hblank⟩ := List.dropWhile_suffix (l := (cs.dropWhile p).reverse) p
    have hfront : cs.dropWhile p = Text.trimBy p cs ++ blank.reverse := by
      rw [Text.trimBy, ← List.reverse_append, hblank, List.reverse_reverse]
    have hdrop : c ∈ (cs.dropWhile p).head? := by
      rw [hfront, List.head?_append, hc, Option.some_or]
      rfl
    exact head_dropWhile hdrop
  · intro c hc
    rw [Text.trimBy, List.getLast?_reverse] at hc
    exact head_dropWhile hc

theorem not_inRanges_letter {n : Nat} (hlow : 65 ≤ n) (hhigh : n ≤ 122) :
    inRanges blankRanges n = false := by
  have hletters : ∀ n ≤ 122, 65 ≤ n → inRanges blankRanges n = false := by decide
  exact hletters n hhigh hlow

theorem isBlankChar_toLower (c : Char) : isBlankChar c.toLower = isBlankChar c := by
  unfold Char.toLower
  split
  · rename_i hupper
    have hlow : 65 ≤ c.val.toNat := hupper.1
    have hhigh : c.val.toNat ≤ 90 := hupper.2
    have hsum : (c.val + ('a'.val - 'A'.val)).toNat = (c.val.toNat + 32) % 2 ^ 32 :=
      UInt32.toNat_add ..
    have hupperBlank : isBlankChar c = false :=
      not_inRanges_letter hlow (le_trans hhigh (by decide))
    rw [hupperBlank]
    apply not_inRanges_letter
    · show 65 ≤ (c.val + ('a'.val - 'A'.val)).toNat
      omega
    · show (c.val + ('a'.val - 'A'.val)).toNat ≤ 122
      omega
  · rfl

theorem toList_lowerAscii (s : String) : (lowerAscii s).toList = s.toList.map Char.toLower := by
  rw [lowerAscii, String.toList_ofList]

theorem mem_map_toLower {d : Char} (hd : d.isLower = false) :
    d ∈ cs.map Char.toLower → d ∈ cs := by
  intro hmem
  obtain ⟨c, hc, hlower⟩ := List.mem_map.mp hmem
  rw [← eq_of_toLower hd hlower]
  exact hc

theorem Bare.lower (h : Bare isBlankChar cs) : Bare isBlankChar (cs.map Char.toLower) := by
  constructor
  · intro d hd
    rw [List.head?_map] at hd
    obtain ⟨c, hc, rfl⟩ := Option.map_eq_some_iff.mp hd
    rw [isBlankChar_toLower]
    exact h.1 c hc
  · intro d hd
    rw [List.getLast?_map] at hd
    obtain ⟨c, hc, rfl⟩ := Option.map_eq_some_iff.mp hd
    rw [isBlankChar_toLower]
    exact h.2 c hc

end Text

/-! ## The essence -/

namespace ContentType

/-- The end of a content type: nothing, or parameters behind a semicolon. -/
def Parameters (cs : List Char) : Prop :=
  cs = [] ∨ cs.head? = some ';'

/-- A content type has white space, its essence, white space and its parameters, one behind the
other. The essence has no semicolon in it, and no white space at its ends. -/
structure HasEssence (contentType : String) (e : List Char) : Prop where
  written : ∃ front back parameters : List Char,
    contentType.toList = front ++ e ++ back ++ parameters ∧
      (∀ c ∈ front, Text.isBlankChar c = true) ∧ (∀ c ∈ back, Text.isBlankChar c = true) ∧
      Parameters parameters
  noSemicolon : ';' ∉ e
  bare : Text.Bare Text.isBlankChar e

/-- Other ways to write a content type. -/
inductive Respells : String → String → Prop
  /-- Letters in another case. -/
  | case {s t : String} : Text.sameAscii s t = true → Respells s t
  /-- More parameters. -/
  | parameters (s p : String) : Respells s (s ++ ";" ++ p)
  /-- Other white space around what is in front of the parameters. -/
  | blanks {type parameters front back front' back' : List Char} :
      ';' ∉ type → Parameters parameters →
      (∀ c ∈ front, Text.isBlankChar c = true) → (∀ c ∈ back, Text.isBlankChar c = true) →
      (∀ c ∈ front', Text.isBlankChar c = true) → (∀ c ∈ back', Text.isBlankChar c = true) →
      Respells (String.ofList (front ++ type ++ back ++ parameters))
        (String.ofList (front' ++ type ++ back' ++ parameters))
  | symm {s t : String} : Respells s t → Respells t s
  | trans {s t u : String} : Respells s t → Respells t u → Respells s u

variable {contentType s t : String} {e : List Char}

theorem not_semicolon_of_blank {blank : List Char}
    (h : ∀ c ∈ blank, Text.isBlankChar c = true) : ';' ∉ blank := by
  intro hmem
  have hsemicolon := h ';' hmem
  revert hsemicolon
  decide

/-- The essence is what is in front of the parameters without the white space around it. -/
theorem essence_of_written {type parameters : List Char} (htype : ';' ∉ type)
    (hparameters : Parameters parameters) (h : contentType.toList = type ++ parameters) :
    (essence contentType).toList = Text.trimBy Text.isBlankChar type := by
  have hfront : ∀ c ∈ type, decide (c ≠ ';') = true := by
    intro c hc
    rw [decide_eq_true_iff]
    intro heq
    rw [heq] at hc
    exact htype hc
  have hparams : parameters.takeWhile (· ≠ ';') = [] := by
    cases hparameters with
    | inl hnil => rw [hnil]; rfl
    | inr hhead =>
      obtain ⟨rest, hrest⟩ := List.head?_eq_some_iff.mp hhead
      rw [hrest]
      rfl
  rw [essence, Text.trim, String.toList_ofList, String.toList_ofList, h,
    List.takeWhile_append_of_pos hfront, hparams, List.append_nil]

theorem HasEssence.eq (h : HasEssence contentType e) : (essence contentType).toList = e := by
  obtain ⟨front, back, parameters, htext, hfront, hback, hparameters⟩ := h.written
  have htype : ';' ∉ front ++ e ++ back := by
    simp only [List.mem_append, not_or]
    exact ⟨⟨not_semicolon_of_blank hfront, h.noSemicolon⟩, not_semicolon_of_blank hback⟩
  rw [essence_of_written htype hparameters htext, Text.trimBy_surrounded hfront hback,
    h.bare.trimBy]

theorem hasEssence_essence (contentType : String) :
    HasEssence contentType (essence contentType).toList := by
  have hcut : contentType.toList.takeWhile (· ≠ ';') ++ contentType.toList.dropWhile (· ≠ ';') =
      contentType.toList := List.takeWhile_append_dropWhile
  have htype : ';' ∉ contentType.toList.takeWhile (· ≠ ';') := by
    intro hmem
    have hne := List.mem_takeWhile_imp hmem
    simp at hne
  have hparameters : Parameters (contentType.toList.dropWhile (· ≠ ';')) := by
    cases hhead : (contentType.toList.dropWhile (· ≠ ';')).head? with
    | none => exact .inl (List.head?_eq_none_iff.mp hhead)
    | some c =>
      have hc : decide (c ≠ ';') = false := Text.head_dropWhile hhead
      right
      rw [hhead]
      simpa using hc
  rw [essence_of_written htype hparameters hcut.symm]
  obtain ⟨front, back, hfront, hback, hsplit⟩ :=
    Text.exists_trimBy Text.isBlankChar (contentType.toList.takeWhile (· ≠ ';'))
  refine ⟨⟨front, back, _, ?_, hfront, hback, hparameters⟩, ?_, Text.bare_trimBy _ _⟩
  · rw [← hsplit]
    exact hcut.symm
  · intro hmem
    exact htype (Text.mem_trimBy hmem)

/-! ## Other spellings -/

theorem HasEssence.lower (h : HasEssence contentType e) :
    HasEssence (Text.lowerAscii contentType) (e.map Char.toLower) := by
  obtain ⟨front, back, parameters, htext, hfront, hback, hparameters⟩ := h.written
  have hblank : ∀ blank : List Char, (∀ c ∈ blank, Text.isBlankChar c = true) →
      ∀ c ∈ blank.map Char.toLower, Text.isBlankChar c = true := by
    intro blank hblank d hd
    obtain ⟨c, hc, rfl⟩ := List.mem_map.mp hd
    rw [Text.isBlankChar_toLower]
    exact hblank c hc
  refine ⟨⟨front.map Char.toLower, back.map Char.toLower, parameters.map Char.toLower, ?_,
    hblank front hfront, hblank back hback, ?_⟩, ?_, h.bare.lower⟩
  · rw [Text.toList_lowerAscii, htext]
    simp only [List.map_append]
  · cases hparameters with
    | inl hnil => exact .inl (by rw [hnil]; rfl)
    | inr hhead => exact .inr (by rw [List.head?_map, hhead]; rfl)
  · intro hmem
    exact h.noSemicolon (Text.mem_map_toLower (by decide) hmem)

theorem lowerAscii_essence (contentType : String) :
    Text.lowerAscii (essence contentType) = essence (Text.lowerAscii contentType) := by
  apply String.toList_injective
  rw [Text.toList_lowerAscii]
  exact (hasEssence_essence contentType).lower.eq.symm

theorem HasEssence.parameters (h : HasEssence s e) (p : String) :
    HasEssence (s ++ ";" ++ p) e := by
  obtain ⟨front, back, parameters, htext, hfront, hback, hparameters⟩ := h.written
  refine ⟨⟨front, back, parameters ++ ';' :: p.toList, ?_, hfront, hback, ?_⟩, h.noSemicolon,
    h.bare⟩
  · rw [String.toList_append, String.toList_append, htext]
    simp
  · right
    cases hparameters with
    | inl hnil => rw [hnil]; rfl
    | inr hhead => rw [List.head?_append, hhead]; rfl

theorem essence_of_blanks {type parameters front back : List Char} (htype : ';' ∉ type)
    (hparameters : Parameters parameters) (hfront : ∀ c ∈ front, Text.isBlankChar c = true)
    (hback : ∀ c ∈ back, Text.isBlankChar c = true) :
    (essence (String.ofList (front ++ type ++ back ++ parameters))).toList =
      Text.trimBy Text.isBlankChar type := by
  have hnone : ';' ∉ front ++ type ++ back := by
    simp only [List.mem_append, not_or]
    exact ⟨⟨not_semicolon_of_blank hfront, htype⟩, not_semicolon_of_blank hback⟩
  rw [essence_of_written hnone hparameters (String.toList_ofList ..),
    Text.trimBy_surrounded hfront hback]

theorem Respells.essence (h : Respells s t) :
    Text.lowerAscii (ContentType.essence s) = Text.lowerAscii (ContentType.essence t) := by
  induction h with
  | case hsame =>
    rw [lowerAscii_essence, lowerAscii_essence, eq_of_beq hsame]
  | parameters s p =>
    have heq : ContentType.essence (s ++ ";" ++ p) = ContentType.essence s :=
      String.toList_injective ((hasEssence_essence s).parameters p).eq
    rw [heq]
  | blanks htype hparameters hfront hback hfront' hback' =>
    have heq := (essence_of_blanks htype hparameters hfront hback).trans
      (essence_of_blanks htype hparameters hfront' hback').symm
    rw [String.toList_injective heq]
  | symm _ ih => exact ih.symm
  | trans _ _ ihfirst ihsecond => exact ihfirst.trans ihsecond

/-! ## Classification -/

theorem splits_at_slash {top rest : List Char} (htop : '/' ∉ top) :
    (top ++ '/' :: rest).takeWhile (· ≠ '/') = top ∧
      (top ++ '/' :: rest).dropWhile (· ≠ '/') = '/' :: rest := by
  have hfront : ∀ c ∈ top, decide (c ≠ '/') = true := by
    intro c hc
    rw [decide_eq_true_iff]
    intro heq
    rw [heq] at hc
    exact htop hc
  constructor
  · rw [List.takeWhile_append_of_pos hfront]
    simp
  · rw [List.dropWhile_append_of_pos hfront]
    simp

theorem not_slash_name (kind : MediaKind) : '/' ∉ kind.name.toList := by
  cases kind <;> decide

/-- The kind goes by what is in front of a slash and something behind it. -/
theorem mediaKind?_of_essence {top rest : List Char} (htop : '/' ∉ top)
    (h : (essence contentType).toList = top ++ '/' :: rest) :
    mediaKind? contentType =
      if rest = [] then none
      else if Text.sameAscii (String.ofList top) "image" then some .image
      else if Text.sameAscii (String.ofList top) "video" then some .video
      else none := by
  rw [mediaKind?, h, (splits_at_slash htop).1, (splits_at_slash htop).2]
  cases rest with
  | nil => rfl
  | cons c rest => rfl

theorem mediaKind?_of_noSlash (h : '/' ∉ (essence contentType).toList) :
    mediaKind? contentType = none := by
  have hrest : (essence contentType).toList.dropWhile (· ≠ '/') = [] := by
    rw [List.dropWhile_eq_nil_iff]
    intro c hc
    rw [decide_eq_true_iff]
    intro heq
    rw [heq] at hc
    exact h hc
  rw [mediaKind?, hrest]

theorem sameAscii_name_iff (top : List Char) (kind : MediaKind) :
    Text.sameAscii (String.ofList top) kind.name = true ↔
      top.map Char.toLower = kind.name.toList := by
  have hname : Text.lowerAscii kind.name = kind.name := by
    cases kind <;> decide
  rw [Text.sameAscii, beq_iff_eq, hname, ← String.toList_inj, Text.toList_lowerAscii,
    String.toList_ofList]

theorem lowerAscii_eq_kind_iff {top rest : List Char} {kind : MediaKind} (htop : '/' ∉ top)
    (h : (essence contentType).toList = top ++ '/' :: rest) :
    (∃ subtype, subtype ≠ "" ∧
      Text.lowerAscii (essence contentType) = kind.name ++ "/" ++ subtype) ↔
      rest ≠ [] ∧ top.map Char.toLower = kind.name.toList := by
  have hlower : (Text.lowerAscii (essence contentType)).toList =
      top.map Char.toLower ++ '/' :: rest.map Char.toLower := by
    rw [Text.toList_lowerAscii, h, List.map_append, List.map_cons]
    rfl
  have htop' : '/' ∉ top.map Char.toLower := by
    intro hmem
    exact htop (Text.mem_map_toLower (by decide) hmem)
  constructor
  · intro ⟨subtype, hsubtype, heq⟩
    have hboth : top.map Char.toLower ++ '/' :: rest.map Char.toLower =
        kind.name.toList ++ '/' :: subtype.toList := by
      rw [← hlower, heq]
      simp
    -- no kind has a slash in its name, so both texts are cut at the same one
    have hfront := congrArg (List.takeWhile (· ≠ '/')) hboth
    have hback := congrArg (List.dropWhile (· ≠ '/')) hboth
    rw [(splits_at_slash htop').1, (splits_at_slash (not_slash_name kind)).1] at hfront
    rw [(splits_at_slash htop').2, (splits_at_slash (not_slash_name kind)).2] at hback
    refine ⟨?_, hfront⟩
    intro hrest
    rw [hrest] at hback
    exact hsubtype (String.toList_eq_nil_iff.mp (List.cons_inj_right _ |>.mp hback).symm)
  · intro ⟨hrest, hfront⟩
    refine ⟨String.ofList (rest.map Char.toLower), ?_, ?_⟩
    · intro hempty
      apply hrest
      rw [← String.toList_eq_nil_iff, String.toList_ofList] at hempty
      exact List.map_eq_nil_iff.mp hempty
    · apply String.toList_injective
      rw [hlower, hfront]
      simp

/-- A content type is of a kind when its essence in lower case is the name of the kind, a slash
and a subtype. -/
theorem mediaKind?_eq_some_iff {kind : MediaKind} :
    mediaKind? contentType = some kind ↔ ∃ subtype, subtype ≠ "" ∧
      Text.lowerAscii (essence contentType) = kind.name ++ "/" ++ subtype := by
  by_cases hslash : '/' ∈ (essence contentType).toList
  · obtain ⟨top, rest, hsplit, htop⟩ := List.eq_append_cons_of_mem hslash
    rw [lowerAscii_eq_kind_iff htop hsplit, mediaKind?_of_essence htop hsplit]
    have himage := sameAscii_name_iff top .image
    have hvideo := sameAscii_name_iff top .video
    simp only [MediaKind.name] at himage hvideo
    simp only [himage, hvideo]
    by_cases hrest : rest = []
    · simp [hrest]
    · rw [if_neg hrest]
      by_cases hi : top.map Char.toLower = "image".toList
      · rw [if_pos hi, hi]
        cases kind <;> simp [hrest, MediaKind.name]
      · rw [if_neg hi]
        by_cases hv : top.map Char.toLower = "video".toList
        · rw [if_pos hv, hv]
          cases kind <;> simp [hrest, MediaKind.name]
        · rw [if_neg hv]
          cases kind with
          | image => exact iff_of_false (by decide) (fun h => hi h.2)
          | video => exact iff_of_false (by decide) (fun h => hv h.2)
  · rw [mediaKind?_of_noSlash hslash]
    constructor
    · intro h
      cases h
    · intro ⟨subtype, _, hlower⟩
      exfalso
      apply hslash
      apply Text.mem_map_toLower (by decide)
      rw [← Text.toList_lowerAscii, hlower]
      simp

theorem Respells.mediaKind (h : Respells s t) : mediaKind? s = mediaKind? t := by
  apply Option.ext
  intro kind
  rw [mediaKind?_eq_some_iff, mediaKind?_eq_some_iff, h.essence]

end ContentType

/-! ## The reference -/

namespace Upload

variable {s : UploadStore} {u : Upload} {t : String} {f : StoredFile} {kind : MediaKind}

theorem reference_of_unsupported (h : u.mediaKind? = none) :
    u.reference s = .error (.unsupportedMedia u.fileName u.contentType) := by
  rw [reference, h]

theorem reference_of_stored (hkind : u.mediaKind? = some kind)
    (hread : s.system u.tag .read = none) (hfile : s.file? u.tag = some f) :
    u.reference s = .ok ⟨kind, u.fileName, dataUri u.contentType f.content⟩ := by
  rw [reference, hkind]
  simp only [hread, hfile]

theorem unsupported_iff :
    (∃ name type, u.reference s = .error (.unsupportedMedia name type)) ↔
      u.mediaKind? = none := by
  constructor
  · intro ⟨name, type, h⟩
    cases hkind : u.mediaKind? with
    | none => rfl
    | some kind =>
      simp only [reference, hkind] at h
      split at h <;> cases h
  · intro h
    exact ⟨u.fileName, u.contentType, reference_of_unsupported h⟩

theorem reference_of_respells (h : ContentType.Respells u.contentType t) (m : MediaReference) :
    ({ u with contentType := t } : Upload).reference s = .ok m ↔ u.reference s = .ok m := by
  have hkind : ({ u with contentType := t } : Upload).mediaKind? = u.mediaKind? :=
    h.mediaKind.symm
  have huri : ∀ bytes, dataUri t bytes = dataUri u.contentType bytes := by
    intro bytes
    rw [dataUri, dataUri, h.essence]
  rw [reference, reference, hkind]
  cases u.mediaKind? with
  | none =>
    constructor
    · intro herror
      cases herror
    · intro herror
      cases herror
  | some kind => simp only [huri]

/-- **A reference carries the file as it is, and its type as it is classified.** Only a file that
is of no kind of media is refused as unsupported. The reference to any other stored file has
the essence of the content type in lower case, which is the name of the kind with a subtype, and
its bytes in Base64. Other ways to write the content type change neither. -/
theorem referenced (s : UploadStore) (u : Upload) :
    ((∃ name type, u.reference s = .error (.unsupportedMedia name type)) ↔
      u.mediaKind? = none) ∧
    (∀ kind f, u.mediaKind? = some kind → s.system u.tag .read = none →
      s.file? u.tag = some f →
      ∃ m b, u.reference s = .ok ⟨kind, u.fileName, "data:" ++ m ++ ";base64," ++ b⟩ ∧
        (∃ e, ContentType.HasEssence u.contentType e ∧
          m = Text.lowerAscii (String.ofList e)) ∧
        (∃ subtype, subtype ≠ "" ∧ m = kind.name ++ "/" ++ subtype) ∧
        Base64.decode? b.toList = some f.content) ∧
    ∀ t, ContentType.Respells u.contentType t →
      ({ u with contentType := t } : Upload).mediaKind? = u.mediaKind? ∧
      ∀ m, ({ u with contentType := t } : Upload).reference s = .ok m ↔ u.reference s = .ok m := by
  refine ⟨unsupported_iff, ?_, ?_⟩
  · intro kind f hkind hread hfile
    refine ⟨Text.lowerAscii (ContentType.essence u.contentType),
      String.ofList (Base64.encode f.content), reference_of_stored hkind hread hfile, ?_, ?_, ?_⟩
    · exact ⟨_, ContentType.hasEssence_essence u.contentType, by rw [String.ofList_toList]⟩
    · exact ContentType.mediaKind?_eq_some_iff.mp hkind
    · rw [String.toList_ofList]
      exact Base64.decode?_encode f.content
  · intro t ht
    exact ⟨ht.mediaKind.symm, reference_of_respells ht⟩

end Upload

/-- A directory with one file of two bytes. -/
def photoStore : UploadStore :=
  (UploadStore.empty.create "photo.png").append 0 [0xFF, 0xD8]

/-- The file in it, with parameters and capitals in its content type. -/
def photo : Upload := ⟨0, "photo.png", "photo.png", "Image/PNG;q=1", 2⟩

theorem respells_photo : ContentType.Respells photo.contentType "\timage/png ;q=2" := by
  have hbare : ContentType.Respells photo.contentType "Image/PNG" :=
    .symm (.parameters "Image/PNG" "q=1")
  have hother : ContentType.Respells "Image/PNG;q=2" "\tImage/PNG ;q=2" := by
    exact @ContentType.Respells.blanks "Image/PNG".toList ";q=2".toList [] [] ['\t'] [' ']
      (by decide) (.inr (by decide)) (List.forall_mem_nil _) (List.forall_mem_nil _)
      (List.forall_mem_singleton.mpr (by decide)) (List.forall_mem_singleton.mpr (by decide))
  exact hbare.trans ((ContentType.Respells.parameters "Image/PNG" "q=2").trans
    (hother.trans (.case (by decide))))

/-- The reference to the file is the same when its content type is written in another way. -/
theorem referenced_photo :
    photo.reference photoStore =
        .ok ⟨.image, "photo.png", "data:image/png;base64,/9g="⟩ ∧
      ({ photo with contentType := "\timage/png ;q=2" } : Upload).reference photoStore =
        .ok ⟨.image, "photo.png", "data:image/png;base64,/9g="⟩ ∧
      ∃ m b, "data:image/png;base64,/9g=" = "data:" ++ m ++ ";base64," ++ b ∧
        Base64.decode? b.toList = some [0xFF, 0xD8] ∧
        ∃ subtype, subtype ≠ "" ∧ m = "image" ++ "/" ++ subtype := by
  obtain ⟨-, hstored, hrespells⟩ := Upload.referenced photoStore photo
  have hkind : photo.mediaKind? = some .image := by decide
  have hreference : photo.reference photoStore =
      .ok ⟨.image, "photo.png", "data:image/png;base64,/9g="⟩ := by
    decide
  obtain ⟨m, b, hencoded, -, hsubtype, hbytes⟩ :=
    hstored .image ⟨0, "photo.png", [0xFF, 0xD8]⟩ hkind rfl (by decide)
  refine ⟨hreference, ((hrespells _ respells_photo).2 _).mpr hreference, m, b, ?_, hbytes, hsubtype⟩
  rw [hreference] at hencoded
  simp only [Except.ok.injEq, MediaReference.mk.injEq] at hencoded
  exact hencoded.2.2

end VisualRules
