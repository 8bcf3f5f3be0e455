import Mathlib.Data.List.DropRight
import Mathlib.Data.List.TakeWhile
import VisualRules.Http.PartHead
import VisualRules.Proofs.Bytes.Base64
import VisualRules.Upload.Store

/-!
# Data URIs of uploads

A file stands in a message as a data URI: what is in front of the first comma
says how to read what is behind it. The essence of a content type is in front,
so a comma in it would cut the bytes short. None is there, neither in a type that
is guessed nor in one that the head of a part declares.
-/

namespace VisualRules

/-! ## Reading a data URI -/

/-- The bytes in a data URI, if it says that they are written in Base64. -/
def DataUri.bytes? (uri : String) : Option Bytes :=
  match uri.toList.dropWhile (· ≠ ',') with
  | [] => none
  | _ :: data =>
    let front := uri.toList.takeWhile (· ≠ ',')
    if "data:".toList <+: front ∧ ";base64".toList <:+ front then Base64.decode? data else none

theorem DataUri.bytes?_encode {type : List Char} (h : ',' ∉ type) (bytes : Bytes) :
    bytes? (String.ofList
      ("data:".toList ++ type ++ ";base64".toList ++ ',' :: Base64.encode bytes)) =
      some bytes := by
  generalize hfront : "data:".toList ++ type ++ ";base64".toList = front
  have hcomma : ∀ c ∈ front, decide (c ≠ ',') = true := by
    intro c hc
    rw [decide_eq_true_iff]
    rintro rfl
    rw [← hfront] at hc
    simp [h] at hc
  have hdata : (front ++ ',' :: Base64.encode bytes).dropWhile (· ≠ ',') =
      ',' :: Base64.encode bytes := by
    rw [List.dropWhile_append_of_pos hcomma]
    simp
  have htype : (front ++ ',' :: Base64.encode bytes).takeWhile (· ≠ ',') = front := by
    rw [List.takeWhile_append_of_pos hcomma]
    simp
  have hends : "data:".toList <+: front ∧ ";base64".toList <:+ front := by
    rw [← hfront]
    exact ⟨⟨_, (List.append_assoc ..).symm⟩, List.suffix_append _ _⟩
  simp only [bytes?, String.toList_ofList, hdata, htype, if_pos hends, Base64.decode?_encode]

/-! ## Content types without a comma -/

/-- Lower case gives nothing but small letters that was not there. -/
theorem Text.eq_of_toLower {c d : Char} (hd : d.isLower = false) (h : c.toLower = d) : c = d := by
  unfold Char.toLower at h
  split at h
  · rename_i hupper
    have hletter : d.val.toNat = (c.val.toNat + 32) % 2 ^ 32 := by
      rw [← h]
      exact UInt32.toNat_add ..
    have hlow : 65 ≤ c.val.toNat := hupper.1
    have hhigh : c.val.toNat ≤ 90 := hupper.2
    have hlower : d.isLower = true := by
      have hfirst : 'a'.val ≤ d.val := by
        show 97 ≤ d.val.toNat
        omega
      have hlast : d.val ≤ 'z'.val := by
        show d.val.toNat ≤ 122
        omega
      exact Bool.and_eq_true_iff.mpr ⟨decide_eq_true hfirst, decide_eq_true hlast⟩
    rw [hlower] at hd
    cases hd
  · exact h

theorem Text.comma_mem_lowerAscii {s : String} (h : ',' ∈ (lowerAscii s).toList) :
    ',' ∈ s.toList := by
  rw [lowerAscii, String.toList_ofList] at h
  obtain ⟨c, hc, hlower⟩ := List.mem_map.1 h
  rw [← eq_of_toLower (by decide) hlower]
  exact hc

theorem Text.mem_trimBy {p : Char → Bool} {cs : List Char} {c : Char} (h : c ∈ trimBy p cs) :
    c ∈ cs := by
  rw [trimBy, List.mem_reverse] at h
  have hfront := (List.dropWhile_suffix p).subset h
  exact (List.dropWhile_suffix p).subset (List.mem_reverse.1 hfront)

namespace ContentType

variable {contentType : String}

/-- No comma stands in a content type in front of its parameters. -/
def CommaFree (contentType : String) : Prop :=
  ',' ∉ contentType.toList.takeWhile (· ≠ ';')

instance (contentType : String) : Decidable (CommaFree contentType) :=
  inferInstanceAs (Decidable (¬ _))

theorem CommaFree.essence (h : CommaFree contentType) : ',' ∉ (essence contentType).toList := by
  intro hmem
  rw [ContentType.essence, Text.trim, String.toList_ofList, String.toList_ofList] at hmem
  exact h (Text.mem_trimBy hmem)

/-- Cutting off white space moves nothing in front of the semicolon. -/
theorem CommaFree.trim (h : CommaFree contentType) : CommaFree (Text.trim contentType) := by
  have hback : ∀ cs : List Char,
      (cs.rdropWhile Text.isBlankChar).takeWhile (· ≠ ';') ⊆ cs.takeWhile (· ≠ ';') := by
    intro cs
    obtain ⟨blank, hblank⟩ := List.rdropWhile_prefix Text.isBlankChar cs
    conv_rhs => rw [← hblank, List.takeWhile_append]
    split
    · exact List.Subset.trans (List.takeWhile_prefix _).subset (List.subset_append_left ..)
    · exact List.Subset.refl _
  have hfront : ∀ cs : List Char,
      (cs.dropWhile Text.isBlankChar).takeWhile (· ≠ ';') ⊆ cs.takeWhile (· ≠ ';') := by
    intro cs
    induction cs with
    | nil => exact List.Subset.refl _
    | cons c cs ih =>
      by_cases hc : Text.isBlankChar c = true
      · have hne : c ≠ ';' := by
          rintro rfl
          exact absurd hc (by decide)
        rw [List.dropWhile_cons_of_pos hc, List.takeWhile_cons_of_pos (by simpa using hne)]
        exact List.Subset.trans ih (List.subset_cons_self ..)
      · rw [List.dropWhile_cons_of_neg hc]
        exact List.Subset.refl _
  intro hmem
  rw [Text.trim, String.toList_ofList] at hmem
  exact h (hfront _ (hback _ hmem))

theorem commaFree_guess (fileName : String) : CommaFree (guess fileName) := by
  have htable : ∀ entry ∈ byExtension, CommaFree entry.2 := by decide +kernel
  have hfallback : CommaFree fallback := by decide +kernel
  unfold guess
  cases hknown : (FileName.extension? fileName).bind fun e =>
      byExtension.lookup (Text.lowerAscii e) with
  | none => exact hfallback
  | some known =>
    obtain ⟨e, -, hlookup⟩ := Option.bind_eq_some_iff.1 hknown
    obtain ⟨before, behind, htable', -⟩ := List.lookup_eq_some_iff.1 hlookup
    exact htable (Text.lowerAscii e, known) (by simp [htable'])

theorem commaFree_resolve {declared : Option String} (fileName : String)
    (h : ∀ t ∈ declared, CommaFree t) : CommaFree (resolve fileName declared) := by
  unfold resolve
  cases htelling : (declared.map Text.trim).filter isTelling with
  | none => exact commaFree_guess fileName
  | some trimmed =>
    obtain ⟨t, ht, rfl⟩ := Option.map_eq_some_iff.1 (Option.filter_eq_some_iff.1 htelling).1
    exact (h t ht).trim

end ContentType

theorem Upload.bytes?_dataUri {contentType : String} (h : ContentType.CommaFree contentType)
    (bytes : Bytes) : DataUri.bytes? (dataUri contentType bytes) = some bytes := by
  have hcomma : ',' ∉ (Text.lowerAscii (ContentType.essence contentType)).toList :=
    fun hmem => h.essence (Text.comma_mem_lowerAscii hmem)
  have huri : dataUri contentType bytes = String.ofList ("data:".toList ++
      (Text.lowerAscii (ContentType.essence contentType)).toList ++ ";base64".toList ++
        ',' :: Base64.encode bytes) := by
    apply String.toList_injective
    simp [dataUri]
  rw [huri]
  exact DataUri.bytes?_encode hcomma bytes

/-! ## Declared types -/

namespace MediaType

end MediaType

/-- The content type in the head of a part, if any, has no comma in front of its
parameters. -/
def PartHead.Typed (h : PartHead) : Prop :=
  ∀ t ∈ h.contentType, ContentType.CommaFree t

instance (h : PartHead) : Decidable h.Typed :=
  inferInstanceAs (Decidable (∀ t ∈ h.contentType, ContentType.CommaFree t))

end VisualRules
