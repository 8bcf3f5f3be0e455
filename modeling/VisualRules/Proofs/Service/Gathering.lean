import VisualRules.Proofs.Service.Outcome
import VisualRules.Proofs.Upload.DataUri

/-!
# The media in a form

While nothing fails, the files of a form lie in the upload store with the types
and the bytes that were sent, in the order in which they came. What is read back
of them for the model is a reference to each image and video among them.
-/

namespace VisualRules

/-! ## What was sent -/

/-- A file as it was sent, under the type that it was declared to have or is
guessed to have. -/
structure SentFile where
  fileName : String
  contentType : String
  content : Bytes

namespace SentFile

/-- The kind of media in a file. -/
def kind? (f : SentFile) : Option MediaKind :=
  ContentType.mediaKind? f.contentType

/-- The reference for the model, if the file is an image or a video. -/
def reference? (f : SentFile) : Option MediaReference :=
  f.kind?.map fun kind => ⟨kind, f.fileName, Upload.dataUri f.contentType f.content⟩

end SentFile

namespace PartHead

/-- The type of a file with a name. It is guessed if the head declares none, a
blank one, or the one that says nothing. -/
def fileType (h : PartHead) (fileName : String) : String :=
  match h.contentType with
  | none => ContentType.guess fileName
  | some declared =>
    if Text.isBlank declared ∨ Text.sameAscii (Text.trim declared) "application/octet-stream" then
      ContentType.guess fileName
    else Text.trim declared

/-- The file in a part with some content. -/
def sent? (h : PartHead) (content : Bytes) : Option SentFile :=
  h.file?.map fun fileName => ⟨fileName, h.fileType fileName, content⟩

theorem resolve_eq_fileType (h : PartHead) (fileName : String) :
    ContentType.resolve fileName h.contentType = h.fileType fileName := by
  unfold ContentType.resolve fileType
  cases h.contentType with
  | none => rfl
  | some declared =>
    by_cases hguess : Text.isBlank declared ∨
        Text.sameAscii (Text.trim declared) "application/octet-stream"
    · have htelling : ContentType.isTelling (Text.trim declared) = false := by
        rw [ContentType.isTelling, Text.isEmpty_trim, Bool.and_eq_false_iff]
        simpa [ContentType.fallback] using hguess
      simp only [Option.map_some, Option.filter_some, htelling, if_pos hguess]
      rfl
    · have htelling : ContentType.isTelling (Text.trim declared) = true := by
        rw [ContentType.isTelling, Text.isEmpty_trim, Bool.and_eq_true_iff]
        simpa [ContentType.fallback] using hguess
      simp only [Option.map_some, Option.filter_some, htelling, if_neg hguess]
      rfl

end PartHead

namespace Form

/-- The files that came as a whole, in order. -/
def sentFiles (form : Form) : List SentFile :=
  form.wholeParts.filterMap fun p => p.1.sent? p.2

/-- A form whose content types hold no comma in front of their parameters. -/
def Typed (form : Form) : Prop :=
  ∀ h ∈ form.heads, h.Typed

instance (form : Form) : Decidable form.Typed :=
  inferInstanceAs (Decidable (∀ h ∈ form.heads, h.Typed))

theorem mem_heads_of_mem_wholeParts {form : Form} {p : PartHead × Bytes}
    (h : p ∈ form.wholeParts) : p.1 ∈ form.heads := by
  induction form with
  | done | broken _ | cut _ _ _ => cases h
  | part head pieces rest ih =>
    rcases List.mem_cons.1 h with rfl | h
    · exact List.mem_cons_self
    · exact List.mem_cons_of_mem _ (ih h)

theorem Typed.sentFiles {form : Form} (htyped : form.Typed) :
    ∀ f ∈ form.sentFiles, ContentType.CommaFree f.contentType := by
  intro f hf
  obtain ⟨p, hp, hsent⟩ := List.mem_filterMap.1 hf
  obtain ⟨fileName, -, rfl⟩ := Option.map_eq_some_iff.1 hsent
  show ContentType.CommaFree (p.1.fileType fileName)
  rw [← PartHead.resolve_eq_fileType]
  exact ContentType.commaFree_resolve fileName (htyped p.1 (mem_heads_of_mem_wholeParts hp))

end Form

namespace UploadStore

variable {s t : UploadStore} {new : List StoredFile}

theorem Adds.file? (h : s.Adds t new) {tag : Nat} {f : StoredFile}
    (hfile : s.file? tag = some f) : t.file? tag = some f := by
  unfold UploadStore.file? at *
  rw [h.files, List.find?_append, hfile]
  rfl

end UploadStore

/-- A note stands for a file that was sent and is in the store. -/
structure Upload.Holds (s : UploadStore) (u : Upload) (f : SentFile) : Prop where
  fileName : u.fileName = f.fileName
  contentType : u.contentType = f.contentType
  content : ∃ stored, s.file? u.tag = some stored ∧ stored.content = f.content

theorem Upload.Holds.mono {s t : UploadStore} {new : List StoredFile} {u : Upload}
    {f : SentFile} (h : u.Holds s f) (hadds : s.Adds t new) : u.Holds t f := by
  obtain ⟨stored, hfile, hcontent⟩ := h.content
  exact ⟨h.fileName, h.contentType, stored, hadds.file? hfile, hcontent⟩

namespace Intake

variable {i j k : Intake} {files more : List SentFile}

/-- What has come in between two states are some files, in order. -/
def Gathers (i j : Intake) (files : List SentFile) : Prop :=
  ∃ new noted, i.store.Adds j.store new ∧ j.uploads = i.uploads ++ noted ∧
    List.Forall₂ (fun u f => u.Holds j.store f) noted files

theorem Gathers.of_eq (hstore : j.store = i.store) (huploads : j.uploads = i.uploads) :
    Gathers i j [] := by
  refine ⟨[], [], ?_, by simp [huploads], .nil⟩
  rw [hstore]
  exact .refl _

theorem Gathers.system_eq (h : Gathers i j files) : j.store.system = i.store.system := by
  obtain ⟨new, noted, hadds, -⟩ := h
  exact hadds.system

theorem Gathers.trans (h : Gathers i j files) (h' : Gathers j k more) :
    Gathers i k (files ++ more) := by
  obtain ⟨new, noted, hadds, huploads, hholds⟩ := h
  obtain ⟨new', noted', hadds', huploads', hholds'⟩ := h'
  refine ⟨new ++ new', noted ++ noted', hadds.trans hadds', ?_, ?_⟩
  · rw [huploads', huploads, List.append_assoc]
  · -- the later files leave the earlier ones in place
    have hkept := hholds.imp fun u f hu => Upload.Holds.mono hu hadds'
    exact List.rel_append hkept hholds'

end Intake

/-! ## What is read back -/

end VisualRules
