import VisualRules.Proofs.Service.Answering
import VisualRules.Proofs.Service.Receiving

/-!
# What a form leaves in the upload store

A form leaves its whole files behind if they are to be retained, and nothing if
not, wherever it breaks off and whatever becomes of the rule. Files that were
there before are left alone.
-/

namespace VisualRules

/-- What the upload store may be behind a form. -/
structure Service.Stored (s : Service) (g : Generator) (form : Form) (after : UploadStore) :
    Prop where
  /-- All files that were there still are, and others have fresh tags. -/
  adds : ∃ new, s.uploads.Adds after new
  refused : ∀ f, g.ready = .error f → after = s.uploads
  removed : s.uploads.system.Serves form.storedNames → s.settings.uploads.retains = false →
    after.files = s.uploads.files
  retained : s.uploads.system.Serves form.storedNames → g.ready = .ok () →
    s.settings.uploads.retains = true →
    ∃ new, s.uploads.Adds after new ∧ new.map StoredFile.entry = form.wholeFiles

namespace Intake

variable {i j : Intake} {new : List StoredFile} {noted : List Upload}

theorem Gains.le_tag (h : Gains i j new noted) : ∀ u ∈ noted, i.store.next ≤ u.tag := by
  intro u hu
  have htag : u.tag ∈ new.map (·.tag) := h.tags.subset (List.mem_map_of_mem hu)
  obtain ⟨f, hf, heq⟩ := List.mem_map.1 htag
  rw [← heq]
  exact h.adds.fresh f hf

end Intake

namespace Service

theorem stored_of_ready (s : Service) {g : Generator} (form : Form) (hready : g.ready = .ok ()) :
    s.Stored g form (s.generateRule g form).service.uploads := by
  obtain ⟨-, ⟨new, noted, hgains, hwhole⟩, -⟩ :=
    Intake.receive_spec form { store := s.uploads }
  have hnoted : (s.taken form).2.uploads = noted := hgains.uploads
  obtain ⟨rest, hrest, hgone⟩ := hgains.adds.removeAll hgains.le_tag
  rw [generateRule_of_ready hready]
  simp only [hnoted]
  cases hretains : s.settings.uploads.retains with
  | true =>
    rw [if_pos rfl]
    exact ⟨⟨new, hgains.adds⟩, by simp [hready], by simp [hretains],
      fun hserves _ _ => ⟨new, hgains.adds, (hwhole hserves).1⟩⟩
  | false =>
    rw [if_neg (by simp)]
    refine ⟨⟨rest, hrest⟩, by simp [hready], fun hserves _ => ?_, by simp [hretains]⟩
    have hnone : rest = [] := by
      rw [hgone fun u _ => hserves u.tag .remove trivial, (hwhole hserves).2]
      exact List.filter_eq_nil_iff.2 fun f hf => by simpa using ⟨f, hf, rfl⟩
    rw [← List.append_nil s.uploads.files, ← hnone]
    exact hrest.files

theorem stored_generateRule (s : Service) (g : Generator) (form : Form) :
    s.Stored g form (s.generateRule g form).service.uploads := by
  cases hready : g.ready with
  | ok u => exact s.stored_of_ready form hready
  | error f =>
    rw [generateRule_of_not_ready hready]
    exact ⟨⟨[], .refl _⟩, fun _ _ => rfl, fun _ _ => rfl, by simp [hready]⟩

/-- This holds of any form, whatever it is made of, and hence of each one that
is posted. -/
theorem uploads_stored (s : Service) (g : Generator) :
    (∀ form, s.Stored g form (s.generateRule g form).service.uploads) ∧
      ∀ r boundary, r.PostsForm boundary →
        s.Stored g (s.form boundary r.body) (s.answer g r).service.uploads := by
  refine ⟨s.stored_generateRule g, fun r boundary h => ?_⟩
  rw [answer_of_postsForm h]
  exact s.stored_generateRule g _

/-! ## A form that breaks off in its second file -/

/-- A form with a text, a file, and the start of another file. -/
def cutRequest : Request where
  method := .post
  target := "/api/generate-rule"
  headers := [("Content-Type", "multipart/form-data; boundary=X")]
  body := Bytes.ofText
    ("--X\r\nContent-Disposition: form-data; name=\"rule_name\"; filename=\"t\"\r\n\r\nhelmet" ++
      "\r\n--X\r\nContent-Disposition: form-data; name=\"f\"; filename=\"../a.png\"\r\n\r\nAB" ++
      "\r\n--X\r\nContent-Disposition: form-data; name=\"f\"; filename=\"b.png\"\r\n\r\nCD\r\n--")

/-- A service that retains files and has one already. -/
def retainingService : Service where
  uploads := { files := [⟨4, "a.png", [1]⟩], next := 7 }

/-- A generator that is ready and runs out of time. -/
def lateGenerator : Generator where
  ready := .ok ()
  generate _ := (.error (.model (.timeout 1)), [])

/-- What came of the request. -/
def cutForm : Form :=
  .part ⟨some "rule_name", some "t", none⟩ [Bytes.ofText "helmet"]
    (.part ⟨some "f", some "../a.png", none⟩ [[65, 66]]
      (.cut ⟨some "f", some "b.png", none⟩ [[67, 68, 13, 10, 45, 45]]
        (.incompletePart (some "f"))))

theorem serves_cutForm : retainingService.uploads.system.Serves cutForm.storedNames := by
  have hnames : cutForm.storedNames = ["a.png", "b.png"] := by decide +kernel
  intro tag call hfor
  cases call with
  | create name =>
    rw [hnames] at hfor
    rcases List.mem_pair.1 hfor with rfl | rfl <;> rfl
  | write _ | flush | read | remove => rfl

theorem uploads_stored_cutRequest :
    cutRequest.PostsForm "X" ∧ retainingService.form "X" cutRequest.body = cutForm ∧
      retainingService.uploads.system.Serves cutForm.storedNames ∧
      ∃ new, retainingService.uploads.Adds
          (retainingService.answer lateGenerator cutRequest).service.uploads new ∧
        new.map StoredFile.entry = [("a.png", [65, 66])] := by
  have hposts : cutRequest.PostsForm "X" := ⟨rfl, by decide +kernel, by decide +kernel⟩
  have hform : retainingService.form "X" cutRequest.body = cutForm := by decide +kernel
  have hstored := (uploads_stored retainingService lateGenerator).2 cutRequest "X" hposts
  rw [hform] at hstored
  obtain ⟨new, hadds, hentries⟩ := hstored.retained serves_cutForm rfl rfl
  exact ⟨hposts, hform, serves_cutForm, new, hadds, hentries⟩

end Service

end VisualRules
