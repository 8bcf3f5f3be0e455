import VisualRules.Proofs.Upload.Storing

/-!
# Files in pieces

A file comes in any number of pieces, and its bytes may break off behind any of
them. Where they are cut leaves no trace in the directory, a file that breaks
off leaves nothing at all, and what would come behind the break is not looked
at.
-/

namespace VisualRules.UploadStore

/-! ## Where the bytes break off -/

/-- Pieces either all arrive or break off behind some that did. -/
theorem split_at_break (items : List (Except String Bytes)) :
    (∃ pieces : List Bytes, items = pieces.map .ok) ∨
      ∃ (pieces : List Bytes) (reason : String) (rest : List (Except String Bytes)),
        items = pieces.map .ok ++ .error reason :: rest := by
  induction items with
  | nil => exact .inl ⟨[], rfl⟩
  | cons item items ih =>
    cases item with
    | error reason => exact .inr ⟨[], reason, items, rfl⟩
    | ok piece =>
      rcases ih with ⟨pieces, rfl⟩ | ⟨pieces, reason, rest, rfl⟩
      · exact .inl ⟨piece :: pieces, rfl⟩
      · exact .inr ⟨piece :: pieces, reason, rest, rfl⟩

theorem receive_break (fileName : String) (tag : Nat) (pieces : List Bytes) (reason : String)
    (rest : List (Except String Bytes)) (size : Nat) (s : UploadStore) :
    receive fileName tag (pieces.map .ok ++ .error reason :: rest) size s =
      receive fileName tag (pieces.map .ok ++ [.error reason]) size s := by
  induction pieces generalizing size s with
  | nil => rfl
  | cons piece pieces ih =>
    simp only [List.map_cons, List.cons_append, receive]
    cases s.system tag (.write size) with
    | some reason => rfl
    | none => exact ih _ _

/-- What comes behind a break makes no difference. -/
theorem persist_break (s : UploadStore) (fileName : String) (declared : Option String)
    (pieces : List Bytes) (reason : String) (rest : List (Except String Bytes)) :
    s.persist fileName declared (pieces.map .ok ++ .error reason :: rest) =
      s.persist fileName declared (pieces.map .ok ++ [.error reason]) := by
  simp only [persist, receive_break]

/-- Whatever the pieces are, storing them comes to one of the ends that there
are for some content. -/
theorem exists_persisted (s : UploadStore) (fileName : String) (declared : Option String)
    (items : List (Except String Bytes)) :
    ∃ content broken, Persisted s fileName declared content broken
      (s.persist fileName declared items) := by
  rcases split_at_break items with ⟨pieces, rfl⟩ | ⟨pieces, reason, rest, rfl⟩
  · have hpersisted := persisted_persist s fileName declared pieces none
    rw [Option.map_none, Option.toList_none, List.append_nil] at hpersisted
    exact ⟨_, _, hpersisted⟩
  · rw [persist_break]
    exact ⟨_, _, persisted_persist s fileName declared pieces (some reason)⟩

/-! ## Without failures of the file system -/

/-- The directory as it is, with the next tag given out. -/
def spent (s : UploadStore) : UploadStore where
  files := s.files
  next := s.next + 1
  tag_lt_next f hf := Nat.lt_succ_of_lt (s.tag_lt_next f hf)
  system := s.system

theorem without_put (s : UploadStore) (name : String) (content : Bytes) :
    (s.put name content).without s.next = s.spent := by
  have hfiles : ((s.put name content).without s.next).files = s.files := by
    have hadds := (adds_put s name content).without (Nat.le_refl s.next)
    simpa using hadds.files
  simp only [without, spent, mk.injEq]
  exact ⟨hfiles, rfl, rfl⟩

theorem persist_whole {s : UploadStore} {fileName : String}
    (h : s.system.Serves [FileName.sanitize fileName]) (declared : Option String)
    (pieces : List Bytes) :
    s.persist fileName declared (pieces.map .ok) =
      (.ok ⟨s.next, FileName.sanitize fileName, fileName,
          ContentType.resolve fileName declared, pieces.flatten.length⟩,
        s.put (FileName.sanitize fileName) pieces.flatten) := by
  have hpersisted := persisted_persist s fileName declared pieces none
  rw [Option.map_none, Option.toList_none, List.append_nil] at hpersisted
  generalize s.persist fileName declared (pieces.map .ok) = outcome at hpersisted
  cases hpersisted with
  | failed hfails _ => exact absurd h hfails.not_serves
  | whole _ => rfl
  | broken hbroken => cases hbroken

theorem persist_broken {s : UploadStore} {fileName : String}
    (h : s.system.Serves [FileName.sanitize fileName]) (declared : Option String)
    (pieces : List Bytes) (reason : String) (rest : List (Except String Bytes)) :
    s.persist fileName declared (pieces.map .ok ++ .error reason :: rest) =
      (.error (.stream fileName reason), s.spent) := by
  have hpersisted := persisted_persist s fileName declared pieces (some reason)
  rw [Option.map_some, Option.toList_some] at hpersisted
  rw [persist_break]
  generalize s.persist fileName declared (pieces.map .ok ++ [.error reason]) = outcome
    at hpersisted
  cases hpersisted with
  | failed hfails _ => exact absurd h hfails.not_serves
  | whole hbroken => cases hbroken
  | broken hbroken =>
    cases hbroken
    rw [remove, system_put, h s.next .remove trivial]
    exact congrArg _ (without_put s _ _)

/-- **A file is stored as its bytes, or not at all.** When no call to the file
system fails, pieces that all arrive add one file with all their bytes, of which
the size and the name that the client sent are reported, and how the bytes are
cut into pieces makes no difference. When they break off, the reason is
reported, and the files are those that were there before, whatever has arrived
and whatever would have come next. -/
theorem persist_in_pieces (s : UploadStore) (fileName : String) (declared : Option String)
    (h : s.system.Serves [FileName.sanitize fileName]) :
    (∀ pieces : List Bytes, ∃ t,
      s.persist fileName declared (pieces.map .ok) =
          (.ok ⟨s.next, FileName.sanitize fileName, fileName,
            ContentType.resolve fileName declared, pieces.flatten.length⟩, t) ∧
        s.Adds t [⟨s.next, FileName.sanitize fileName, pieces.flatten⟩]) ∧
    (∀ pieces pieces' : List Bytes, pieces.flatten = pieces'.flatten →
      s.persist fileName declared (pieces.map .ok) =
        s.persist fileName declared (pieces'.map .ok)) ∧
    ∃ t, t.files = s.files ∧
      ∀ (pieces : List Bytes) (reason : String) (rest : List (Except String Bytes)),
        s.persist fileName declared (pieces.map .ok ++ .error reason :: rest) =
          (.error (.stream fileName reason), t) := by
  refine ⟨fun pieces => ?_, fun pieces pieces' hsame => ?_, s.spent, rfl, ?_⟩
  · exact ⟨_, persist_whole h declared pieces, adds_put s _ _⟩
  · rw [persist_whole h, persist_whole h, hsame]
  · exact persist_broken h declared

/-! ## A photo in a directory with one file -/

/-- A directory that holds a file of the name that is sent. -/
def onePhoto : UploadStore :=
  UploadStore.empty.put "gate.png" [1]

theorem sanitize_gate : FileName.sanitize "../gate.png" = "gate.png" := by
  decide +kernel

theorem serves_onePhoto : onePhoto.system.Serves [FileName.sanitize "../gate.png"] := by
  rw [sanitize_gate]
  intro tag call hfor
  cases call with
  | create name =>
    cases List.mem_singleton.1 hfor
    rfl
  | write _ | flush | read | remove => rfl

/-- The bytes of a second photo come in three pieces, one of which is empty, or
in one, or they break off behind the first. -/
theorem persist_in_pieces_onePhoto :
    onePhoto.system.Serves [FileName.sanitize "../gate.png"] ∧
      (∃ t, onePhoto.persist "../gate.png" none ([[80, 78], [], [71]].map .ok) =
          (.ok ⟨1, "gate.png", "../gate.png", "image/png", 3⟩, t) ∧
        onePhoto.Adds t [⟨1, "gate.png", [80, 78, 71]⟩]) ∧
      onePhoto.persist "../gate.png" none ([[80, 78], [], [71]].map .ok) =
        onePhoto.persist "../gate.png" none ([[80, 78, 71]].map .ok) ∧
      ∃ t, t.files = onePhoto.files ∧
        onePhoto.persist "../gate.png" none [.ok [80, 78], .error "gone", .ok [71]] =
          (.error (.stream "../gate.png" "gone"), t) := by
  obtain ⟨hwhole, hcut, t, hfiles, hbroken⟩ :=
    persist_in_pieces onePhoto "../gate.png" none serves_onePhoto
  have htype : ContentType.resolve "../gate.png" none = "image/png" := by decide +kernel
  obtain ⟨u, hstored, hadds⟩ := hwhole [[80, 78], [], [71]]
  rw [sanitize_gate] at hstored hadds
  rw [htype] at hstored
  exact ⟨serves_onePhoto, ⟨u, hstored, hadds⟩, hcut _ _ rfl, t, hfiles,
    hbroken [[80, 78]] "gone" [.ok [71]]⟩

end VisualRules.UploadStore
