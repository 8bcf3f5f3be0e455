import Mathlib.Data.List.Nodup
import VisualRules.Upload.Store

/-!
# Storing a file

A file that comes in pieces is stored as if it had come at once, or a call to
the file system failed. What is in the directory already is not touched: each
step only adds files under tags that were not given out before, and takes away
such files only.
-/

namespace VisualRules

/-- Whether a call is one of those for files with some names. -/
def FileCall.IsFor (names : List String) : FileCall → Prop
  | .create name => name ∈ names
  | .write _ | .flush | .read | .remove => True

theorem FileCall.IsFor.mono {names more : List String} {call : FileCall}
    (h : call.IsFor names) (hsub : names ⊆ more) : call.IsFor more := by
  cases call with
  | create name => exact hsub h
  | write _ | flush | read | remove => trivial

namespace FileSystem

variable {system : FileSystem} {names more : List String} {reason : String}

/-- All that is asked for files with some names is done. -/
def Serves (system : FileSystem) (names : List String) : Prop :=
  ∀ tag call, FileCall.IsFor names call → system tag call = none

/-- Some call for files with some names fails. -/
def Fails (system : FileSystem) (names : List String) (reason : String) : Prop :=
  ∃ tag call, FileCall.IsFor names call ∧ system tag call = some reason

theorem Fails.not_serves (h : system.Fails names reason) : ¬ system.Serves names := by
  obtain ⟨tag, call, hfor, hcall⟩ := h
  intro hserves
  simp [hserves tag call hfor] at hcall

theorem Fails.mono (h : system.Fails names reason) (hsub : names ⊆ more) :
    system.Fails more reason := by
  obtain ⟨tag, call, hfor, hcall⟩ := h
  exact ⟨tag, call, hfor.mono hsub, hcall⟩

theorem Serves.mono (h : system.Serves more) (hsub : names ⊆ more) : system.Serves names :=
  fun tag call hfor => h tag call (hfor.mono hsub)

end FileSystem

namespace UploadStore

variable {s t u : UploadStore} {tag : Nat} {new more : List StoredFile}

/-! ## One file -/

theorem append_append (s : UploadStore) (tag : Nat) (a b : Bytes) :
    (s.append tag a).append tag b = s.append tag (a ++ b) := by
  simp only [append, List.map_map, mk.injEq, and_true]
  refine List.map_congr_left fun f _ => ?_
  by_cases h : f.tag = tag
  · subst h
    simp
  · simp [h]

theorem append_nil (s : UploadStore) (tag : Nat) : s.append tag [] = s := by
  have hsame : (s.files.map fun f =>
      if f.tag = tag then { f with content := f.content ++ [] } else f) = s.files := by
    refine List.map_congr_left (g := id) (fun f _ => ?_) |>.trans s.files.map_id
    rw [List.append_nil, ite_self, id]
  cases s
  simp only [append, hsame]

@[simp]
theorem system_append (s : UploadStore) (tag : Nat) (bytes : Bytes) :
    (s.append tag bytes).system = s.system := rfl

@[simp]
theorem system_create (s : UploadStore) (name : String) :
    (s.create name).system = s.system := rfl

/-- The directory with one more file. -/
def put (s : UploadStore) (name : String) (content : Bytes) : UploadStore :=
  (s.create name).append s.next content

@[simp]
theorem next_put (s : UploadStore) (name : String) (content : Bytes) :
    (s.put name content).next = s.next + 1 := rfl

@[simp]
theorem system_put (s : UploadStore) (name : String) (content : Bytes) :
    (s.put name content).system = s.system := rfl

theorem files_put (s : UploadStore) (name : String) (content : Bytes) :
    (s.put name content).files = s.files ++ [⟨s.next, name, content⟩] := by
  have hold : (s.files.map fun f =>
      if f.tag = s.next then { f with content := f.content ++ content } else f) = s.files := by
    refine List.map_congr_left (g := id) (fun f hf => ?_) |>.trans s.files.map_id
    rw [if_neg (Nat.ne_of_lt (s.tag_lt_next f hf)), id]
  simp [put, append, create, hold]

/-- What has become of the bytes of a file: a call failed behind some of them,
or all of them are in the file and what comes behind them is up next. -/
theorem receive_pieces (fileName : String) (tag : Nat) (pieces : List Bytes)
    (tail : List (Except String Bytes)) (size : Nat) (s : UploadStore) :
    (∃ part written reason, part <+: pieces.flatten ∧
      s.system tag (.write written) = some reason ∧
      receive fileName tag (pieces.map .ok ++ tail) size s =
        (.error (.io reason), s.append tag part)) ∨
    receive fileName tag (pieces.map .ok ++ tail) size s =
      receive fileName tag tail (size + pieces.flatten.length)
        (s.append tag pieces.flatten) := by
  induction pieces generalizing size s with
  | nil =>
    right
    simp [append_nil]
  | cons piece pieces ih =>
    simp only [List.map_cons, List.cons_append, receive]
    cases hcall : s.system tag (.write size) with
    | some reason =>
      left
      exact ⟨[], size, reason, List.nil_prefix, hcall, by simp [append_nil]⟩
    | none =>
      rcases ih (size + piece.length) (s.append tag piece) with
        ⟨part, written, reason, hpart, hfails, heq⟩ | heq
      · left
        refine ⟨piece ++ part, written, reason, ?_, hfails, ?_⟩
        · simpa using hpart
        · simp only [heq, append_append]
      · right
        simp only [heq, append_append, List.flatten_cons, List.length_append, Nat.add_assoc]

/-- What storing a file can come to. Behind its pieces the file is whole, or it
is broken for a reason. -/
inductive Persisted (s : UploadStore) (fileName : String) (declared : Option String)
    (content : Bytes) (broken : Option String) :
    Except UploadFailure Upload × UploadStore → Prop
  | failed {reason : String} {t : UploadStore}
      (hfails : s.system.Fails [FileName.sanitize fileName] reason)
      (hleft : t = s ∨ ∃ part, t = s.put (FileName.sanitize fileName) part) :
      Persisted s fileName declared content broken (.error (.io reason), t)
  | whole (hbroken : broken = none) :
      Persisted s fileName declared content broken
        (.ok ⟨s.next, FileName.sanitize fileName, fileName,
            ContentType.resolve fileName declared, content.length⟩,
          s.put (FileName.sanitize fileName) content)
  | broken {reason : String} (hbroken : broken = some reason) :
      Persisted s fileName declared content broken
        (.error (.stream fileName reason),
          (s.put (FileName.sanitize fileName) content).remove s.next)

theorem persisted_persist (s : UploadStore) (fileName : String) (declared : Option String)
    (pieces : List Bytes) (broken : Option String) :
    Persisted s fileName declared pieces.flatten broken
      (s.persist fileName declared (pieces.map .ok ++ (broken.map .error).toList)) := by
  cases hcreate : s.system s.next (.create (FileName.sanitize fileName)) with
  | some reason =>
    simp only [persist, hcreate]
    exact .failed ⟨_, _, by simp [FileCall.IsFor], hcreate⟩ (.inl rfl)
  | none =>
    rcases receive_pieces fileName s.next pieces (broken.map .error).toList 0
        (s.create (FileName.sanitize fileName)) with
      ⟨part, written, reason, _, hcall, heq⟩ | heq
    · simp only [persist, hcreate, heq]
      exact .failed ⟨s.next, .write written, trivial, hcall⟩ (.inr ⟨part, rfl⟩)
    · cases broken with
      | some reason =>
        simp only [Option.map_some, Option.toList_some, receive] at heq ⊢
        simp only [persist, hcreate, heq]
        exact .broken rfl
      | none =>
        simp only [Option.map_none, Option.toList_none, receive, Nat.zero_add, system_append,
          system_create] at heq ⊢
        cases hflush : s.system s.next .flush with
        | some reason =>
          simp only [hflush] at heq
          simp only [persist, hcreate, heq]
          exact .failed ⟨s.next, .flush, trivial, hflush⟩ (.inr ⟨pieces.flatten, rfl⟩)
        | none =>
          simp only [hflush] at heq
          simp only [persist, hcreate, heq]
          exact .whole rfl

/-! ## The files that have come since -/

/-- Files have been added to a directory, under fresh tags, and all else in it is
as it was. -/
structure Adds (s t : UploadStore) (new : List StoredFile) : Prop where
  files : t.files = s.files ++ new
  fresh : ∀ f ∈ new, s.next ≤ f.tag
  distinct : (new.map (·.tag)).Nodup
  next : s.next ≤ t.next
  system : t.system = s.system

theorem Adds.refl (s : UploadStore) : s.Adds s [] :=
  ⟨by simp, by simp, by simp, Nat.le_refl _, rfl⟩

theorem Adds.trans (h : s.Adds t new) (h' : t.Adds u more) : s.Adds u (new ++ more) where
  files := by rw [h'.files, h.files, List.append_assoc]
  fresh f hf := by
    rcases List.mem_append.1 hf with hf | hf
    · exact h.fresh f hf
    · exact Nat.le_trans h.next (h'.fresh f hf)
  distinct := by
    rw [List.map_append]
    refine List.Nodup.append h.distinct h'.distinct ?_
    intro tag hnew hmore
    obtain ⟨f, hf, rfl⟩ := List.mem_map.1 hnew
    obtain ⟨f', hf', htag⟩ := List.mem_map.1 hmore
    have hlt : f.tag < t.next := t.tag_lt_next f (by rw [h.files]; simp [hf])
    have hle : t.next ≤ f'.tag := h'.fresh f' hf'
    omega
  next := Nat.le_trans h.next h'.next
  system := h'.system.trans h.system

theorem adds_put (s : UploadStore) (name : String) (content : Bytes) :
    s.Adds (s.put name content) [⟨s.next, name, content⟩] :=
  ⟨files_put s name content, by simp, by simp, Nat.le_succ _, rfl⟩

/-- Taking away a file with a fresh tag leaves the older files in place. -/
theorem Adds.without (h : s.Adds t new) (htag : s.next ≤ tag) :
    s.Adds (t.without tag) (new.filter (·.tag ≠ tag)) where
  files := by
    have hold : s.files.filter (·.tag ≠ tag) = s.files := by
      rw [List.filter_eq_self]
      intro f hf
      have := s.tag_lt_next f hf
      simp only [decide_eq_true_eq]
      omega
    simp only [UploadStore.without, h.files, List.filter_append, hold]
  fresh f hf := h.fresh f (List.mem_filter.1 hf).1
  distinct := h.distinct.sublist (List.filter_sublist.map _)
  next := h.next
  system := h.system

theorem Adds.remove (h : s.Adds t new) (htag : s.next ≤ tag) :
    ∃ rest, s.Adds (t.remove tag) rest ∧
      (s.system tag .remove = none → rest = new.filter (·.tag ≠ tag)) := by
  cases hcall : s.system tag .remove with
  | some reason =>
    refine ⟨new, ?_, by simp⟩
    rw [UploadStore.remove, h.system, hcall]
    exact h
  | none =>
    refine ⟨_, ?_, fun _ => rfl⟩
    rw [UploadStore.remove, h.system, hcall]
    exact h.without htag

/-- Taking away files with fresh tags, one after the other. -/
theorem Adds.removeAll {uploads : List Upload} (h : s.Adds t new)
    (htags : ∀ u ∈ uploads, s.next ≤ u.tag) :
    ∃ rest, s.Adds (t.removeAll uploads) rest ∧
      ((∀ u ∈ uploads, s.system u.tag .remove = none) →
        rest = new.filter fun f => f.tag ∉ uploads.map (·.tag)) := by
  induction uploads generalizing t new with
  | nil => exact ⟨new, h, fun _ => (List.filter_eq_self.2 (by simp)).symm⟩
  | cons u us ih =>
    obtain ⟨rest, hrest, hgone⟩ := h.remove (htags u (by simp))
    obtain ⟨rest', hrest', hgone'⟩ := ih hrest fun v hv => htags v (by simp [hv])
    refine ⟨rest', hrest', fun hcalls => ?_⟩
    rw [hgone' fun v hv => hcalls v (by simp [hv]), hgone (hcalls u (by simp)),
      List.filter_filter]
    refine List.filter_congr fun f _ => ?_
    simp only [List.map_cons, List.mem_cons, ne_eq, not_or, Bool.decide_and, Bool.and_comm]

end UploadStore

end VisualRules
