import VisualRules.Bytes.Base64
import VisualRules.Failure
import VisualRules.Upload.ContentType

/-!
# The upload store

The directory of uploads. A file is written as its bytes come in, under a name of its own, and is
taken away again if they break off, so that the directory holds whole files only. Each call to the
file system may fail.
-/

namespace VisualRules

/-- A file in the upload directory. The tag sets it apart from files of the same name. -/
structure StoredFile where
  tag : Nat
  name : String
  content : Bytes
deriving DecidableEq, Repr

/-- A file that has been received as a whole. -/
structure Upload where
  tag : Nat
  storedName : String
  /-- The name as the client sent it. -/
  fileName : String
  contentType : String
  size : Nat
deriving DecidableEq, Repr

/-- Why a file could not be received. -/
inductive UploadFailure
  | io (reason : String)
  /-- The bytes broke off or were malformed. -/
  | stream (fileName reason : String)
deriving DecidableEq, Repr

/-- The text of a failure. -/
def UploadFailure.message : UploadFailure → String
  | .io reason => "failed to store upload: " ++ reason
  | .stream fileName reason => "failed to read upload '" ++ fileName ++ "': " ++ reason

namespace StoredFile

/-- The number of characters that a tag is written in. -/
def tagLength : Nat := 36

/-- The written form of a tag. -/
def tagText (tag : Nat) : String :=
  let ds := (Nat.toDigits 16 tag).take tagLength
  String.ofList (List.replicate (tagLength - ds.length) '0' ++ ds)

/-- The one component under which a file stands in the directory. -/
def entryName (tag : Nat) (name : String) : String :=
  tagText tag ++ "-" ++ name

/-- The most bytes that the name of a file may have. -/
def longestName : Nat := 255

/-- Whether a name is short enough behind its tag. -/
def fits (name : String) : Bool :=
  tagLength + 1 + name.utf8ByteSize ≤ longestName

end StoredFile

/-! ## The file system -/

/-- What the file system is asked to do for one file. -/
inductive FileCall
  | create (name : String)
  /-- To write a piece behind the bytes that have been written. -/
  | write (written : Nat)
  | flush
  | read
  | remove
deriving DecidableEq, Repr

/-- How the calls for the file with a tag come out: the reason why one fails, if it does. -/
abbrev FileSystem := Nat → FileCall → Option String

/-- A file system on which nothing fails but the creation of files with long names. -/
def FileSystem.usual : FileSystem
  | _, .create name => if StoredFile.fits name then none else some "File name too long (os error 36)"
  | _, _ => none

/-! ## The directory -/

/-- The upload directory. No tag is given out twice, also not when its file has gone. -/
structure UploadStore where
  files : List StoredFile := []
  next : Nat := 0
  tag_lt_next : ∀ f ∈ files, f.tag < next := by simp
  system : FileSystem := .usual

/-- The directory without files. -/
def UploadStore.empty : UploadStore := {}

instance : Inhabited UploadStore := ⟨.empty⟩

namespace UploadStore

/-- Starts a file under the next tag. -/
def create (s : UploadStore) (name : String) : UploadStore where
  files := s.files ++ [⟨s.next, name, []⟩]
  next := s.next + 1
  system := s.system
  tag_lt_next f hf := by
    rcases List.mem_append.1 hf with h | h
    · exact Nat.lt_succ_of_lt (s.tag_lt_next f h)
    · simp only [List.mem_singleton] at h
      simp [h]

/-- Writes bytes to the end of a file. -/
def append (s : UploadStore) (tag : Nat) (bytes : Bytes) : UploadStore where
  files := s.files.map fun f => if f.tag = tag then { f with content := f.content ++ bytes } else f
  next := s.next
  system := s.system
  tag_lt_next f hf := by
    obtain ⟨g, hg, rfl⟩ := List.mem_map.1 hf
    have h := s.tag_lt_next g hg
    by_cases ht : g.tag = tag <;> simpa [ht] using h

/-- The directory without the file with a tag. -/
def without (s : UploadStore) (tag : Nat) : UploadStore where
  files := s.files.filter (·.tag ≠ tag)
  next := s.next
  system := s.system
  tag_lt_next f hf := s.tag_lt_next f (List.mem_filter.1 hf).1

/-- Takes a file away, if it is there and the file system lets it go. -/
def remove (s : UploadStore) (tag : Nat) : UploadStore :=
  match s.system tag .remove with
  | some _ => s
  | none => s.without tag

/-- Takes files away. -/
def removeAll (s : UploadStore) (uploads : List Upload) : UploadStore :=
  uploads.foldl (fun s u => s.remove u.tag) s

/-- The file with a tag. -/
def file? (s : UploadStore) (tag : Nat) : Option StoredFile :=
  s.files.find? (·.tag = tag)

/-- Writes pieces to a file as they come, and counts the bytes. A file whose bytes break off is
taken away; one that cannot be written is left as it is. -/
def receive (fileName : String) (tag : Nat) :
    List (Except String Bytes) → Nat → UploadStore → Except UploadFailure Nat × UploadStore
  | [], size, s =>
    match s.system tag .flush with
    | some reason => (.error (.io reason), s)
    | none => (.ok size, s)
  | .error reason :: _, _, s => (.error (.stream fileName reason), s.remove tag)
  | .ok bytes :: pieces, size, s =>
    match s.system tag (.write size) with
    | some reason => (.error (.io reason), s)
    | none => receive fileName tag pieces (size + bytes.length) (s.append tag bytes)

/-- Stores a file that comes in pieces. -/
def persist (s : UploadStore) (fileName : String) (declared : Option String)
    (pieces : List (Except String Bytes)) : Except UploadFailure Upload × UploadStore :=
  let name := FileName.sanitize fileName
  match s.system s.next (.create name) with
  | some reason => (.error (.io reason), s)
  | none =>
    match receive fileName s.next pieces 0 (s.create name) with
    | (.ok size, t) =>
      let contentType := ContentType.resolve fileName declared
      (.ok ⟨s.next, name, fileName, contentType, size⟩, t)
    | (.error f, t) => (.error f, t)

end UploadStore

namespace Upload

/-- The kind of media in a file. -/
def mediaKind? (u : Upload) : Option MediaKind :=
  ContentType.mediaKind? u.contentType

/-- The form in which bytes stand in a message, with their content type. -/
def dataUri (contentType : String) (bytes : Bytes) : String :=
  "data:" ++ Text.lowerAscii (ContentType.essence contentType) ++ ";base64," ++
    String.ofList (Base64.encode bytes)

/-- The file as a reference for the model. -/
def reference (s : UploadStore) (u : Upload) : Except Failure MediaReference :=
  match u.mediaKind? with
  | none => .error (.unsupportedMedia u.fileName u.contentType)
  | some kind =>
    match s.system u.tag .read, s.file? u.tag with
    | some reason, _ => .error (.io reason)
    | none, none => .error (.io "No such file or directory (os error 2)")
    | none, some f => .ok ⟨kind, u.fileName, dataUri u.contentType f.content⟩

/-- The references of files, without those that are not supported, and how many of these came in
front of a failure. -/
def references (s : UploadStore) : List Upload → Except Failure (List MediaReference) × Nat
  | [] => (.ok [], 0)
  | u :: us =>
    match u.reference s with
    | .error (.unsupportedMedia ..) =>
      let (r, skipped) := references s us
      (r, skipped + 1)
    | .error f => (.error f, 0)
    | .ok m =>
      let (r, skipped) := references s us
      (r.map (m :: ·), skipped)

end Upload

end VisualRules
