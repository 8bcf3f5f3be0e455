import VisualRules.Proofs.Upload.Pieces
import VisualRules.Proofs.Upload.Referencing

/-!
# Where a file is stored

The name under which a file is stored is made from the last component of the
name that the client sent, and is harmless whatever that was. Behind its tag it
is one component of a path, so that the file stands right in the upload
directory.
-/

namespace VisualRules

namespace FileName

/-! ## Harmless names -/

/-- Letters and digits of ASCII, dots, hyphens and underscores. -/
def IsPlain (c : Char) : Prop :=
  ('A' ≤ c ∧ c ≤ 'Z') ∨ ('a' ≤ c ∧ c ≤ 'z') ∨ ('0' ≤ c ∧ c ≤ '9') ∨
    c = '.' ∨ c = '-' ∨ c = '_'

theorem isKept_iff {c : Char} : isKept c = true ↔ IsPlain c := by
  have hupper : c.isUpper = true ↔ 'A' ≤ c ∧ c ≤ 'Z' := decide_eq_true_iff
  have hlower : c.isLower = true ↔ 'a' ≤ c ∧ c ≤ 'z' := by
    show (decide ('a' ≤ c) && decide (c ≤ 'z')) = true ↔ _
    rw [Bool.and_eq_true, decide_eq_true_eq, decide_eq_true_eq]
  have hdigit : c.isDigit = true ↔ '0' ≤ c ∧ c ≤ '9' := by
    show (decide ('0' ≤ c) && decide (c ≤ '9')) = true ↔ _
    rw [Bool.and_eq_true, decide_eq_true_eq, decide_eq_true_eq]
  show (((c.isUpper || c.isLower) || c.isDigit) || decide (c = '.') || decide (c = '-')
    || decide (c = '_')) = true ↔ _
  simp only [IsPlain, Bool.or_eq_true, decide_eq_true_eq, hupper, hlower, hdigit, or_assoc]

instance : DecidablePred IsPlain := fun _ =>
  decidable_of_iff _ isKept_iff

/-- A name of plain characters that is not hidden. -/
structure Harmless (name : List Char) : Prop where
  ne_nil : name ≠ []
  plain : ∀ c ∈ name, IsPlain c
  shown : name.head? ≠ some '.'

/-- A component of a path, on whatever system. -/
def Unseparated (cs : List Char) : Prop :=
  '/' ∉ cs ∧ '\\' ∉ cs

/-- A base is what stands behind the last separator of a path, or all of a path
that has none. -/
structure IsBase (raw base : List Char) : Prop where
  single : Unseparated base
  behind : raw = base ∨ ∃ front, raw = front ++ '/' :: base ∨ raw = front ++ '\\' :: base

variable {raw base name : List Char} {c : Char}

theorem plain_of_all (h : name.all isKept = true) : ∀ c ∈ name, IsPlain c :=
  fun c hc => isKept_iff.1 (List.all_eq_true.1 h c hc)

theorem isSeparator_iff : isSeparator c = true ↔ c = '/' ∨ c = '\\' := by
  rw [isSeparator, Bool.or_eq_true, decide_eq_true_eq, decide_eq_true_eq]

theorem unseparated_of_plain (h : ∀ c ∈ name, IsPlain c) : Unseparated name :=
  ⟨fun hc => absurd (h _ hc) (by decide), fun hc => absurd (h _ hc) (by decide)⟩

theorem Unseparated.not_isSeparator (h : Unseparated name) (hc : c ∈ name) :
    isSeparator c = false := by
  rw [← Bool.not_eq_true, isSeparator_iff]
  rintro (rfl | rfl)
  · exact h.1 hc
  · exact h.2 hc

theorem Harmless.isBase (h : Harmless name) : IsBase name name :=
  ⟨unseparated_of_plain h.plain, .inl rfl⟩

/-! ## The last component -/

theorem isBase_lastComponent (raw : List Char) : IsBase raw (lastComponent raw) := by
  have hsplit : raw = (raw.reverse.dropWhile (!isSeparator ·)).reverse ++ lastComponent raw := by
    rw [lastComponent, ← List.reverse_append, List.takeWhile_append_dropWhile,
      List.reverse_reverse]
  have hnone : ∀ c ∈ lastComponent raw, isSeparator c = false := by
    intro c hc
    simpa using List.mem_takeWhile_imp (List.mem_reverse.1 hc)
  refine ⟨⟨fun hc => ?_, fun hc => ?_⟩, ?_⟩
  · exact absurd (hnone _ hc) (by decide)
  · exact absurd (hnone _ hc) (by decide)
  · cases hrest : raw.reverse.dropWhile (!isSeparator ·) with
    | nil =>
      rw [hrest] at hsplit
      exact .inl hsplit
    | cons c rest =>
      -- What the search stopped at is the separator in front of the component.
      have hc : isSeparator c = true := by
        have hhead : c ∈ (raw.reverse.dropWhile (!isSeparator ·)).head? := by
          rw [hrest]
          rfl
        simpa using Text.head_dropWhile hhead
      rw [hrest, List.reverse_cons, List.append_assoc, List.singleton_append] at hsplit
      rcases isSeparator_iff.1 hc with rfl | rfl
      · exact .inr ⟨_, .inl hsplit⟩
      · exact .inr ⟨_, .inr hsplit⟩

theorem IsBase.lastComponent_eq (h : IsBase raw base) : lastComponent raw = base := by
  have hall : ∀ c ∈ base.reverse, (!isSeparator c) = true := by
    intro c hc
    rw [h.single.not_isSeparator (List.mem_reverse.1 hc), Bool.not_false]
  have htaken : ∀ (front : List Char) (c : Char), isSeparator c = true →
      lastComponent (front ++ c :: base) = base := by
    intro front c hc
    rw [lastComponent, List.reverse_append, List.reverse_cons, List.append_assoc,
      List.takeWhile_append_of_pos hall, List.singleton_append,
      List.takeWhile_cons_of_neg (by simpa using hc), List.append_nil, List.reverse_reverse]
  rcases h.behind with rfl | ⟨front, rfl | rfl⟩
  · rw [lastComponent, List.takeWhile_eq_self_iff.2 hall, List.reverse_reverse]
  · exact htaken front '/' rfl
  · exact htaken front '\\' rfl

theorem existsUnique_isBase (raw : List Char) : ∃! base, IsBase raw base :=
  ⟨lastComponent raw, isBase_lastComponent raw, fun _ h => h.lastComponent_eq.symm⟩

/-! ## The stored name -/

/-- What is left of a last component when it has been cleaned. -/
def cleaned (base : List Char) : List Char :=
  (base.map fun c => if isKept c then c else '_').dropWhile (· = '.')

theorem sanitize_eq {raw : String} (h : IsBase raw.toList base) :
    sanitize raw = match cleaned base with
      | [] => fallback
      | cs => String.ofList cs := by
  rw [← h.lastComponent_eq]
  rfl

theorem plain_of_mem_cleaned (hc : c ∈ cleaned base) : IsPlain c := by
  obtain ⟨raw, -, rfl⟩ := List.mem_map.1 ((List.dropWhile_sublist _).mem hc)
  by_cases hkept : isKept raw = true
  · rw [if_pos hkept]
    exact isKept_iff.1 hkept
  · rw [if_neg hkept]
    decide

theorem cleaned_of_harmless (h : Harmless base) : cleaned base = base := by
  have hsame : (base.map fun c => if isKept c then c else '_') = base := by
    refine List.map_congr_left (g := id) (fun c hc => ?_) |>.trans base.map_id
    rw [if_pos (isKept_iff.2 (h.plain c hc)), id]
  rw [cleaned, hsame]
  refine Text.dropWhile_of_head fun c hc => ?_
  rw [decide_eq_false_iff_not]
  rintro rfl
  exact h.shown hc

/-- Whatever the client sends, the stored name is harmless. -/
theorem harmless_sanitize (raw : String) : Harmless (sanitize raw).toList := by
  rw [sanitize_eq (isBase_lastComponent raw.toList)]
  cases hcs : cleaned (lastComponent raw.toList) with
  | nil => exact ⟨by decide, plain_of_all (by decide), by decide⟩
  | cons c cs =>
    rw [String.toList_ofList]
    refine ⟨List.cons_ne_nil c cs, fun d hd => plain_of_mem_cleaned (hcs ▸ hd), fun hdot => ?_⟩
    -- Dots in front have been dropped.
    rw [← hcs] at hdot
    exact absurd (Text.head_dropWhile hdot) (by decide)

/-- A harmless last component is kept. -/
theorem sanitize_of_harmless {raw : String} (hbase : IsBase raw.toList base)
    (h : Harmless base) : (sanitize raw).toList = base := by
  rw [sanitize_eq hbase, cleaned_of_harmless h]
  cases base with
  | nil => exact absurd rfl h.ne_nil
  | cons c cs => exact String.toList_ofList

theorem sanitize_congr {raw other : String} (h : IsBase raw.toList base)
    (h' : IsBase other.toList base) : sanitize other = sanitize raw := by
  rw [sanitize_eq h, sanitize_eq h']

theorem sanitize_sanitize (raw : String) : sanitize (sanitize raw) = sanitize raw :=
  String.toList_injective
    (sanitize_of_harmless (harmless_sanitize raw).isBase (harmless_sanitize raw))

/-! ## Paths -/

/-- The path of an entry of a directory. There is a separator between the two,
unless the directory ends with one, and an absolute path stands for itself. -/
def pathIn (dir entry : List Char) : List Char :=
  if entry.head? = some '/' then entry
  else if dir = [] ∨ dir.getLast? = some '/' then dir ++ entry
  else dir ++ '/' :: entry

/-- A path leads into a directory and to one component there, which names neither
the directory itself nor the one above it. -/
def OneBelow (dir path : List Char) : Prop :=
  dir <+: path ∧ ∃ entry, components path = components dir ++ [entry] ∧
    Unseparated entry ∧ entry ≠ [] ∧ entry ≠ ['.'] ∧ entry ≠ ['.', '.']

theorem components_separated (front back : List Char) :
    components (front ++ '/' :: back) = components front ++ components back := by
  rw [components, List.splitOnP_append_cons _ _ (by decide), List.filter_append]
  rfl

theorem components_single (h : Unseparated name) (hne : name ≠ []) (hdot : name ≠ ['.']) :
    components name = [name] := by
  have hnone : ∀ c ∈ name, decide (c = '/') = false := by
    intro c hc
    rw [decide_eq_false_iff_not]
    rintro rfl
    exact h.1 hc
  rw [components, List.splitOnP_eq_singleton hnone, List.filter_singleton]
  simp [hne, hdot]

theorem oneBelow_pathIn (dir : List Char) (h : Unseparated name) (hne : name ≠ [])
    (hdot : name ≠ ['.']) (hdots : name ≠ ['.', '.']) : OneBelow dir (pathIn dir name) := by
  have hsingle := components_single h hne hdot
  have hrelative : name.head? ≠ some '/' := fun hhead => h.1 (List.mem_of_head? hhead)
  refine ⟨?_, name, ?_, h, hne, hdot, hdots⟩
  · rw [pathIn, if_neg hrelative]
    split
    · exact List.prefix_append dir name
    · exact List.prefix_append dir _
  · rw [pathIn, if_neg hrelative]
    split
    · rename_i hdir
      rcases hdir with rfl | hlast
      · exact hsingle
      · -- The separator at the end of the directory is the one in front of the name.
        obtain ⟨front, rfl⟩ := List.getLast?_eq_some_iff.1 hlast
        rw [List.append_assoc, List.singleton_append, components_separated,
          components_separated, hsingle, List.append_assoc]
        rfl
    · rw [components_separated, hsingle]

end FileName

namespace StoredFile

open FileName

theorem plain_of_mem_toDigits {n : Nat} {c : Char} (hc : c ∈ Nat.toDigits 16 n) :
    IsPlain c := by
  induction n using Nat.strongRecOn with
  | ind n ih =>
    have hdigit : ∀ d < 16, IsPlain (Nat.digitChar d) := by decide
    rcases Nat.lt_or_ge n 16 with hsmall | hlarge
    · rw [Nat.toDigits_of_lt_base hsmall, List.mem_singleton] at hc
      exact hc ▸ hdigit n hsmall
    · rw [Nat.toDigits_of_base_le (by decide) hlarge, List.mem_append, List.mem_singleton] at hc
      rcases hc with hc | rfl
      · exact ih _ (Nat.div_lt_self (by omega) (by decide)) hc
      · exact hdigit _ (Nat.mod_lt _ (by decide))

theorem plain_tagText {tag : Nat} {c : Char} (hc : c ∈ (tagText tag).toList) : IsPlain c := by
  rw [tagText, String.toList_ofList, List.mem_append] at hc
  rcases hc with hc | hc
  · rw [List.eq_of_mem_replicate hc]
    decide
  · exact plain_of_mem_toDigits (List.mem_of_mem_take hc)

theorem toList_entryName (tag : Nat) (name : String) :
    (entryName tag name).toList = (tagText tag).toList ++ '-' :: name.toList := by
  rw [entryName, String.toList_append, String.toList_append, List.append_assoc]
  rfl

/-- Where a file of a directory stands. -/
def path (dir : String) (f : StoredFile) : List Char :=
  pathIn dir.toList (entryName f.tag f.name).toList

/-- A plain name behind its tag is one component, whatever else it is. -/
theorem oneBelow_path (dir : String) {f : StoredFile} (h : ∀ c ∈ f.name.toList, IsPlain c) :
    OneBelow dir.toList (f.path dir) := by
  have hplain : ∀ c ∈ (entryName f.tag f.name).toList, IsPlain c := by
    rw [toList_entryName]
    intro c hc
    rcases List.mem_append.1 hc with hc | hc
    · exact plain_tagText hc
    · rcases List.mem_cons.1 hc with rfl | hc
      · decide
      · exact h c hc
  -- The hyphen behind the tag tells the entry from the names of directories.
  have hhyphen : '-' ∈ (entryName f.tag f.name).toList := by
    rw [toList_entryName]
    simp
  refine oneBelow_pathIn dir.toList (unseparated_of_plain hplain) ?_ ?_ ?_
  · exact List.ne_nil_of_mem hhyphen
  · intro hdot
    rw [hdot] at hhyphen
    exact absurd hhyphen (by decide)
  · intro hdots
    rw [hdots] at hhyphen
    exact absurd hhyphen (by decide)

end StoredFile

namespace UploadStore

theorem mem_of_mem_remove {s : UploadStore} {tag : Nat} {f : StoredFile}
    (hf : f ∈ (s.remove tag).files) : f ∈ s.files := by
  unfold remove at hf
  split at hf
  · exact hf
  · exact (List.mem_filter.1 hf).1

/-- Storing adds files under the name made from the one that was sent, and no
others, whatever becomes of the bytes and of the calls to the file system. -/
theorem name_of_mem_persist {s : UploadStore} {fileName : String} {declared : Option String}
    {items : List (Except String Bytes)} {f : StoredFile}
    (hf : f ∈ (s.persist fileName declared items).2.files) (hnew : f ∉ s.files) :
    f.name = FileName.sanitize fileName := by
  have hput : ∀ content, f ∈ (s.put (FileName.sanitize fileName) content).files →
      f.name = FileName.sanitize fileName := by
    intro content hmem
    rw [files_put, List.mem_append, List.mem_singleton] at hmem
    rw [hmem.resolve_left hnew]
  obtain ⟨content, broken, hpersisted⟩ := exists_persisted s fileName declared items
  generalize s.persist fileName declared items = outcome at hf hpersisted
  cases hpersisted with
  | failed _ hleft =>
    rcases hleft with rfl | ⟨part, rfl⟩
    · exact absurd hf hnew
    · exact hput part hf
  | whole _ => exact hput content hf
  | broken _ => exact hput content (mem_of_mem_remove hf)

end UploadStore

/-- **Stored files stay in the upload directory.** The stored name is harmless,
whatever name the client sends. It goes by the last component of that name
alone, keeps it if it is harmless already, and is not changed by being made
again. A file that is stored under it stands right in the upload directory. -/
theorem FileName.sanitize_stays_inside (raw : String) :
    Harmless (sanitize raw).toList ∧ Unseparated (sanitize raw).toList ∧
      sanitize (sanitize raw) = sanitize raw ∧
      (∃! base, IsBase raw.toList base) ∧
      (∀ base, IsBase raw.toList base →
        (∀ other : String, IsBase other.toList base → sanitize other = sanitize raw) ∧
          (Harmless base → (sanitize raw).toList = base)) ∧
      (∀ dir tag content, OneBelow dir.toList (StoredFile.path dir ⟨tag, sanitize raw, content⟩)) ∧
      ∀ dir (s : UploadStore) declared items,
        ∀ f ∈ (s.persist raw declared items).2.files, f ∉ s.files →
          f.name = sanitize raw ∧ OneBelow dir.toList (f.path dir) := by
  have hharmless := harmless_sanitize raw
  refine ⟨hharmless, unseparated_of_plain hharmless.plain, sanitize_sanitize raw,
    existsUnique_isBase raw.toList, fun base hbase => ⟨fun other hother => ?_, ?_⟩, ?_, ?_⟩
  · exact sanitize_congr hbase hother
  · exact sanitize_of_harmless hbase
  · intro dir tag content
    exact StoredFile.oneBelow_path dir hharmless.plain
  · intro dir s declared items f hf hnew
    have hname := UploadStore.name_of_mem_persist hf hnew
    exact ⟨hname, f.oneBelow_path dir (hname ▸ hharmless.plain)⟩

/-- A name with a drive in front is stored like one from the root, and next to
another file of the name. -/
theorem FileName.sanitize_stays_inside_drive :
    (IsBase "C:\\cams\\gate.png".toList "gate.png".toList ∧
        IsBase "/gate.png".toList "gate.png".toList ∧ Harmless "gate.png".toList) ∧
      (sanitize "/gate.png" = sanitize "C:\\cams\\gate.png" ∧
        (sanitize "C:\\cams\\gate.png").toList = "gate.png".toList) ∧
      ∃ f ∈ (UploadStore.onePhoto.persist "C:\\cams\\gate.png" none [.ok [2]]).2.files,
        f ∉ UploadStore.onePhoto.files ∧ OneBelow "uploads".toList (f.path "uploads") := by
  have hdrive : IsBase "C:\\cams\\gate.png".toList "gate.png".toList :=
    ⟨⟨by decide, by decide⟩, .inr ⟨"C:\\cams".toList, .inr rfl⟩⟩
  have hroot : IsBase "/gate.png".toList "gate.png".toList :=
    ⟨⟨by decide, by decide⟩, .inr ⟨[], .inl rfl⟩⟩
  have hharmless : Harmless "gate.png".toList :=
    ⟨by decide, plain_of_all (by decide), by decide⟩
  obtain ⟨-, -, -, -, hbase, -, hstored⟩ := sanitize_stays_inside "C:\\cams\\gate.png"
  obtain ⟨hsame, hkept⟩ := hbase _ hdrive
  have hfile : (⟨1, "gate.png", [2]⟩ : StoredFile) ∈
      (UploadStore.onePhoto.persist "C:\\cams\\gate.png" none [.ok [2]]).2.files := by
    decide +kernel
  have hnew : (⟨1, "gate.png", [2]⟩ : StoredFile) ∉ UploadStore.onePhoto.files := by
    decide +kernel
  exact ⟨⟨hdrive, hroot, hharmless⟩, ⟨hsame _ hroot, hkept hharmless⟩,
    _, hfile, hnew, (hstored "uploads" _ _ _ _ hfile hnew).2⟩

end VisualRules
