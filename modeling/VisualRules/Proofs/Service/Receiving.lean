import VisualRules.Proofs.Upload.Storing
import VisualRules.Service.Intake

/-!
# What is taken in of a form

A form is taken in part by part until it ends, breaks off, or a call to the file
system fails. Its whole files are then in the upload store and noted, whatever
came in front of them and behind them, and a file that breaks off is in neither.
-/

namespace VisualRules

/-- The name of the file in a part. A part for the name or the intent of a rule
holds none, whatever it says. -/
def PartHead.file? (h : PartHead) : Option String :=
  if h.name = some "rule_name" ∨ h.name = some "rule_intent" then none
  else h.fileName.filter (!·.isEmpty)

/-- The name under which the file in a part is stored. -/
def PartHead.storedName? (h : PartHead) : Option String :=
  h.file?.map FileName.sanitize

theorem PartHead.role_cases (h : PartHead) :
    (h.role = .name ∧ h.name = some "rule_name" ∧ h.storedName? = none) ∨
    (h.role = .intent ∧ h.name = some "rule_intent" ∧ h.storedName? = none) ∨
    (h.name ≠ some "rule_name" ∧ h.name ≠ some "rule_intent" ∧
      ((∃ fileName, h.role = .file fileName ∧
          h.storedName? = some (FileName.sanitize fileName)) ∨
        h.role = .ignored ∧ h.storedName? = none)) := by
  by_cases hname : h.name = some "rule_name"
  · simp [role, storedName?, file?, hname]
  by_cases hintent : h.name = some "rule_intent"
  · simp [role, storedName?, file?, hintent]
  right
  right
  refine ⟨hname, hintent, ?_⟩
  cases hfile : h.fileName.filter (!·.isEmpty) with
  | none => simp [role, storedName?, file?, hname, hintent, hfile]
  | some fileName => simp [role, storedName?, file?, hname, hintent, hfile]

namespace Form

/-- The parts that came as a whole, with their content. -/
def wholeParts : Form → List (PartHead × Bytes)
  | .done | .broken _ | .cut .. => []
  | .part h pieces rest => (h, pieces.flatten) :: rest.wholeParts

/-- The heads of all parts, also of one that breaks off. -/
def heads : Form → List PartHead
  | .done | .broken _ => []
  | .cut h .. => [h]
  | .part h _ rest => h :: rest.heads

/-- Why the form breaks off. -/
def fault? : Form → Option FormFault
  | .done => none
  | .broken fault | .cut _ _ fault => some fault
  | .part _ _ rest => rest.fault?

/-- The text in the last whole part with a field name. -/
def lastText? (field : String) (form : Form) : Option String :=
  ((form.wholeParts.filter (·.1.name = some field)).getLast?).map fun p =>
    Bytes.toMarkedText p.2

/-- The files that came as a whole, under the names that they are stored by. -/
def wholeFiles (form : Form) : List (String × Bytes) :=
  form.wholeParts.filterMap fun p => p.1.storedName?.map (·, p.2)

/-- The names under which the files of the form are stored. -/
def storedNames (form : Form) : List String :=
  form.heads.filterMap (·.storedName?)

theorem wholeFiles_part (h : PartHead) (pieces : List Bytes) (rest : Form) :
    (part h pieces rest).wholeFiles =
      (h.storedName?.map (·, pieces.flatten)).toList ++ rest.wholeFiles := by
  cases hname : h.storedName? <;> simp [wholeFiles, wholeParts, hname]

theorem storedNames_part (h : PartHead) (pieces : List Bytes) (rest : Form) :
    (part h pieces rest).storedNames = h.storedName?.toList ++ rest.storedNames := by
  cases hname : h.storedName? <;> simp [storedNames, heads, hname]

theorem storedNames_cut (h : PartHead) (pieces : List Bytes) (fault : FormFault) :
    (cut h pieces fault).storedNames = h.storedName?.toList := by
  cases hname : h.storedName? <;> simp [storedNames, heads, hname]

theorem lastText?_part (h : PartHead) (pieces : List Bytes) (rest : Form) (field : String) :
    (part h pieces rest).lastText? field =
      (rest.lastText? field).or
        (if h.name = some field then some (Bytes.toMarkedText pieces.flatten) else none) := by
  by_cases hname : h.name = some field
  · cases hrest : (rest.wholeParts.filter (·.1.name = some field)).getLast? <;>
      simp [lastText?, wholeParts, hname, hrest, List.getLast?_cons]
  · simp [lastText?, wholeParts, hname]

end Form

/-- The name and the content of a file. -/
def StoredFile.entry (f : StoredFile) : String × Bytes :=
  (f.name, f.content)

namespace Intake

variable {i j k : Intake} {names more : List String} {entries added : List (String × Bytes)}

/-- What has come in between two states: files in the directory, and notes of
some of them. -/
structure Gains (i j : Intake) (new : List StoredFile) (noted : List Upload) : Prop where
  adds : i.store.Adds j.store new
  uploads : j.uploads = i.uploads ++ noted
  tags : (noted.map (·.tag)).Sublist (new.map (·.tag))

/-- What has come in between two states are the files with some entries, each of
them noted, if calls for files with some names do not fail. -/
def Stores (i j : Intake) (names : List String) (entries : List (String × Bytes)) : Prop :=
  ∃ new noted, Gains i j new noted ∧
    (i.store.system.Serves names →
      new.map StoredFile.entry = entries ∧ noted.map (·.tag) = new.map (·.tag))

theorem Stores.of_eq (names : List String) (hstore : j.store = i.store)
    (huploads : j.uploads = i.uploads) : Stores i j names [] := by
  refine ⟨[], [], ⟨?_, by simp [huploads], by simp⟩, by simp⟩
  rw [hstore]
  exact .refl _

theorem Stores.system_eq (h : Stores i j names entries) : j.store.system = i.store.system := by
  obtain ⟨new, noted, hgains, _⟩ := h
  exact hgains.adds.system

theorem Stores.trans (h : Stores i j names entries) (h' : Stores j k more added) :
    Stores i k (names ++ more) (entries ++ added) := by
  have hsystem := h.system_eq
  obtain ⟨new, noted, hgains, hwhole⟩ := h
  obtain ⟨new', noted', hgains', hwhole'⟩ := h'
  refine ⟨new ++ new', noted ++ noted', ⟨hgains.adds.trans hgains'.adds, ?_, ?_⟩, ?_⟩
  · rw [hgains'.uploads, hgains.uploads, List.append_assoc]
  · simpa using hgains.tags.append hgains'.tags
  · intro hserves
    obtain ⟨hentries, htags⟩ := hwhole (hserves.mono (List.subset_append_left ..))
    rw [hsystem] at hwhole'
    obtain ⟨hentries', htags'⟩ := hwhole' (hserves.mono (List.subset_append_right ..))
    simp [hentries, hentries', htags, htags']

/-- A failed call leaves what has come in, and no more can be said of it. -/
theorem Stores.of_fails {reason : String} (h : Stores i j names entries)
    (hfails : i.store.system.Fails more reason) : Stores i j more added := by
  obtain ⟨new, noted, hgains, _⟩ := h
  exact ⟨new, noted, hgains, fun hserves => absurd hserves hfails.not_serves⟩

/-! ## One part -/

/-- How taking in ends behind a part that is whole or breaks off. -/
inductive Ends (system : FileSystem) (names : List String) (fault : Option FormFault) :
    Except RequestFailure Unit → Prop
  | failed {reason : String} (hfails : system.Fails names reason) :
      Ends system names fault (.error (.failed (.io reason)))
  | whole (hwhole : fault = none) : Ends system names fault (.ok ())
  | broken {f : FormFault} {message : String} (hbroken : fault = some f) :
      Ends system names fault (.error (.rejected f.status message))

theorem Ends.mono {system : FileSystem} {fault : Option FormFault}
    {r : Except RequestFailure Unit} (h : Ends system names fault r) (hsub : names ⊆ more) :
    Ends system more fault r := by
  cases h with
  | failed hfails => exact .failed (hfails.mono hsub)
  | whole hwhole => exact .whole hwhole
  | broken hbroken => exact .broken hbroken

theorem keep_spec (i : Intake) (h : PartHead) (fileName : String) (pieces : List Bytes)
    (fault : Option FormFault) :
    Ends i.store.system [FileName.sanitize fileName] fault (i.keep h fileName pieces fault).1 ∧
    Stores i (i.keep h fileName pieces fault).2 [FileName.sanitize fileName]
      (if fault = none then [(FileName.sanitize fileName, pieces.flatten)] else []) ∧
    (i.keep h fileName pieces fault).2.name = i.name ∧
    (i.keep h fileName pieces fault).2.intent = i.intent := by
  have hbroken : (fault.map fun _ => (Except.error brokenContent : Except String Bytes)) =
      (fault.map fun _ => brokenContent).map .error := by
    cases fault <;> rfl
  have hput := i.store.adds_put (FileName.sanitize fileName)
  have hspec := i.store.persisted_persist fileName h.contentType pieces
    (fault.map fun _ => brokenContent)
  simp only [keep, hbroken]
  generalize i.store.persist fileName h.contentType _ = kept at hspec
  cases hspec with
  | failed hfails hleft =>
    refine ⟨.failed hfails, ?_, rfl, rfl⟩
    rcases hleft with rfl | ⟨part, rfl⟩
    · exact (Stores.of_eq [] rfl rfl).of_fails hfails
    · exact ⟨_, [], ⟨hput part, by simp, by simp⟩, fun hserves => absurd hserves hfails.not_serves⟩
  | whole hwhole =>
    have hfault : fault = none := by simpa using hwhole
    refine ⟨.whole hfault, ?_, rfl, rfl⟩
    refine ⟨_, _, ⟨hput pieces.flatten, rfl, by simp⟩, fun _ => ?_⟩
    simp [hfault, StoredFile.entry]
  | broken hcut =>
    obtain ⟨f, rfl, rfl⟩ := Option.map_eq_some_iff.1 hcut
    refine ⟨.broken rfl, ?_, rfl, rfl⟩
    obtain ⟨rest, hrest, hgone⟩ := (hput pieces.flatten).remove (Nat.le_refl _)
    refine ⟨rest, [], ⟨hrest, by simp, by simp⟩, fun hserves => ?_⟩
    simp [hgone (hserves _ .remove trivial)]

theorem take_spec (i : Intake) (h : PartHead) (pieces : List Bytes) :
    Ends i.store.system h.storedName?.toList none (i.take h pieces).1 ∧
    Stores i (i.take h pieces).2 h.storedName?.toList
      (h.storedName?.map (·, pieces.flatten)).toList ∧
    (i.take h pieces).2.name =
      (if h.name = some "rule_name" then some (Bytes.toMarkedText pieces.flatten)
        else none).or i.name ∧
    (i.take h pieces).2.intent =
      (if h.name = some "rule_intent" then some (Bytes.toMarkedText pieces.flatten)
        else none).or i.intent := by
  rcases h.role_cases with ⟨hrole, hname, hstored⟩ | ⟨hrole, hname, hstored⟩ |
      ⟨hname, hintent, ⟨fileName, hrole, hstored⟩ | ⟨hrole, hstored⟩⟩
  · simp only [take, hrole, hstored]
    exact ⟨.whole rfl, Stores.of_eq [] rfl rfl, by simp [hname], by simp [hname]⟩
  · simp only [take, hrole, hstored]
    exact ⟨.whole rfl, Stores.of_eq [] rfl rfl, by simp [hname], by simp [hname]⟩
  · rw [take, hrole, hstored, if_neg hname, if_neg hintent]
    exact i.keep_spec h fileName pieces none
  · rw [take, hrole, hstored, if_neg hname, if_neg hintent]
    exact ⟨.whole rfl, Stores.of_eq [] rfl rfl, rfl, rfl⟩

theorem breakOff_spec (i : Intake) (h : PartHead) (pieces : List Bytes) (fault : FormFault) :
    Ends i.store.system h.storedName?.toList (some fault) (i.breakOff h pieces fault).1 ∧
    Stores i (i.breakOff h pieces fault).2 h.storedName?.toList [] := by
  rcases h.role_cases with ⟨hrole, _, hstored⟩ | ⟨hrole, _, hstored⟩ |
      ⟨_, _, ⟨fileName, hrole, hstored⟩ | ⟨hrole, hstored⟩⟩
  case inr.inr.inl =>
    simp only [breakOff, hrole, hstored]
    have hkeep := i.keep_spec h fileName pieces (some fault)
    exact ⟨hkeep.1, hkeep.2.1⟩
  all_goals
    simp only [breakOff, hrole, hstored]
    exact ⟨.broken rfl, Stores.of_eq [] rfl rfl⟩

/-! ## The whole form -/

theorem receive_spec (form : Form) (i : Intake) :
    Ends i.store.system form.storedNames form.fault? (receive form i).1 ∧
    Stores i (receive form i).2 form.storedNames form.wholeFiles ∧
    ((receive form i).1 = .ok () →
      (receive form i).2.name = (form.lastText? "rule_name").or i.name ∧
      (receive form i).2.intent = (form.lastText? "rule_intent").or i.intent) := by
  induction form generalizing i with
  | done => exact ⟨.whole rfl, Stores.of_eq _ rfl rfl, fun _ => ⟨rfl, rfl⟩⟩
  | broken fault => exact ⟨.broken rfl, Stores.of_eq _ rfl rfl, fun h => nomatch h⟩
  | cut h pieces fault =>
    obtain ⟨hends, hstores⟩ := i.breakOff_spec h pieces fault
    rw [Form.storedNames_cut]
    refine ⟨hends, hstores, fun hok => ?_⟩
    rw [receive] at hok
    rw [hok] at hends
    cases hends with
    | whole hwhole => nomatch hwhole
  | part h pieces rest ih =>
    obtain ⟨hends, hstores, hname, hintent⟩ := i.take_spec h pieces
    have hfirst : h.storedName?.toList ⊆ (Form.part h pieces rest).storedNames := by
      rw [Form.storedNames_part]
      exact List.subset_append_left ..
    rw [receive]
    rcases htaken : i.take h pieces with ⟨e | ⟨⟩, j⟩
    · rw [htaken] at hends hstores
      cases hends with
      | failed hfails =>
        have hfails := hfails.mono hfirst
        exact ⟨.failed hfails, hstores.of_fails hfails, fun h => nomatch h⟩
      | broken hbroken => nomatch hbroken
    · rw [htaken] at hstores hname hintent
      obtain ⟨hends', hstores', htexts⟩ := ih j
      refine ⟨?_, ?_, fun hok => ?_⟩
      · rw [hstores.system_eq] at hends'
        refine hends'.mono ?_
        rw [Form.storedNames_part]
        exact List.subset_append_right ..
      · rw [Form.storedNames_part, Form.wholeFiles_part]
        exact hstores.trans hstores'
      · rw [(htexts hok).1, (htexts hok).2, hname, hintent, Form.lastText?_part,
          Form.lastText?_part, Option.or_assoc, Option.or_assoc]
        exact ⟨rfl, rfl⟩

end Intake

end VisualRules
