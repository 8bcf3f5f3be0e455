import VisualRules.Proofs.Service.Answering
import VisualRules.Proofs.Service.Receiving
import VisualRules.Proofs.Validation.RoundTrip

/-!
# What a form is answered

A rule is in an answer only if the generator was asked once and gave a candidate
that passed all checks, and then it is that candidate. Any other answer is an
error that has a cause in the form, the file system or the generator, and its
status tells which.
-/

namespace VisualRules

open Json (Value)

/-! ## Names in an answer -/

namespace Json.Value

mutual

/-- The names of the members of all objects in a value. -/
def memberNames : Value → List String
  | .list vs => namesInEntries vs
  | .object ms => namesInMembers ms
  | .null | .boolean _ | .integer _ | .decimal _ | .string _ => []

/-- The names in the entries of a list. -/
def namesInEntries : List Value → List String
  | [] => []
  | v :: vs => v.memberNames ++ namesInEntries vs

/-- The names in the members of an object, their own among them. -/
def namesInMembers : List (String × Value) → List String
  | [] => []
  | (key, v) :: ms => key :: (v.memberNames ++ namesInMembers ms)

end

end Json.Value

/-- The fields of a candidate. -/
def Candidate.fieldNames : List String :=
  ["visual_detection", "trigger_logic", "alert_message"]

/-! ## Statuses -/

/-- Which status tells of a failure, and what else its error object tells. -/
inductive RequestFailure.ToldBy : RequestFailure → Nat → List (String × Value) → Prop
  | configuration {reason : String} {members : List (String × Value)} :
      ToldBy (.failed (.configuration reason)) 503 members
  | invalidRule {d : Defect} {members : List (String × Value)}
      (hrule : members.lookup "rule" = some (.integer d.check.number))
      (hsubject : members.lookup "subject" = d.subject?.map .string) :
      ToldBy (.failed (.invalidRule d)) 422 members
  | timeout {nanos : Nat} {members : List (String × Value)} :
      ToldBy (.failed (.model (.timeout nanos))) 504 members
  | model {f : ModelFailure} {members : List (String × Value)}
      (hother : ∀ nanos, f ≠ .timeout nanos) :
      ToldBy (.failed (.model f)) 502 members
  | unsupportedMedia {fileName contentType : String} {members : List (String × Value)} :
      ToldBy (.failed (.unsupportedMedia fileName contentType)) 400 members
  | io {reason : String} {members : List (String × Value)} :
      ToldBy (.failed (.io reason)) 500 members
  | serialization {reason : String} {members : List (String × Value)} :
      ToldBy (.failed (.serialization reason)) 500 members
  | internal {reason : String} {members : List (String × Value)} :
      ToldBy (.failed (.internal reason)) 500 members
  | rejected {code : Nat} {reason : String} {members : List (String × Value)} :
      ToldBy (.rejected code reason) code members
  | badRequest {reason : String} {members : List (String × Value)} :
      ToldBy (.badRequest reason) 400 members

/-- An answer that is one error object, and holds no part of a rule. -/
structure RequestFailure.Answers (f : RequestFailure) (r : Response)
    (members : List (String × Value)) : Prop where
  body : r.body = .json (.object [("error", .object members)])
  told : f.ToldBy r.status members
  noRule : ∀ name ∈ Json.Value.memberNames (.object [("error", .object members)]),
    name ∉ Candidate.fieldNames

/-! ## Outcomes -/

/-- A text that is there and not blank. -/
def Text.Given (text : Option String) : Prop :=
  ∃ s, text = some s ∧ Text.isBlank s = false

/-- A form that is read to its end and has both texts. -/
structure Form.Complete (form : Form) : Prop where
  whole : form.fault? = none
  name : Text.Given (form.lastText? "rule_name")
  intent : Text.Given (form.lastText? "rule_intent")

/-- What a form came to: which prompts the generator was given, and the rule or
why there is none. -/
inductive Service.Outcome (s : Service) (g : Generator) (form : Form) :
    List Prompt → Except RequestFailure Rule → Prop
  | notReady {f : Failure} (hready : g.ready = .error f) :
      Outcome s g form [] (.error (.failed f))
  | unread {fault : FormFault} {reason : String} (hready : g.ready = .ok ())
      (hfault : form.fault? = some fault) :
      Outcome s g form [] (.error (.rejected fault.status reason))
  | unstored {reason : String} (hready : g.ready = .ok ())
      (hfails : s.uploads.system.Fails form.storedNames reason) :
      Outcome s g form [] (.error (.failed (.io reason)))
  | incomplete {reason : String} (hready : g.ready = .ok ()) (hwhole : form.fault? = none)
      (hincomplete : ¬ form.Complete) :
      Outcome s g form [] (.error (.badRequest reason))
  | unanswered {p : Prompt} {f : Failure} (hready : g.ready = .ok ())
      (hcomplete : form.Complete) (hgiven : (g.generate p).1 = .error f) :
      Outcome s g form [p] (.error (.failed f))
  | invalid {p : Prompt} {c : Candidate} {d : Defect} (hready : g.ready = .ok ())
      (hcomplete : form.Complete) (hgiven : (g.generate p).1 = .ok c)
      (hinvalid : c.validate = .error d) :
      Outcome s g form [p] (.error (.failed (.invalidRule d)))
  | valid {p : Prompt} {c : Candidate} {rule : Rule} (hready : g.ready = .ok ())
      (hcomplete : form.Complete) (hgiven : (g.generate p).1 = .ok c)
      (hvalid : c.validate = .ok rule) :
      Outcome s g form [p] (.ok rule)

/-! ## From the form to the rule -/

namespace Generation

variable {ε α β : Type}

@[simp]
theorem ofExcept_ok_bind (a : α) (next : α → Generation ε β) :
    (ofExcept (.ok a) >>= next) = next a := rfl

@[simp]
theorem ofExcept_error_bind (e : ε) (next : α → Generation ε β) :
    (ofExcept (.error e) >>= next) = ofExcept (.error e) := rfl

@[simp]
theorem result_count_bind (counted : List Counter) (next : Unit → Generation ε β) :
    (count counted >>= next).result = (next ()).result := rfl

@[simp]
theorem asked_count_bind (counted : List Counter) (next : Unit → Generation ε β) :
    (count counted >>= next).asked = (next ()).asked := rfl

end Generation

/-- A file that is there is read, skipped, or the file system fails. -/
theorem Upload.fails_of_references {s : UploadStore} {uploads : List Upload} {f : Failure}
    (hthere : ∀ u ∈ uploads, u.tag ∈ s.files.map (·.tag))
    (h : (references s uploads).1 = .error f) :
    ∃ reason, f = .io reason ∧ s.system.Fails [] reason := by
  induction uploads with
  | nil => cases h
  | cons u us ih =>
    have ih := ih fun v hv => hthere v (by simp [hv])
    obtain ⟨file, hfile⟩ : ∃ file, s.file? u.tag = some file := by
      obtain ⟨file, hmem, htag⟩ := List.mem_map.1 (hthere u (by simp))
      exact Option.isSome_iff_exists.1 (List.find?_isSome.2 ⟨file, hmem, by simpa using htag⟩)
    cases hkind : u.mediaKind? with
    | none =>
      simp only [references, reference, hkind] at h
      exact ih h
    | some kind =>
      cases hcall : s.system u.tag .read with
      | some reason =>
        simp only [references, reference, hkind, hcall] at h
        cases h
        exact ⟨reason, rfl, u.tag, .read, trivial, hcall⟩
      | none =>
        simp only [references, reference, hkind, hcall, hfile] at h
        cases hrest : (references s us).1 with
        | error e =>
          rw [hrest] at h
          cases h
          exact ih hrest
        | ok media =>
          rw [hrest] at h
          cases h

theorem Text.isEmpty_trim (s : String) : (Text.trim s).isEmpty = Text.isBlank s := by
  rw [Bool.eq_iff_iff, Text.isBlank_iff, String.isEmpty_iff]

/-- The request is made of both texts, or refused. -/
theorem Intake.request_spec (i : Intake) :
    (∃ request, i.request = .ok request ∧ Text.Given i.name ∧ Text.Given i.intent) ∨
      ∃ reason, i.request = .error (.badRequest reason) ∧
        ¬ (Text.Given i.name ∧ Text.Given i.intent) := by
  cases hname : i.name with
  | none =>
    right
    exact ⟨_, by simp [request, required, hname]; rfl, by simp [Text.Given]⟩
  | some name =>
    cases hintent : i.intent with
    | none =>
      right
      exact ⟨_, by simp [request, required, hname, hintent]; rfl, by simp [Text.Given]⟩
    | some intent =>
      simp only [request, required, hname, hintent, RuleRequest.trimmed, Text.isEmpty_trim,
        bind, Except.bind]
      cases hblank : Text.isBlank name || Text.isBlank intent with
      | true =>
        right
        exact ⟨_, rfl, by rcases Bool.or_eq_true_iff.1 hblank with h | h <;> simp [Text.Given, h]⟩
      | false =>
        left
        obtain ⟨hname, hintent⟩ := Bool.or_eq_false_iff.1 hblank
        exact ⟨_, rfl, ⟨name, rfl, hname⟩, ⟨intent, rfl, hintent⟩⟩

namespace Service

variable {s : Service} {g : Generator} {form : Form}

theorem outcome_rule (hready : g.ready = .ok ()) (hcomplete : form.Complete)
    (request : RuleRequest) (media : List MediaReference) :
    s.Outcome g form (g.rule request media).asked
      ((g.rule request media).result.mapError .failed) := by
  simp only [Generator.rule, hready, Generation.ofExcept_ok_bind]
  rcases hgiven : g.generate (Prompt.assemble request media) with ⟨given, counted⟩
  have hresult := congrArg Prod.fst hgiven
  simp only [Generator.ask, hgiven]
  cases given with
  | error f => exact .unanswered hready hcomplete hresult
  | ok c =>
    show s.Outcome g form ([Prompt.assemble request media] ++ (Generator.checked c).asked)
      ((Generator.checked c).result.mapError .failed)
    cases hvalid : c.validate with
    | error d =>
      simp only [Generator.checked, hvalid]
      exact .invalid hready hcomplete hresult hvalid
    | ok rule =>
      simp only [Generator.checked, hvalid]
      exact .valid hready hcomplete hresult hvalid

theorem outcome_generate (hready : g.ready = .ok ()) (hwhole : form.fault? = none) {i : Intake}
    (hname : i.name = form.lastText? "rule_name")
    (hintent : i.intent = form.lastText? "rule_intent")
    (hsystem : i.store.system = s.uploads.system)
    (hthere : ∀ u ∈ i.uploads, u.tag ∈ i.store.files.map (·.tag)) :
    s.Outcome g form (generate g i).asked (generate g i).result := by
  rcases i.request_spec with ⟨request, hrequest, htexts⟩ | ⟨reason, hrequest, htexts⟩
  · have hcomplete : form.Complete := ⟨hwhole, hname ▸ htexts.1, hintent ▸ htexts.2⟩
    simp only [generate, hrequest, Generation.ofExcept_ok_bind, Generation.asked_count_bind,
      Generation.result_count_bind]
    cases hmedia : (Upload.references i.store i.uploads).1 with
    | ok media => exact outcome_rule hready hcomplete request media
    | error f =>
      obtain ⟨reason, rfl, hfails⟩ := Upload.fails_of_references hthere hmedia
      rw [hsystem] at hfails
      exact .unstored hready (hfails.mono (List.nil_subset _))
  · simp only [generate, hrequest, Generation.ofExcept_error_bind]
    refine .incomplete hready hwhole fun hcomplete => htexts ?_
    rw [hname, hintent]
    exact ⟨hcomplete.name, hcomplete.intent⟩

/-- The files that are noted of a form are in the store, so that they can be read
again. -/
theorem outcome_of_ready (hready : g.ready = .ok ()) :
    s.Outcome g form (s.generateRule g form).asked
      (Generation.ofExcept (s.taken form).1 >>= fun _ => generate g (s.taken form).2).result := by
  obtain ⟨hends, ⟨new, noted, hgains, -⟩, htexts⟩ :=
    Intake.receive_spec form { store := s.uploads }
  rw [generateRule_of_ready hready]
  unfold taken
  generalize Intake.receive form { store := s.uploads } = result at *
  obtain ⟨received, i⟩ := result
  cases hends with
  | failed hfails => exact .unstored hready hfails
  | broken hbroken => exact .unread hready hbroken
  | whole hwhole =>
    obtain ⟨hname, hintent⟩ := htexts rfl
    rw [Option.or_none] at hname hintent
    refine outcome_generate hready hwhole hname hintent hgains.adds.system fun u hu => ?_
    have huploads : i.uploads = noted := hgains.uploads
    rw [huploads] at hu
    rw [hgains.adds.files, List.map_append]
    exact List.mem_append_right _ (hgains.tags.subset (List.mem_map_of_mem hu))

theorem outcome_generateRule (s : Service) (g : Generator) (form : Form) :
    ∃ result, (s.generateRule g form).response = generated result ∧
      s.Outcome g form (s.generateRule g form).asked result := by
  cases hready : g.ready with
  | error f =>
    rw [generateRule_of_not_ready hready]
    exact ⟨.error (.failed f), rfl, .notReady hready⟩
  | ok u =>
    refine ⟨_, ?_, outcome_of_ready hready⟩
    rw [generateRule_of_ready hready]

end Service

/-! ## From the outcome to the answer -/

theorem Json.Value.namesInMembers_of_flat {ms : List (String × Value)}
    (h : ∀ m ∈ ms, m.2.memberNames = []) : namesInMembers ms = ms.map Prod.fst := by
  induction ms with
  | nil => rfl
  | cons m ms ih =>
    simp only [namesInMembers, h m (by simp), ih fun m hm => h m (by simp [hm]),
      List.nil_append, List.map_cons]

namespace RequestFailure

/-- All names that error objects use. -/
def memberNames : List String :=
  ["kind", "message", "retryable", "rule", "subject", "upstream"]

theorem details_spec (f : Failure) :
    ∀ m ∈ f.details, m.1 ∈ memberNames ∧ m.2.memberNames = [] := by
  cases f with
  | invalidRule d =>
    cases hsubject : d.subject? <;>
      simp [Failure.details, hsubject, memberNames, Json.Value.memberNames]
  | model f => simp [Failure.details, memberNames, Json.Value.memberNames]
  | _ => simp [Failure.details]

theorem noRule_members (kind message : String) (retryable : Bool)
    (details : List (String × Value))
    (hdetails : ∀ m ∈ details, m.1 ∈ memberNames ∧ m.2.memberNames = []) :
    ∀ name ∈ Json.Value.memberNames
        (.object [("error", .object (members kind message retryable ++ details))]),
      name ∉ Candidate.fieldNames := by
  have hmembers : ∀ m ∈ members kind message retryable,
      m.1 ∈ memberNames ∧ m.2.memberNames = [] := by
    simp [members, memberNames, Json.Value.memberNames]
  have hall : ∀ m ∈ members kind message retryable ++ details,
      m.1 ∈ memberNames ∧ m.2.memberNames = [] := by
    intro m hm
    rcases List.mem_append.1 hm with hm | hm
    · exact hmembers m hm
    · exact hdetails m hm
  have hfields : ∀ name ∈ "error" :: memberNames, name ∉ Candidate.fieldNames := by decide
  intro name hname
  refine hfields name ?_
  simp only [Json.Value.memberNames, Json.Value.namesInMembers, List.append_nil,
    Json.Value.namesInMembers_of_flat fun m hm => (hall m hm).2] at hname
  rcases List.mem_cons.1 hname with rfl | hname
  · exact List.mem_cons_self
  · obtain ⟨m, hm, rfl⟩ := List.mem_map.1 hname
    exact List.mem_cons_of_mem _ (hall m hm).1

theorem toldBy_failed (f : Failure) :
    ToldBy (.failed f) f.status (members f.kind.name f.message f.isRetryable ++ f.details) := by
  cases f with
  | configuration reason => exact .configuration
  | unsupportedMedia fileName contentType => exact .unsupportedMedia
  | invalidRule d =>
    refine .invalidRule rfl ?_
    cases hsubject : d.subject? <;> simp only [Failure.details, hsubject] <;> rfl
  | model f =>
    cases f with
    | timeout nanos => exact .timeout
    | _ => exact .model (by simp)
  | io reason => exact .io
  | serialization reason => exact .serialization
  | internal reason => exact .internal

theorem answers_response (f : RequestFailure) : ∃ members, f.Answers f.response members := by
  cases f with
  | badRequest reason =>
    refine ⟨_, rfl, .badRequest, ?_⟩
    exact noRule_members "bad_request" reason false [] (by simp)
  | rejected code reason =>
    refine ⟨_, rfl, .rejected, ?_⟩
    exact noRule_members "bad_request" reason false [] (by simp)
  | failed f => exact ⟨_, rfl, toldBy_failed f, noRule_members _ _ _ _ (details_spec f)⟩

end RequestFailure

namespace Service

variable {s : Service} {g : Generator} {form : Form}

theorem Outcome.le_status {asked : List Prompt} {f : RequestFailure}
    (h : s.Outcome g form asked (.error f)) : 400 ≤ f.status := by
  have hfailed : ∀ f : Failure, 400 ≤ (RequestFailure.failed f).status := by
    intro f
    simp only [RequestFailure.status, Failure.status]
    split <;> decide
  cases h with
  | unread hfault => exact FormFault.isError _
  | incomplete => exact Nat.le_refl 400
  | notReady | unstored | unanswered | invalid => exact hfailed _

/-- An answer to a form. -/
inductive Answered (s : Service) (g : Generator) (form : Form) (h : Handled) : Prop
  /-- The rule is the candidate for the only prompt. -/
  | rule {p : Prompt} {c : Candidate} {r : Rule} (hready : g.ready = .ok ())
      (hasked : h.asked = [p]) (hgiven : (g.generate p).1 = .ok c) (hvalid : c.validate = .ok r)
      (hstatus : h.response.status = 200) (hbody : h.response.body = .json c.toValue)
  | error {f : RequestFailure} {members : List (String × Value)}
      (hcause : s.Outcome g form h.asked (.error f)) (hstatus : 400 ≤ h.response.status)
      (hanswers : f.Answers h.response members)

theorem answered_generateRule (s : Service) (g : Generator) (form : Form) :
    s.Answered g form (s.generateRule g form) := by
  obtain ⟨result, hresponse, houtcome⟩ := s.outcome_generateRule g form
  cases result with
  | error f =>
    obtain ⟨members, hanswers⟩ := f.answers_response
    rw [generated] at hresponse
    exact .error houtcome (hresponse ▸ houtcome.le_status) (hresponse ▸ hanswers)
  | ok rule =>
    generalize hasked : (s.generateRule g form).asked = asked at houtcome
    cases houtcome with
    | valid hready _ hgiven hvalid =>
      refine .rule hready hasked hgiven hvalid (hresponse ▸ rfl) ?_
      rw [hresponse, ← (Candidate.passes_of_validate hvalid).2]
      rfl

/-- Any form is answered by the validated candidate or by an error, and so is each
one that is posted. -/
theorem forms_answered (s : Service) (g : Generator) :
    (∀ form, s.Answered g form (s.generateRule g form)) ∧
      ∀ r boundary, r.PostsForm boundary →
        s.Answered g (s.form boundary r.body) (s.answer g r) := by
  refine ⟨s.answered_generateRule g, fun r boundary h => ?_⟩
  rw [answer_of_postsForm h]
  -- further headers change neither the status nor the body
  cases s.answered_generateRule g (s.form boundary r.body) with
  | rule hready hasked hgiven hvalid hstatus hbody =>
    exact .rule hready hasked hgiven hvalid hstatus hbody
  | error hcause hstatus hanswers =>
    exact .error hcause hstatus ⟨hanswers.body, hanswers.told, hanswers.noRule⟩

/-! ## A form that gets a rule -/

/-- A form with a file between its texts. -/
def wholeRequest : Request where
  method := .post
  target := "/api/generate-rule"
  headers := [("Content-Type", "multipart/form-data; boundary=X")]
  body := Bytes.ofText
    ("--X\r\nContent-Disposition: form-data; name=\"rule_name\"\r\n\r\nhelmet" ++
      "\r\n--X\r\nContent-Disposition: form-data; name=\"f\"; filename=\"a.png\"\r\n\r\nAB" ++
      "\r\n--X\r\nContent-Disposition: form-data; name=\"rule_intent\"\r\n\r\nwatch" ++
      "\r\n--X--")

/-- What the request holds. -/
def wholeForm : Form :=
  .part ⟨some "rule_name", none, none⟩ [Bytes.ofText "helmet"]
    (.part ⟨some "f", some "a.png", none⟩ [[65, 66]]
      (.part ⟨some "rule_intent", none, none⟩ [Bytes.ofText "watch"] .done))

/-- A generator that gives the same candidate for all prompts. -/
def spacedGenerator : Generator where
  ready := .ok ()
  generate _ := (.ok spacedCandidate, [])

theorem complete_wholeForm : wholeForm.Complete :=
  ⟨rfl, ⟨"helmet", by decide +kernel, by decide +kernel⟩, ⟨"watch", by decide +kernel, by decide +kernel⟩⟩

theorem not_fails_wholeForm (reason : String) :
    ¬ (default : Service).uploads.system.Fails wholeForm.storedNames reason := by
  have hnames : wholeForm.storedNames = ["a.png"] := by decide +kernel
  rintro ⟨tag, call, hfor, hcall⟩
  cases call with
  | create name =>
    rw [hnames] at hfor
    rw [List.mem_singleton.1 hfor] at hcall
    cases hcall
  | write _ | flush | read | remove => cases hcall

theorem forms_answered_wholeRequest :
    wholeRequest.PostsForm "X" ∧
      ((default : Service).answer spacedGenerator wholeRequest).asked.length = 1 ∧
      ((default : Service).answer spacedGenerator wholeRequest).response.status = 200 ∧
      ((default : Service).answer spacedGenerator wholeRequest).response.body =
        .json spacedCandidate.toValue := by
  have hposts : wholeRequest.PostsForm "X" := ⟨rfl, by decide +kernel, by decide +kernel⟩
  have hform : (default : Service).form "X" wholeRequest.body = wholeForm := by decide +kernel
  have hanswered := (forms_answered default spacedGenerator).2 wholeRequest "X" hposts
  rw [hform] at hanswered
  refine ⟨hposts, ?_⟩
  cases hanswered with
  | rule hready hasked hgiven hvalid hstatus hbody =>
    cases hgiven
    exact ⟨congrArg List.length hasked, hstatus, hbody⟩
  | error hcause hstatus hanswers =>
    generalize ((default : Service).answer spacedGenerator wholeRequest).asked = asked at hcause
    cases hcause with
    | notReady hready => cases hready
    | unread hready hfault => cases hfault
    | unstored hready hfails => exact absurd hfails (not_fails_wholeForm _)
    | incomplete hready hwhole hincomplete => exact absurd complete_wholeForm hincomplete
    | unanswered hready hcomplete hgiven => cases hgiven
    | invalid hready hcomplete hgiven hinvalid =>
      cases hgiven
      rw [validate_spacedCandidate] at hinvalid
      cases hinvalid

end Service

end VisualRules
