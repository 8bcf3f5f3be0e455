import VisualRules.Program
import VisualRules.Proofs.Bytes.RoundTrip
import VisualRules.Proofs.Json.Conformance
import VisualRules.Proofs.Json.Locality
import VisualRules.Proofs.Rule.Writing
import VisualRules.Service.Route

/-!
# Documents in files and in requests

A rule document is checked in two places: in a file that is named on the command
line, and in the body of a request. A text that holds a candidate in one place holds
it in the other one too, so that it is judged alike: the report on a rule shows the
expressions that the response holds, and a candidate that is no rule breaks the same
check.
-/

namespace VisualRules

open Json (Reader Value)

/-! ## A document as the body of a request -/

namespace Json

theorem encodedChars_ofText (text : String) :
    encodedChars (Bytes.ofText text) = text.toList := by
  rw [encodedChars, Bytes.decode_ofText, List.flatMap_map]
  exact List.flatMap_singleton' text.toList

/-- A document is read when what follows it is ignored. -/
theorem front_of_whole {α : Type} {r : Reader α} {cs : List Char} {a : α}
    (h : Reader.whole r cs = .ok a) : Reader.front r cs = .ok a := by
  obtain ⟨rest, hread, -⟩ := whole_eq_ok_iff.mp h
  rw [Reader.front, hread]
  rfl

end Json

/-- A request that submits a text as a JSON document to be checked. -/
structure Request.Submits (r : Request) (text : String) : Prop where
  method : r.method = .post
  path : r.path = "/api/validate-rule"
  mediaType : ((r.header? "content-type").bind MediaType.ofText?).any MediaType.isJson = true
  body : r.body = Bytes.ofText text

namespace Service

variable {s : Service} {g : Generator} {r : Request} {text : String} {c : Candidate}

theorem submitted_of_submits (h : r.Submits text) (hlimit : r.body.length ≤ s.limit)
    (htext : Candidate.ofText text = .ok c) : s.submitted r = .ok c := by
  have hread : Reader.front candidateRecord.read (Json.encodedChars r.body) = .ok c := by
    rw [h.body, Json.encodedChars_ofText]
    exact Json.front_of_whole htext
  simp [submitted, h.mediaType, hlimit.not_gt, hread, Except.mapError]

theorem answer_of_submits (h : r.Submits text) :
    (s.answer g r).response =
      (validated (s.submitted r)).withHeaders (s.originHeader r) := by
  have hroute : Route.ofPath? r.path = some .validateRule := by rw [h.path]; rfl
  have hdispatch : s.dispatch g r = s.validateRule r := by
    simp [dispatch, hroute, h.method, Route.takes, Route.isRead, handle]
  rw [answer, hdispatch]
  rfl

end Service

/-! ## What a response holds -/

namespace Response

/-- The member of a response with a key. -/
def member? (key : String) (r : Response) : Option Value :=
  match r.body with
  | .json v => v.member? key
  | _ => none

/-- The texts of the expressions that a response holds, in order. -/
def expressionTexts? (r : Response) : Option (List String) :=
  match r.member? "expressions" with
  | some (.list es) =>
    es.mapM fun e =>
      match e.member? "text" with
      | some (.string t) => some t
      | _ => none
  | _ => none

/-- The member with a key of the error that a response holds. -/
def errorMember? (key : String) (r : Response) : Option Value :=
  (r.member? "error").bind (·.member? key)

theorem expressionTexts?_report (rule : Rule) :
    (Response.json 200 (Service.report rule)).expressionTexts? =
      some (rule.expressions.map Expression.text) := by
  show (rule.expressions.map Expression.toValue).mapM _ = _
  induction rule.expressions with
  | nil => rfl
  | cons e es ih =>
    rw [List.map_cons, List.mapM_cons, ih]
    rfl

end Response

/-! ## What a report shows -/

namespace Rule

/-- The report on a rule that shows given texts as its triggers. -/
def reportWith (r : Rule) (triggers : List String) : String :=
  "Targets: " ++ ", ".intercalate r.targetObjects ++ "\n" ++
  String.join (triggers.map fun t => "Trigger: " ++ t ++ "\n") ++
  durationLine r.logic.threshold ++ "\n" ++
  "Alert: " ++ r.alertMessage

theorem report_eq_reportWith (r : Rule) :
    r.report = r.reportWith (r.expressions.map Expression.text) := by
  have hlines : r.expressions.foldl (fun out e => out ++ "Trigger: " ++ e.text ++ "\n") "" =
      String.join
        ((r.expressions.map Expression.text).map fun t => "Trigger: " ++ t ++ "\n") := by
    simp [String.join, List.foldl_map, String.append_assoc]
  exact congrArg
    (fun lines => "Targets: " ++ ", ".intercalate r.targetObjects ++ "\n" ++ lines ++
      durationLine r.logic.threshold ++ "\n" ++ "Alert: " ++ r.alertMessage) hlines

end Rule

theorem reportOn_eq (path text : String) :
    reportOn path (.ok text) =
      match Candidate.ofText text with
      | .error refusal => .error (.noDocument path refusal)
      | .ok c =>
        match c.validate with
        | .error d => .error (.invalid d)
        | .ok rule => .ok rule.report := by
  simp only [reportOn, Except.mapError, bind, Except.bind]
  cases Candidate.ofText text with
  | error refusal => rfl
  | ok c => cases hvalid : c.validate <;> simp [hvalid, pure, Except.pure]

/-! ## A document in a file -/

namespace Program

variable {machine : Machine Id} {words : List String} {path text : String}

/-- The values of variables that a command line is read with. -/
def environment (machine : Machine Id) (name : String) : Option String :=
  let names := CommandLine.Setting.all.filterMap (·.envName?)
  ((names.map fun name => (name, machine.lookupEnv name)).lookup name).join

/-- A command line that asks for the report on the file at a path, which holds a text. -/
structure Validates (machine : Machine Id) (words : List String) (path text : String) : Prop where
  asked : ∃ verbose, CommandLine.read (environment machine) words =
    .ok ⟨verbose, .validate path⟩
  content : machine.readText path = .ok text

/-- How the program ends with a report, or with the refusal of one. -/
def Outcome.ofReport : Except ReportRefusal String → Outcome
  | .ok report => { output := report ++ "\n" }
  | .error refusal => .failed refusal.causes

/-- How the program ends with a command line that has been read. -/
def carriedOut (machine : Machine Id) :
    Except CommandLine.Stop CommandLine.Invocation → Outcome
  | .error stop => .stopped stop
  | .ok invocation =>
    match invocation.command with
    | .schema => { output := RuleSchema.responseFormat.prettyText ++ "\n" }
    | .validate path => .ofReport (reportOn path (machine.readText path))
    | .serve config overrides => serve machine config overrides

theorem run_eq (machine : Machine Id) (words : List String) :
    run machine words = carriedOut machine (CommandLine.read (environment machine) words) := rfl

theorem run_of_validates (h : Validates machine words path text) :
    run machine words = .ofReport (reportOn path (.ok text)) := by
  obtain ⟨verbose, hread⟩ := h.asked
  rw [run_eq, hread, ← h.content]
  rfl

variable {c : Candidate}

theorem run_of_valid {rule : Rule} (h : Validates machine words path text)
    (htext : Candidate.ofText text = .ok c) (hrule : c.validate = .ok rule) :
    run machine words = { output := rule.report ++ "\n" } := by
  simp only [run_of_validates h, reportOn_eq, htext, hrule, Outcome.ofReport]

theorem run_of_invalid {d : Defect} (h : Validates machine words path text)
    (htext : Candidate.ofText text = .ok c) (hdefect : c.validate = .error d) :
    run machine words =
      .failed ["Invalid rule (" ++ d.check.text ++ "): " ++ d.message] := by
  simp only [run_of_validates h, reportOn_eq, htext, hdefect, Outcome.ofReport,
    ReportRefusal.causes]

/-- What a program that succeeds has been given holds a rule. -/
theorem valid_of_run (h : Validates machine words path text)
    (hcode : (run machine words).code = 0) :
    ∃ c rule, Candidate.ofText text = .ok c ∧ c.validate = .ok rule := by
  cases htext : Candidate.ofText text with
  | error refusal =>
    simp only [run_of_validates h, reportOn_eq, htext] at hcode
    cases hcode
  | ok c =>
    cases hvalid : c.validate with
    | ok rule => exact ⟨c, rule, rfl, hvalid⟩
    | error d =>
      rw [run_of_invalid h htext hvalid] at hcode
      cases hcode

end Program

/-! ## The two verdicts -/

section Verdict

variable (o : Program.Outcome) (r : Response)

/-- A report and a response on the rule that a candidate is: the response holds the
candidate in its written form, and the triggers of the report are the texts of the
expressions in the response. -/
structure AgreeOnRule (c : Candidate) : Prop where
  code : o.code = 0
  status : r.status = 200
  rule : r.member? "rule" = some c.toValue
  triggers : ∃ rule texts, c.validate = .ok rule ∧ r.expressionTexts? = some texts ∧
    o.output = rule.reportWith texts ++ "\n"

/-- A complaint and a response on a defect: both name the number of the check that
the defect breaks, and the response names what is at fault. -/
structure AgreeOnDefect (d : Defect) : Prop where
  code : o.code = 1
  complaint : o.complaint =
    "Error: Invalid rule (rule " ++ toString d.check.number ++ " (" ++ d.check.name ++ ")): " ++
      d.message ++ "\n"
  status : r.status = 422
  rule : r.errorMember? "rule" = some (.integer d.check.number)
  subject : r.errorMember? "subject" = d.subject?.map .string

variable {o r} {machine : Program.Machine Id} {words : List String} {path text : String}
variable {s : Service} {g : Generator} {q : Request} {c : Candidate}

theorem agreeOnRule_of_valid {rule : Rule} (hfile : Program.Validates machine words path text)
    (hposted : q.Submits text) (hlimit : q.body.length ≤ s.limit)
    (htext : Candidate.ofText text = .ok c) (hrule : c.validate = .ok rule) :
    AgreeOnRule (Program.run machine words) (s.answer g q).response c := by
  have hwritten : rule.toCandidate = c := (Candidate.passes_of_validate hrule).2
  have hresponse : (s.answer g q).response =
      (Response.json 200 (Service.report rule)).withHeaders (s.originHeader q) := by
    rw [Service.answer_of_submits hposted, Service.submitted_of_submits hposted hlimit htext,
      Service.validated, hrule]
  rw [Program.run_of_valid hfile htext hrule, hresponse]
  constructor
  · rfl
  · rfl
  · rw [← hwritten]
    rfl
  · exact ⟨rule, _, hrule, Response.expressionTexts?_report rule,
      by rw [Rule.report_eq_reportWith]⟩

theorem agreeOnDefect_of_invalid {d : Defect}
    (hfile : Program.Validates machine words path text)
    (hposted : q.Submits text) (hlimit : q.body.length ≤ s.limit)
    (htext : Candidate.ofText text = .ok c) (hdefect : c.validate = .error d) :
    AgreeOnDefect (Program.run machine words) (s.answer g q).response d := by
  have hresponse : (s.answer g q).response =
      (RequestFailure.failed (.invalidRule d)).response.withHeaders (s.originHeader q) := by
    rw [Service.answer_of_submits hposted, Service.submitted_of_submits hposted hlimit htext,
      Service.validated, hdefect]
  rw [Program.run_of_invalid hfile htext hdefect, hresponse]
  constructor
  · rfl
  · have hfront : "Error: Invalid rule (rule " = "Error: " ++ "Invalid rule (" ++ "rule " := rfl
    have hback : ")): " = ")" ++ "): " := rfl
    simp only [hfront, hback, Program.Outcome.failed, Check.text, String.append_assoc]
  · rfl
  · rfl
  · show ((RequestFailure.failed (.invalidRule d)).toValue).member? "subject" = _
    cases hsubject : d.subject? with
    | none =>
      simp only [RequestFailure.toValue, Failure.details, hsubject]
      rfl
    | some id =>
      simp only [RequestFailure.toValue, Failure.details, hsubject]
      rfl

/-- **A document is judged alike in a file and in a request.** What the program reports
on as a rule is answered with this rule and with the expressions of the report. A
candidate that the program turns down is turned down in a request too, for the same
check. -/
theorem run_agrees_answer (hfile : Program.Validates machine words path text)
    (hposted : q.Submits text) (hlimit : q.body.length ≤ s.limit) :
    ((Program.run machine words).code = 0 → ∃ c, Candidate.ofText text = .ok c ∧
      AgreeOnRule (Program.run machine words) (s.answer g q).response c) ∧
    ∀ c, Candidate.ofText text = .ok c → (Program.run machine words).code ≠ 0 →
      ∃ d, c.validate = .error d ∧
        AgreeOnDefect (Program.run machine words) (s.answer g q).response d := by
  constructor
  · intro hcode
    obtain ⟨c, rule, htext, hrule⟩ := Program.valid_of_run hfile hcode
    exact ⟨c, htext, agreeOnRule_of_valid hfile hposted hlimit htext hrule⟩
  · intro c htext hcode
    cases hvalid : c.validate with
    | ok rule =>
      have hagree := agreeOnRule_of_valid (g := g) hfile hposted hlimit htext hvalid
      exact absurd hagree.code hcode
    | error d =>
      exact ⟨d, rfl, agreeOnDefect_of_invalid hfile hposted hlimit htext hvalid⟩

end Verdict

/-! ### A rule with two roots, and crossed gates -/

/-- A machine on which every file holds a text. -/
def Program.Machine.holding (text : String) : Program.Machine Id where
  lookupEnv _ := none
  isThere _ := true
  readText _ := .ok text
  makeDirectory _ := .ok ()
  listen _ _ := .ok ()

/-- A request that submits a text. -/
def Request.submitting (text : String) : Request where
  method := .post
  target := "/api/validate-rule?source=editor"
  headers := [("Content-Type", "Application/JSON; charset=utf-8")]
  body := Bytes.ofText text

/-- The text of a candidate with one entry a line. -/
def Candidate.pretty (c : Candidate) : String :=
  String.ofList (c.toValue.write (.indented 0))

-- Neither the words nor the headers depend on the text.
theorem Program.validates_holding (text : String) :
    Program.Validates (.holding text) ["-v", "validate", "rule.json"] "rule.json" text := by
  have hread : CommandLine.read (environment (.holding "")) ["-v", "validate", "rule.json"] =
      .ok ⟨true, .validate "rule.json"⟩ := by decide +kernel
  exact ⟨⟨true, hread⟩, rfl⟩

theorem Request.submits_submitting (text : String) : (Request.submitting text).Submits text := by
  have hpath : (Request.submitting "").path = "/api/validate-rule" := by decide +kernel
  have htype : (((Request.submitting "").header? "content-type").bind MediaType.ofText?).any
      MediaType.isJson = true := by decide +kernel
  exact ⟨rfl, hpath, htype, rfl⟩

theorem Request.length_submitting_le {text : String} (h : text.toList.length ≤ 2000) :
    (Request.submitting text).body.length ≤ ({} : Service).limit := by
  have hbytes : (Bytes.ofText text).length ≤ 4 * text.toList.length :=
    Bytes.length_ofText_le text
  have hlimit : ({} : Service).limit = 209715200 := rfl
  show (Bytes.ofText text).length ≤ _
  omega

theorem Candidate.toList_pretty (c : Candidate) :
    c.pretty.toList = c.toValue.write (.indented 0) :=
  String.toList_ofList

/-- A rule with two roots is reported on and answered alike, and crossed gates are
turned down in both places for their cycle. -/
theorem run_agrees_answer_written :
    (∀ g, AgreeOnRule
      (Program.run (.holding sharedRule.toCandidate.pretty) ["-v", "validate", "rule.json"])
      (({} : Service).answer g (.submitting sharedRule.toCandidate.pretty)).response
      sharedRule.toCandidate) ∧
    ∀ g, AgreeOnDefect
      (Program.run (.holding Candidate.crossed.pretty) ["-v", "validate", "rule.json"])
      (({} : Service).answer g (.submitting Candidate.crossed.pretty)).response
      (.cycle "g") := by
  constructor
  · intro g
    have hfile := Program.validates_holding sharedRule.toCandidate.pretty
    have htext : Candidate.ofText sharedRule.toCandidate.pretty = .ok sharedRule.toCandidate :=
      sharedRule.toCandidate.ofText_write _
    have hwritten : (sharedRule.toCandidate.toValue.write (.indented 0)).length ≤ 2000 := by
      decide +kernel
    have hlength : sharedRule.toCandidate.pretty.toList.length ≤ 2000 := by
      simpa only [Candidate.toList_pretty] using hwritten
    have hcode := congrArg (·.code) (Program.run_of_valid hfile htext validate_sharedRule)
    obtain ⟨c, hc, hagree⟩ := (run_agrees_answer (g := g) hfile (Request.submits_submitting _)
      (Request.length_submitting_le hlength)).1 hcode
    rw [htext] at hc
    cases hc
    exact hagree
  · intro g
    have hfile := Program.validates_holding Candidate.crossed.pretty
    have htext : Candidate.ofText Candidate.crossed.pretty = .ok Candidate.crossed :=
      Candidate.crossed.ofText_write _
    have hwritten : (Candidate.crossed.toValue.write (.indented 0)).length ≤ 2000 := by
      decide +kernel
    have hlength : Candidate.crossed.pretty.toList.length ≤ 2000 := by
      simpa only [Candidate.toList_pretty] using hwritten
    have hcode : (Program.run (.holding Candidate.crossed.pretty)
        ["-v", "validate", "rule.json"]).code ≠ 0 := by
      rw [Program.run_of_invalid hfile htext Candidate.validate_crossed]
      exact Nat.one_ne_zero
    obtain ⟨d, hd, hagree⟩ := (run_agrees_answer (g := g) hfile (Request.submits_submitting _)
      (Request.length_submitting_le hlength)).2 _ htext hcode
    rw [Candidate.validate_crossed] at hd
    cases hd
    exact hagree

end VisualRules
