import VisualRules.Model.Completion
import VisualRules.Proofs.Json.Understanding

/-!
# The first choice of a completion

A completion is read for its first choice alone. A refusal goes before content, and
without either there is nothing to read a candidate from. The other choices, and members
that no record of the completion knows, have no influence.
-/

namespace VisualRules

open Json (Cell Described IsKey Reader Relaid Renders Shape Understands isKey_self
  quotedText_half renders_entriesEnd renders_entry renders_list renders_member renders_membersEnd
  renders_object renders_quoted stringText_self)
open Json.Reader (ListHolds OptionalHolds StringHolds understands_list understands_optional
  understands_string)

/-! ## Shapes and cells -/

/-- An answer; both texts may be absent. -/
def answerShape : Shape :=
  .record [("content", .optional, .leaf), ("refusal", .optional, .leaf)]

/-- A choice. -/
def choiceShape : Shape :=
  .record [("message", .required, answerShape), ("finish_reason", .optional, .leaf)]

/-- A completion. -/
def completionShape : Shape :=
  .record [("choices", .required, .list choiceShape)]

theorem understands_text :
    Understands (Reader.optional Reader.string) .leaf (OptionalHolds StringHolds) := by
  refine understands_optional understands_string ?_
  intro s ⟨k, hk, _⟩
  simp [Json.Form.null, Json.Form.quoted] at hk

/-- The cells of an answer. -/
def answerCells : List (Cell AnswerDraft) :=
  [ { Cell.of "content" (·.content) (fun d x => { d with content := some x })
        understands_text with
      need := .optional },
    { Cell.of "refusal" (·.refusal) (fun d x => { d with refusal := some x })
        understands_text with
      mayEnd := true
      need := .optional } ]

theorem described_answer : Described answerRecord answerCells where
  fields := rfl
  separate := by
    refine ⟨?_, ?_, ?_, by decide⟩
    · simp [answerCells, Cell.of]
    · simp [answerCells, Cell.of]
    · simp [answerCells, Cell.of]
  blank := by simp [answerCells, answerRecord, Cell.of]
  complete := by simp [answerCells, Cell.of]
  assumed := by simp [answerCells, Cell.of]

/-- The cells of a choice. -/
def choiceCells : List (Cell ChoiceDraft) :=
  [ .of "message" (·.answer) (fun d x => { d with answer := some x })
      described_answer.understands,
    { Cell.of "finish_reason" (·.finishReason) (fun d x => { d with finishReason := some x })
        understands_text with
      need := .optional } ]

theorem described_choice : Described choiceRecord choiceCells where
  fields := rfl
  separate := by
    refine ⟨?_, ?_, ?_, by decide⟩
    · simp [choiceCells, Cell.of]
    · simp [choiceCells, Cell.of]
    · simp [choiceCells, Cell.of]
  blank := by simp [choiceCells, choiceRecord, Cell.of]
  complete := by
    intro d a h
    simp only [choiceRecord] at h
    split at h
    · cases h
    · simp [choiceCells, Cell.of, *]
  assumed := by simp [choiceCells, Cell.of]

/-- The cell of the choices. -/
def choicesCell : Cell (Option (List Choice)) :=
  .of "choices" id (fun _ x => some x) (understands_list described_choice.understands)

theorem described_completion : Described completionRecord [choicesCell] where
  fields := rfl
  separate := by
    refine ⟨?_, ?_, ?_, by decide⟩
    · simp [choicesCell, Cell.of]
    · simp [choicesCell, Cell.of]
    · simp [choicesCell, Cell.of]
  blank := by simp [choicesCell, completionRecord, Cell.of]
  complete := by
    intro d a h
    simp only [completionRecord] at h
    split at h
    · cases h
    · simp [choicesCell, Cell.of, *]
  assumed := by simp [choicesCell, Cell.of]

theorem understands_choice : Understands choiceRecord.read choiceShape
    (choiceRecord.Holds choiceCells) :=
  described_choice.understands

theorem understands_completion : Understands completionRecord.read completionShape
    (completionRecord.Holds [choicesCell]) :=
  described_completion.understands

/-! ## Other choices -/

/-- A form that a choice is read from. -/
def Choosable (f : Json.Form) : Prop :=
  ∃ text c, f.Rendered text ∧ Reader.whole choiceRecord.read text = .ok c

/-- Other choices behind the first one, whether the completion is an object or a list. -/
inductive Rechosen : Json.Form → Json.Form → Prop
  | member {k : List Char} {first : Json.Form} {later later' : List Json.Form}
      (before after : List (List Char × Json.Form)) (hk : IsKey "choices" k)
      (h : ∀ f ∈ later, Choosable f) (h' : ∀ f ∈ later', Choosable f) :
      Rechosen (.object (before ++ (k, .list (first :: later)) :: after))
        (.object (before ++ (k, .list (first :: later')) :: after))
  | value {first : Json.Form} {later later' : List Json.Form} (h : ∀ f ∈ later, Choosable f)
      (h' : ∀ f ∈ later', Choosable f) :
      Rechosen (.list [.list (first :: later)]) (.list [.list (first :: later')])

/-- One change to a completion that leaves its first choice as it is. -/
def Varied (f f' : Json.Form) : Prop :=
  Relaid completionShape f f' ∨ Rechosen f f'

/-- A form of a completion that has a choice in front. -/
def Offers (f : Json.Form) (choice : Choice) : Prop :=
  ∃ later, completionRecord.Holds [choicesCell] f (choice :: later)

theorem Rechosen.symm {f f' : Json.Form} (h : Rechosen f f') : Rechosen f' f := by
  cases h with
  | member before after hk h h' => exact .member before after hk h' h
  | value h h' => exact .value h' h

theorem Choosable.holds {f : Json.Form} (h : Choosable f) :
    ∃ c, choiceRecord.Holds choiceCells f c := by
  obtain ⟨text, c, hf, hread⟩ := h
  exact ⟨c, (understands_choice.whole_iff hf).mp hread⟩

theorem exists_choices {fs : List Json.Form} (h : ∀ f ∈ fs, Choosable f) :
    ∃ choices, List.Forall₂ (choiceRecord.Holds choiceCells) fs choices := by
  induction fs with
  | nil => exact ⟨[], .nil⟩
  | cons f fs ih =>
    obtain ⟨c, hc⟩ := (h f (by simp)).holds
    obtain ⟨cs, hcs⟩ := ih fun f' hf' => h f' (by simp [hf'])
    exact ⟨c :: cs, .cons hc hcs⟩

theorem Offers.rechosen {f f' : Json.Form} {choice : Choice} (hoffers : Offers f choice)
    (h : Rechosen f f') : Offers f' choice := by
  obtain ⟨later, hholds⟩ := hoffers
  have hcell : choicesCell ∈ [choicesCell] := by simp
  have hcells := described_completion.separate
  cases h with
  | member before after hk h h' =>
    obtain ⟨d, hmembers, hd⟩ := hholds
    -- the other members are collected as before, and the cell is free for the new choices
    obtain ⟨d₁, hrest, hfree, x, ⟨fs, hlist, hall⟩, rfl⟩ :=
      (Cell.collects_known hcells hcell hk).mp hmembers
    cases hlist
    obtain rfl : x = choice :: later := Except.ok.inj hd
    cases hall with
    | cons hfirst _ =>
      obtain ⟨cs, hcs⟩ := exists_choices h'
      exact ⟨cs, some (choice :: cs), (Cell.collects_known hcells hcell hk).mpr
        ⟨d₁, hrest, hfree, choice :: cs, ⟨_, rfl, .cons hfirst hcs⟩, rfl⟩, rfl⟩
  | value h h' =>
    obtain ⟨d, ⟨x, ⟨fs, hlist, hall⟩, -, rfl⟩, hd⟩ := hholds
    cases hlist
    obtain rfl : x = choice :: later := Except.ok.inj hd
    cases hall with
    | cons hfirst _ =>
      obtain ⟨cs, hcs⟩ := exists_choices h'
      exact ⟨cs, some (choice :: cs),
        ⟨choice :: cs, ⟨_, rfl, .cons hfirst hcs⟩, by simp, rfl⟩, rfl⟩

theorem offers_iff {f f' : Json.Form} {choice : Choice} (h : Relation.EqvGen Varied f f') :
    Offers f choice ↔ Offers f' choice := by
  induction h with
  | rel f f' hstep =>
    cases hstep with
    | inl hrelaid => exact exists_congr fun later => understands_completion.relaid hrelaid _
    | inr hrechosen =>
      constructor
      · intro hoffers
        exact hoffers.rechosen hrechosen
      · intro hoffers
        exact hoffers.rechosen hrechosen.symm
  | refl => exact Iff.rfl
  | symm _ _ _ ih => exact ih.symm
  | trans _ _ _ _ _ ih ih' => exact ih.trans ih'

/-! ## What is made of a choice -/

/-- What is said of a choice with neither refusal nor content. -/
def Choice.emptiness (c : Choice) : ModelFailure :=
  .malformedOutput ("completion has no content (finish_reason: " ++
    c.finishReason.getD "unknown" ++ ")")

variable {c : Choice} {content reason : String}

theorem Choice.candidate_refused (h : c.answer.refusal = some reason) (hne : reason ≠ "") :
    c.candidate = .error (.refused reason) := by
  have hfilter : c.answer.refusal.filter (!·.isEmpty) = some reason := by
    rw [h]
    simp [hne]
  rw [candidate, hfilter]

theorem Choice.filter_refusal (h : ∀ reason, c.answer.refusal = some reason → reason = "") :
    c.answer.refusal.filter (!·.isEmpty) = none := by
  rw [Option.filter_eq_none_iff]
  intro reason hrefusal
  rw [h reason hrefusal]
  decide

theorem Choice.candidate_content (h : ∀ reason, c.answer.refusal = some reason → reason = "")
    (hcontent : c.answer.content = some content) (hblank : Text.isBlank content = false) :
    c.candidate = Candidate.ofContent content := by
  have hfilter : c.answer.content.filter (!Text.isBlank ·) = some content := by
    rw [hcontent]
    simp [hblank]
  rw [candidate, filter_refusal h]
  simp only [hfilter]

theorem Choice.candidate_empty (h : ∀ reason, c.answer.refusal = some reason → reason = "")
    (hblank : ∀ content, c.answer.content = some content → Text.isBlank content = true) :
    c.candidate = .error c.emptiness := by
  have hfilter : c.answer.content.filter (!Text.isBlank ·) = none := by
    rw [Option.filter_eq_none_iff]
    intro content hcontent
    rw [hblank content hcontent]
    decide
  rw [candidate, filter_refusal h]
  simp only [hfilter]
  rfl

/-- A content that holds no candidate is refused as malformed, and not with the words for a
choice without content. -/
theorem Candidate.ofContent_error {e : ModelFailure} (h : ofContent content = .error e) :
    (∀ reason, e ≠ .refused reason) ∧ ∀ c : Choice, e ≠ c.emptiness := by
  -- the words for a choice without content are the only ones that begin like this
  have hmessage : ∃ m : String, e = .malformedOutput m ∧ m.toList.head? ≠ some 'c' := by
    rw [ofContent] at h
    split at h
    · cases h
      exact ⟨_, rfl, by decide⟩
    · rename_i document _
      cases hread : Reader.whole candidateRecord.read document with
      | ok c =>
        rw [hread] at h
        cases h
      | error r =>
        rw [hread] at h
        cases h
        refine ⟨_, rfl, ?_⟩
        rw [String.toList_append]
        simp
  obtain ⟨m, rfl, hhead⟩ := hmessage
  constructor
  · intro reason heq
    cases heq
  · intro c heq
    apply hhead
    rw [ModelFailure.malformedOutput.inj heq, String.toList_append, String.toList_append]
    simp

theorem Choice.candidate_ne_refused
    (h : ∀ reason, c.answer.refusal = some reason → reason = "") :
    c.candidate ≠ .error (.refused reason) := by
  by_cases hblank : ∀ content, c.answer.content = some content → Text.isBlank content = true
  · rw [candidate_empty h hblank]
    intro heq
    cases heq
  · simp only [not_forall] at hblank
    obtain ⟨content, hcontent, hblank⟩ := hblank
    rw [candidate_content h hcontent (by simpa using hblank)]
    intro heq
    exact (Candidate.ofContent_error heq).1 reason rfl

/-! ## Completions -/

theorem Candidate.ofCompletion_eq {body : String} {later : List Choice}
    (h : Reader.whole completionRecord.read body.toList = .ok (c :: later)) :
    ofCompletion body = c.candidate := by
  rw [ofCompletion, h]

theorem Candidate.ofCompletion_of_offers {body : String} {f : Json.Form}
    (hf : f.Rendered body.toList) (h : Offers f c) : ofCompletion body = c.candidate := by
  obtain ⟨later, hholds⟩ := h
  exact ofCompletion_eq ((understands_completion.whole_iff hf).mpr hholds)

/-- **A completion is what its first choice says, and a refusal goes first.** A refusal that
is not empty is passed on whatever the content is. Without one, a choice whose content is
absent or blank is refused as empty, with its reason to finish, and any other content is
read as a candidate. No other choice has a part in this, and no member that is not known. -/
theorem Candidate.ofCompletion_first {body : String} {choice : Choice} {later : List Choice}
    (h : Reader.whole completionRecord.read body.toList = .ok (choice :: later)) :
    (∀ reason, ofCompletion body = .error (.refused reason) ↔
      choice.answer.refusal = some reason ∧ reason ≠ "") ∧
    ((∀ reason, choice.answer.refusal = some reason → reason = "") →
      (ofCompletion body = .error (.malformedOutput
          ("completion has no content (finish_reason: " ++
            choice.finishReason.getD "unknown" ++ ")")) ↔
        ∀ content, choice.answer.content = some content → Text.isBlank content = true) ∧
      ∀ content, choice.answer.content = some content → Text.isBlank content = false →
        ofCompletion body = ofContent content) ∧
    (∃ f : Json.Form, f.Rendered body.toList) ∧
    ∀ f : Json.Form, f.Rendered body.toList →
      completionRecord.Holds [choicesCell] f (choice :: later) ∧
      ∀ (f' : Json.Form) (body' : String), Relation.EqvGen Varied f f' → f'.Rendered body'.toList →
        ofCompletion body' = ofCompletion body := by
  rw [ofCompletion_eq h]
  refine ⟨?_, ?_, understands_completion.exists_rendered h, ?_⟩
  · intro reason
    constructor
    · intro hcandidate
      by_cases hrefusal : ∀ r, choice.answer.refusal = some r → r = ""
      · exact absurd hcandidate (Choice.candidate_ne_refused hrefusal)
      · simp only [not_forall] at hrefusal
        obtain ⟨r, hr, hne⟩ := hrefusal
        rw [Choice.candidate_refused hr hne] at hcandidate
        cases hcandidate
        exact ⟨hr, hne⟩
    · intro ⟨hrefusal, hne⟩
      exact Choice.candidate_refused hrefusal hne
  · intro hrefusal
    refine ⟨⟨?_, Choice.candidate_empty hrefusal⟩, ?_⟩
    · intro hcandidate content hcontent
      by_contra hblank
      rw [Choice.candidate_content hrefusal hcontent (by simpa using hblank)] at hcandidate
      exact (ofContent_error hcandidate).2 choice rfl
    · intro content hcontent hblank
      exact Choice.candidate_content hrefusal hcontent hblank
  · intro f hf
    have hholds := (understands_completion.whole_iff hf).mp h
    refine ⟨hholds, ?_⟩
    intro f' body' hvaried hf'
    exact ofCompletion_of_offers hf' ((offers_iff hvaried).mp ⟨later, hholds⟩)

/-- Completions that are written as lists: with a refusal beside a content, with neither, and
with a content alone. -/
def refusedBody : String := "[[[[\"x\",\"no\"],null]]]"

/-- A completion without content. -/
def emptyBody : String := "[[[[null],\"stop\"]]]"

/-- A completion with content. -/
def filledBody : String := "[[[[\"x\"],null]]]"

/-- The refusal with another choice behind it, in an object with a member that is not known. -/
def variedBody : String :=
  "\x7b\"id\":\"\\ud800\",\"choices\":[[[\"x\",\"no\"],null],[[null],\"stop\"]]\x7d"

/-- The form of the refusal as a choice. -/
def refusedForm : Json.Form :=
  .list [.list [.quoted ['x'], .quoted ['n', 'o']], .null]

/-- The form of a choice that only says why it ends. -/
def stoppedForm : Json.Form :=
  .list [.list [.null], .quoted ['s', 't', 'o', 'p']]

theorem renders_refused : Renders (.form refusedForm) "[[\"x\",\"no\"],null]".toList := by
  have hx := renders_quoted (k := ['x']) (stringText_self (by decide))
  have hno := renders_quoted (k := ['n', 'o']) (stringText_self (by decide))
  have hanswer := renders_list hx (renders_entry hno renders_entriesEnd)
  simpa [refusedForm, Json.Form.null] using
    renders_list hanswer (renders_entry (.mark .null) renders_entriesEnd)

theorem renders_stopped : Renders (.form stoppedForm) "[[null],\"stop\"]".toList := by
  have hstop := renders_quoted (k := ['s', 't', 'o', 'p']) (stringText_self (by decide))
  have hanswer := renders_list (.mark .null) renders_entriesEnd
  simpa [stoppedForm, Json.Form.null] using
    renders_list hanswer (renders_entry hstop renders_entriesEnd)

theorem choosable_stopped : Choosable stoppedForm :=
  ⟨_, ⟨⟨none, none⟩, some "stop"⟩, renders_stopped.rendered, by rfl⟩

theorem rendered_refusedBody :
    (Json.Form.list [.list [refusedForm]]).Rendered refusedBody.toList := by
  have hchoices := renders_list renders_refused renders_entriesEnd
  unfold refusedBody
  simpa using (renders_list hchoices renders_entriesEnd).rendered

theorem rendered_variedBody :
    (Json.Form.object [("id".toList, .quoted "\\ud800".toList),
      ("choices".toList, .list [refusedForm, stoppedForm])]).Rendered variedBody.toList := by
  have hid := (@isKey_self "id" (by decide)).quoted
  have hchoices := (@isKey_self "choices" (by decide)).quoted
  have hlist := renders_list renders_refused
    (renders_entry renders_stopped renders_entriesEnd)
  have hbody := renders_object hid (.mark (.string quotedText_half))
    (renders_member hchoices hlist renders_membersEnd)
  unfold variedBody
  simpa [Json.Form.quoted] using hbody.rendered

/-- The other choice and the other member change nothing. -/
theorem varied_refusedBody : Relation.EqvGen Varied (.list [.list [refusedForm]])
    (.object [("id".toList, .quoted "\\ud800".toList),
      ("choices".toList, .list [refusedForm, stoppedForm])]) := by
  have hlater : Varied (.list [.list [refusedForm]]) (.list [.list [refusedForm, stoppedForm]]) :=
    .inr (.value (by simp) (by simp [choosable_stopped]))
  have hvalues : Varied (.object [("choices".toList, .list [refusedForm, stoppedForm])])
      (.list [.list [refusedForm, stoppedForm]]) :=
    .inl (.positional (.cons (isKey_self (by decide)) .nil))
  have hmember : Varied (.object [("choices".toList, .list [refusedForm, stoppedForm])])
      (.object [("id".toList, .quoted "\\ud800".toList),
        ("choices".toList, .list [refusedForm, stoppedForm])]) :=
    .inl (.extended [] _ (isKey_self (by decide)) (by decide))
  exact .trans _ _ _ (.rel _ _ hlater)
    (.trans _ _ _ (.symm _ _ (.rel _ _ hvalues)) (.rel _ _ hmember))

theorem ofCompletion_variedBody :
    Candidate.ofCompletion refusedBody = .error (.refused "no") ∧
      Candidate.ofCompletion variedBody = .error (.refused "no") ∧
      Candidate.ofCompletion emptyBody =
        .error (.malformedOutput "completion has no content (finish_reason: stop)") ∧
      Candidate.ofCompletion filledBody = Candidate.ofContent "x" := by
  have hrefused : Reader.whole completionRecord.read refusedBody.toList =
      .ok [⟨⟨some "x", some "no"⟩, none⟩] := by
    rfl
  have hempty : Reader.whole completionRecord.read emptyBody.toList =
      .ok [⟨⟨none, none⟩, some "stop"⟩] := by
    rfl
  have hfilled : Reader.whole completionRecord.read filledBody.toList =
      .ok [⟨⟨some "x", none⟩, none⟩] := by
    rfl
  have hfirst : Candidate.ofCompletion refusedBody = .error (.refused "no") :=
    ((Candidate.ofCompletion_first hrefused).1 "no").mpr ⟨rfl, by decide⟩
  refine ⟨hfirst, ?_, ?_, ?_⟩
  · rw [← hfirst]
    exact ((Candidate.ofCompletion_first hrefused).2.2.2 _ rendered_refusedBody).2 _ _
      varied_refusedBody rendered_variedBody
  · exact ((Candidate.ofCompletion_first hempty).2.1 (by simp)).1.mpr (by simp)
  · exact ((Candidate.ofCompletion_first hfilled).2.1 (by simp)).2 "x" rfl (by decide)

end VisualRules
