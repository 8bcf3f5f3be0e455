import VisualRules.Proofs.Json.Locality
import VisualRules.Proofs.Rule.Writing
import VisualRules.Proofs.Validation.RoundTrip

/-!
# Two ways to a rule

A rule is read from a text directly, or a candidate is read and then validated. Both
ways come to the same rule. When there is none they differ in what is looked at first:
the direct way validates the candidate at the start of the text before it looks for
the end.
-/

namespace VisualRules

open Json (Local Framed Anything Reader dropGap)
open Json.Record (LocalFields local_read local_slot framed_read)

/-! ## The records of a candidate -/

theorem Json.Record.LocalFields.nil {δ : Type} : LocalFields ([] : List (Json.Field δ)) := by
  intro f hf
  cases hf

theorem Json.Record.LocalFields.cons {δ : Type} {f : Json.Field δ} {fields : List (Json.Field δ)}
    (hf : ∀ d, Local (f.read d)) (hfields : LocalFields fields) : LocalFields (f :: fields) := by
  intro f' hmem
  rcases List.mem_cons.mp hmem with rfl | hmem
  · exact hf
  · exact hfields f' hmem

theorem localFields_payload : LocalFields payloadRecord.fields :=
  .cons (local_slot Reader.local_variant) <|
    .cons (fun d => Reader.local_string.map (PayloadDraft.mk d.operator ∘ some)) .nil

theorem localFields_node : LocalFields nodeRecord.fields :=
  .cons (local_slot Reader.local_string) <|
    .cons (local_slot Reader.local_variant) <|
    .cons (local_slot (local_read localFields_payload)) .nil

theorem localFields_edge : LocalFields edgeRecord.fields :=
  .cons (local_slot Reader.local_string) <|
    .cons (local_slot Reader.local_string) <|
    .cons (local_slot Reader.local_string) .nil

theorem localFields_logic : LocalFields logicRecord.fields :=
  .cons (local_slot (Reader.local_list (local_read localFields_node))) <|
    .cons (local_slot (Reader.local_list (local_read localFields_edge))) <|
    .cons (local_slot Reader.local_int64) .nil

theorem localFields_targets : LocalFields targetsRecord.fields :=
  .cons (local_slot (Reader.local_list Reader.local_string)) .nil

theorem localFields_candidate : LocalFields candidateRecord.fields :=
  .cons (local_slot (local_read localFields_targets)) <|
    .cons (local_slot (local_read localFields_logic)) <|
    .cons (local_slot Reader.local_string) .nil

theorem framed_candidate (c : Candidate) :
    Framed Anything fun cs rest => candidateRecord.read cs = .ok (c, rest) :=
  framed_read localFields_candidate c

/-! ## The candidate at the start of a text -/

/-- A part at the front of the text is the text of a candidate, and `more` is what
follows it. -/
def Candidate.Starts (c : Candidate) (text more : String) : Prop :=
  ∃ doc, text = doc ++ more ∧ Candidate.ofText doc = .ok c

variable {c c' : Candidate} {text more : String} {rest : List Char}

theorem Candidate.starts_of_read (h : candidateRecord.read text.toList = .ok (c, rest)) :
    c.Starts text (String.ofList rest) := by
  obtain ⟨doc, hsplit, hdoc⟩ := Json.exists_whole (framed_candidate c) h
  refine ⟨String.ofList doc, ?_, ?_⟩
  · rw [← String.ofList_append, ← hsplit, String.ofList_toList]
  · rw [Candidate.ofText, String.toList_ofList]
    exact hdoc

theorem Candidate.Starts.read (h : c.Starts text more) :
    ∃ rest, candidateRecord.read text.toList = .ok (c, rest) ∧
      dropGap rest = dropGap more.toList := by
  obtain ⟨doc, rfl, hdoc⟩ := h
  rw [String.toList_append]
  exact Json.read_of_whole (framed_candidate c) hdoc more.toList

/-- A text starts with one candidate at most. -/
theorem Candidate.Starts.unique {more' : String} (h : c.Starts text more)
    (h' : c'.Starts text more') : c = c' := by
  obtain ⟨rest, hread, -⟩ := h.read
  obtain ⟨rest', hread', -⟩ := h'.read
  rw [hread] at hread'
  cases hread'
  rfl

/-! ## The outcomes -/

theorem ofText_of_read_error {e : Json.Refusal}
    (h : candidateRecord.read text.toList = .error e) :
    Candidate.ofText text = .error e ∧ Rule.ofText text = .error (.unreadable e) := by
  simp [Candidate.ofText, Rule.ofText, Reader.whole, h, bind, Except.bind, Except.mapError]

theorem Rule.ofText_of_invalid {d : Defect}
    (h : candidateRecord.read text.toList = .ok (c, rest)) (hd : c.validate = .error d) :
    Rule.ofText text = .error (.invalid d) := by
  simp [Rule.ofText, h, hd, bind, Except.bind, Except.mapError]

theorem Candidate.ofText_of_read (h : candidateRecord.read text.toList = .ok (c, rest)) :
    Candidate.ofText text
      = if dropGap rest = [] then .ok c else .error { fault := .trailingCharacters } := by
  cases hrest : dropGap rest <;>
    simp [Candidate.ofText, Reader.whole, h, Reader.atEnd, hrest, Reader.fail, bind, Except.bind,
      pure, Except.pure]

theorem Rule.ofText_of_valid {r : Rule}
    (h : candidateRecord.read text.toList = .ok (c, rest)) (hr : c.validate = .ok r) :
    Rule.ofText text = if dropGap rest = [] then .ok r
      else .error (.unreadable { fault := .trailingCharacters }) := by
  cases hrest : dropGap rest <;>
    simp [Rule.ofText, h, hr, Reader.atEnd, hrest, Reader.fail, bind, Except.bind,
      Except.mapError, pure, Except.pure]

/-! ## The agreement -/

theorem Rule.ofText_eq_ok_iff {r : Rule} :
    Rule.ofText text = .ok r ↔ ∃ c, Candidate.ofText text = .ok c ∧ c.validate = .ok r := by
  cases hread : candidateRecord.read text.toList with
  | error e =>
      obtain ⟨hcandidate, hrule⟩ := ofText_of_read_error hread
      simp [hcandidate, hrule]
  | ok p =>
      obtain ⟨c, rest⟩ := p
      rw [Candidate.ofText_of_read hread]
      cases hvalid : c.validate with
      | error d =>
          rw [Rule.ofText_of_invalid hread hvalid]
          by_cases hrest : dropGap rest = [] <;> simp [hrest, hvalid]
      | ok r' =>
          rw [Rule.ofText_of_valid hread hvalid]
          by_cases hrest : dropGap rest = [] <;> simp [hrest, hvalid]

/-- **Reading a rule is reading a candidate and validating it.** The rules are the same
for every text. A text that starts with no candidate is refused for the same reason. If
the candidate at the start is not valid, then a rule is refused for that, whatever
follows; if it is valid, both find the text behind it. -/
theorem Rule.ofText_agrees (text : String) :
    (∀ r, Rule.ofText text = .ok r ↔
      ∃ c, Candidate.ofText text = .ok c ∧ c.validate = .ok r) ∧
    ((∀ c more, ¬ Candidate.Starts c text more) →
      ∃ e, Candidate.ofText text = .error e ∧ Rule.ofText text = .error (.unreadable e)) ∧
    ∀ c more, Candidate.Starts c text more →
      (∀ c' more', Candidate.Starts c' text more' → c' = c) ∧
      (∀ d, c.validate = .error d → Rule.ofText text = .error (.invalid d)) ∧
      ∀ r, c.validate = .ok r → (∃ x ∈ more.toList, Json.isGap x = false) →
        Candidate.ofText text = .error { fault := .trailingCharacters } ∧
          Rule.ofText text = .error (.unreadable { fault := .trailingCharacters }) := by
  refine ⟨fun r => Rule.ofText_eq_ok_iff, fun hnone => ?_, fun c more hstarts => ?_⟩
  · cases hread : candidateRecord.read text.toList with
    | error e => exact ⟨e, ofText_of_read_error hread⟩
    | ok p => exact absurd (Candidate.starts_of_read hread) (hnone _ _)
  · obtain ⟨rest, hread, hrest⟩ := hstarts.read
    refine ⟨fun c' more' h => h.unique hstarts, fun d hd => ?_, fun r hr hmore => ?_⟩
    · exact Rule.ofText_of_invalid hread hd
    · have hne : dropGap rest ≠ [] := by
        obtain ⟨x, hx, hgap⟩ := hmore
        rw [hrest]
        intro hnil
        have hall := List.dropWhile_eq_nil_iff.mp hnil x hx
        rw [hgap] at hall
        cases hall
      rw [Candidate.ofText_of_read hread, Rule.ofText_of_valid hread hr, if_neg hne, if_neg hne]
      exact ⟨rfl, rfl⟩

/-- A bracket behind the text of a candidate hides a cycle from the one who reads a
candidate only. -/
theorem ofText_then_bracket :
    (Candidate.Starts .crossed (String.ofList (Candidate.crossed.toValue.write .compact) ++ "]") "]" ∧
      Rule.ofText (String.ofList (Candidate.crossed.toValue.write .compact) ++ "]")
        = .error (.invalid (.cycle "g"))) ∧
    Rule.ofText (String.ofList (spacedCandidate.toValue.write .compact) ++ "]")
      = .error (.unreadable { fault := .trailingCharacters }) := by
  have hcrossed := Candidate.ofText_write .crossed .compact
  have hspaced := Candidate.ofText_write spacedCandidate .compact
  refine ⟨⟨⟨_, rfl, hcrossed⟩, ?_⟩, ?_⟩
  · exact ((Rule.ofText_agrees _).2.2 _ _ ⟨_, rfl, hcrossed⟩).2.1 _ Candidate.validate_crossed
  · exact (((Rule.ofText_agrees _).2.2 _ _ ⟨_, rfl, hspaced⟩).2.2 _ validate_spacedCandidate
      ⟨']', by decide, by decide⟩).2

end VisualRules
