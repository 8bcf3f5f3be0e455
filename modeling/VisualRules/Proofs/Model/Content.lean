import Mathlib.Data.List.Basic
import VisualRules.Model.Completion
import VisualRules.Proofs.Rule.Writing

/-!
# The document in a content

What the model says may hold prose or a fence around the document. The document is taken
from the first opening brace to the last closing one behind it, and which text that is
follows from where the braces stand alone: what is inside the document does not matter,
nor does a closing brace in front of it or an opening one behind it.
-/

namespace VisualRules

open Json (Value)

variable {cs doc front back : List Char}

/-! ## The text between the braces -/

/-- A text that starts with an opening brace and ends with a closing one. -/
structure Bracketed (doc : List Char) : Prop where
  head : doc.head? = some '{'
  last : doc.getLast? = some '}'

/-- An opening brace, and a closing one somewhere behind it. -/
def HasBraces (cs : List Char) : Prop :=
  ∃ front back, cs = front ++ '{' :: back ∧ '}' ∈ back

theorem Bracketed.exists_inner (h : Bracketed doc) : ∃ inner, doc = '{' :: (inner ++ ['}']) := by
  obtain ⟨rest, rfl⟩ := List.head?_eq_some_iff.mp h.head
  have hlast := h.last
  rw [List.getLast?_cons] at hlast
  cases hrest : rest.getLast? with
  | none =>
    -- A single character is no pair of braces.
    rw [hrest] at hlast
    cases hlast
  | some c =>
    rw [hrest] at hlast
    obtain rfl : c = '}' := Option.some_inj.mp hlast
    obtain ⟨inner, rfl⟩ := List.getLast?_eq_some_iff.mp hrest
    exact ⟨inner, rfl⟩

theorem dropWhile_ne_append {c : Char} (h : c ∉ front) (rest : List Char) :
    (front ++ c :: rest).dropWhile (· ≠ c) = c :: rest := by
  rw [List.dropWhile_append_of_pos]
  · simp
  · intro d hd
    have hne : d ≠ c := by
      rintro rfl
      exact h hd
    simpa using hne

theorem braced?_surrounded (hfront : '{' ∉ front) (hback : '}' ∉ back) (hdoc : Bracketed doc) :
    braced? (front ++ doc ++ back) = some doc := by
  obtain ⟨inner, rfl⟩ := hdoc.exists_inner
  have hstart : (front ++ '{' :: (inner ++ ['}']) ++ back).dropWhile (· ≠ '{')
      = '{' :: (inner ++ '}' :: back) := by
    rw [List.append_assoc, List.cons_append, dropWhile_ne_append hfront]
    simp
  have hreverse : ('{' :: (inner ++ '}' :: back)).reverse
      = back.reverse ++ '}' :: (inner.reverse ++ ['{']) := by
    simp
  have hending : ('{' :: (inner ++ '}' :: back)).reverse.dropWhile (· ≠ '}')
      = '}' :: (inner.reverse ++ ['{']) := by
    rw [hreverse, dropWhile_ne_append]
    rwa [List.mem_reverse]
  rw [braced?, hstart]
  simp only [hending]
  simp

/-- The first opening brace and the last closing one behind it may be taken. -/
theorem HasBraces.exists_surrounded (h : HasBraces cs) :
    ∃ front doc back, cs = front ++ doc ++ back ∧ '{' ∉ front ∧ '}' ∉ back ∧ Bracketed doc := by
  obtain ⟨before, behind, hcs, hclosing⟩ := h
  have hopening : '{' ∈ cs := by rw [hcs]; simp
  obtain ⟨front, rest, hfirst, hfront⟩ := List.eq_append_cons_of_mem hopening
  -- What is behind the given brace is behind the first one.
  have hmem : '}' ∈ rest := by
    rw [hcs] at hfirst
    rcases List.append_eq_append_iff.mp hfirst with ⟨more, rfl, hmore⟩ | ⟨more, rfl, hmore⟩
    · cases more with
      | nil => simpa [← (List.cons.inj hmore).2] using hclosing
      | cons c more => simp [← (List.cons.inj hmore).1] at hfront
    · cases more with
      | nil => simpa [(List.cons.inj hmore).2] using hclosing
      | cons c more => simp [(List.cons.inj hmore).2, hclosing]
  obtain ⟨back, inner, hlast, hback⟩ :=
    List.eq_append_cons_of_mem (List.mem_reverse.mpr hmem)
  have hrest : rest = inner.reverse ++ '}' :: back.reverse := by
    simpa using congrArg List.reverse hlast
  refine ⟨front, '{' :: (inner.reverse ++ ['}']), back.reverse, ?_, hfront, ?_, ?_, ?_⟩
  · rw [hfirst, hrest]
    simp
  · rwa [List.mem_reverse]
  · rfl
  · rw [← List.cons_append, List.getLast?_concat]

theorem dropWhile_ne_of_not_mem {c : Char} (h : c ∉ cs) : cs.dropWhile (· ≠ c) = [] := by
  rw [List.dropWhile_eq_nil_iff]
  intro d hd
  have hne : d ≠ c := by
    rintro rfl
    exact h hd
  simpa using hne

theorem braced?_of_not_hasBraces (h : ¬ HasBraces cs) : braced? cs = none := by
  by_cases hopening : '{' ∈ cs
  · obtain ⟨front, rest, rfl, hfront⟩ := List.eq_append_cons_of_mem hopening
    have hclosing : '}' ∉ ('{' :: rest).reverse := by
      rw [List.mem_reverse, List.mem_cons, not_or]
      exact ⟨by decide, fun hmem => h ⟨front, rest, rfl, hmem⟩⟩
    rw [braced?, dropWhile_ne_append hfront]
    simp only [dropWhile_ne_of_not_mem hclosing]
  · rw [braced?, dropWhile_ne_of_not_mem hopening]

/-- **Which text is taken.** It starts with the first opening brace and ends with the last
closing one. -/
theorem braced?_eq_some_iff : braced? cs = some doc ↔
    ∃ front back, cs = front ++ doc ++ back ∧ '{' ∉ front ∧ '}' ∉ back ∧ Bracketed doc := by
  constructor
  · intro h
    have hbraces : HasBraces cs := by
      by_contra hnone
      rw [braced?_of_not_hasBraces hnone] at h
      cases h
    obtain ⟨front, doc', back, rfl, hfront, hback, hdoc⟩ := hbraces.exists_surrounded
    rw [braced?_surrounded hfront hback hdoc] at h
    obtain rfl := Option.some_inj.mp h
    exact ⟨front, back, rfl, hfront, hback, hdoc⟩
  · rintro ⟨front, back, rfl, hfront, hback, hdoc⟩
    exact braced?_surrounded hfront hback hdoc

theorem braced?_eq_none_iff : braced? cs = none ↔ ¬ HasBraces cs := by
  constructor
  · intro h hbraces
    obtain ⟨front, doc, back, rfl, hfront, hback, hdoc⟩ := hbraces.exists_surrounded
    rw [braced?_surrounded hfront hback hdoc] at h
    cases h
  · exact braced?_of_not_hasBraces

/-! ## Reading the document -/

/-- Each object is written between braces. -/
theorem bracketed_write (s : Value.Setting) (members : List (String × Value)) :
    Bracketed ((Value.object members).write s) := by
  cases members with
  | nil => exact ⟨by rw [Value.write]; rfl, by rw [Value.write]; rfl⟩
  | cons m members =>
    obtain ⟨key, v⟩ := m
    rw [Value.write]
    constructor
    · rfl
    · rw [← List.cons_append, List.getLast?_concat]

/-- How a document in a content is refused. -/
theorem Candidate.ofContent_eq {content : String} (h : braced? content.toList = some doc) :
    Candidate.ofContent content = (Candidate.ofText (String.ofList doc)).mapError fun r =>
      .malformedOutput ("Failed to parse rule: " ++ r.message) := by
  rw [Candidate.ofContent, h, Candidate.ofText, String.toList_ofList]

theorem Candidate.ofContent_eq_noDocument_iff {content : String} :
    Candidate.ofContent content = .error (.malformedOutput "no JSON object in model output") ↔
      ¬ HasBraces content.toList := by
  rw [← braced?_eq_none_iff]
  constructor
  · intro h
    cases hdoc : braced? content.toList with
    | none => rfl
    | some doc =>
      -- A document that is refused is refused with other words.
      rw [ofContent_eq hdoc] at h
      cases hread : Candidate.ofText (String.ofList doc) with
      | ok c =>
        rw [hread] at h
        cases h
      | error r =>
        rw [hread] at h
        have hmessage : "Failed to parse rule: " ++ r.message = "no JSON object in model output" := by
          simpa [Except.mapError] using h
        have htexts := congrArg String.toList hmessage
        rw [String.toList_append] at htexts
        cases htexts
  · intro h
    rw [Candidate.ofContent, h]

/-- **What surrounds the document is transparent.** Whatever stands in front of the first opening
brace and behind the last closing one, the text between them is read as if it stood alone; so each
written candidate is read back. A content without a pair of braces, and no other one, is said to
hold no document. -/
theorem Candidate.ofContent_surrounded :
    (∀ front document back : String, '{' ∉ front.toList → '}' ∉ back.toList →
      Bracketed document.toList →
      Candidate.ofContent (front ++ document ++ back) =
        (Candidate.ofText document).mapError fun r =>
          .malformedOutput ("Failed to parse rule: " ++ r.message)) ∧
    (∀ (c : Candidate) (s : Value.Setting) (front back : String), '{' ∉ front.toList →
      '}' ∉ back.toList →
      Candidate.ofContent (front ++ String.ofList (c.toValue.write s) ++ back) = .ok c) ∧
    ∀ content : String,
      Candidate.ofContent content = .error (.malformedOutput "no JSON object in model output") ↔
        ¬ HasBraces content.toList := by
  have hdocument : ∀ front document back : String, '{' ∉ front.toList → '}' ∉ back.toList →
      Bracketed document.toList →
      Candidate.ofContent (front ++ document ++ back) =
        (Candidate.ofText document).mapError fun r =>
          .malformedOutput ("Failed to parse rule: " ++ r.message) := by
    intro front document back hfront hback hbracketed
    have htaken : braced? (front ++ document ++ back).toList = some document.toList := by
      rw [String.toList_append, String.toList_append]
      exact braced?_surrounded hfront hback hbracketed
    rw [ofContent_eq htaken, String.ofList_toList]
  refine ⟨hdocument, ?_, fun content => ofContent_eq_noDocument_iff⟩
  intro c s front back hfront hback
  have hbracketed : Bracketed (String.ofList (c.toValue.write s)).toList := by
    rw [String.toList_ofList]
    exact bracketed_write s _
  rw [hdocument front _ back hfront hback hbracketed, ofText_write]
  rfl

/-- A candidate whose texts hold braces, quotes and a fence. -/
def fencedCandidate : Candidate where
  targetObjects := ["\x7d\x7d", "```json"]
  logic :=
    { nodes := [.content "\x7b" "a \"sign\" with \x7b\x7d or ``` on it"]
      edges := []
      thresholdSeconds := -1 }
  alertMessage := "\x7d] ``` \x7b\"a\": [\x7b"

/-- In front of the candidate stands a closing brace, and an opening one behind it. A bracket out
of place is found behind prose too, and braces that face away from each other are no pair. -/
theorem ofContent_fencedCandidate :
    '{' ∉ "Here it is \x7d:\n```json\n".toList ∧ '}' ∉ "\n``` \x7b Anything else?".toList ∧
      Bracketed "\x7b]\x7d".toList ∧ ¬ HasBraces "\x7d nothing \x7b".toList ∧
      Candidate.ofContent ("Here it is \x7d:\n```json\n" ++
        String.ofList (fencedCandidate.toValue.write (.indented 0)) ++
          "\n``` \x7b Anything else?") = .ok fencedCandidate ∧
      Candidate.ofContent ("Here it is \x7d:\n```json\n" ++ "\x7b]\x7d" ++
          "\n``` \x7b Anything else?") =
        .error (.malformedOutput "Failed to parse rule: key must be a string") ∧
      Candidate.ofContent "\x7d nothing \x7b" =
        .error (.malformedOutput "no JSON object in model output") := by
  have hfront : '{' ∉ "Here it is \x7d:\n```json\n".toList := by decide
  have hback : '}' ∉ "\n``` \x7b Anything else?".toList := by decide
  have hbracketed : Bracketed "\x7b]\x7d".toList := ⟨rfl, rfl⟩
  have hnone : ¬ HasBraces "\x7d nothing \x7b".toList := braced?_eq_none_iff.mp rfl
  have hsurrounded := Candidate.ofContent_surrounded
  refine ⟨hfront, hback, hbracketed, hnone, ?_, ?_, ?_⟩
  · exact hsurrounded.2.1 _ _ _ _ hfront hback
  · exact hsurrounded.1 _ _ _ hfront hback hbracketed
  · exact (hsurrounded.2.2 _).mpr hnone

end VisualRules
