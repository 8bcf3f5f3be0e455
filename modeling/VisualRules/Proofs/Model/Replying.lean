import VisualRules.Model.Client
import VisualRules.Proofs.Bytes.Boundary

/-!
# Replies of the model endpoint

The status of a reply decides what becomes of it. Only a reply that reports success is
read as a completion; the body of any other one is at most shown, and then it is
shortened without taking a character apart.
-/

namespace VisualRules

/-! ## The status -/

namespace ModelReply

variable {r : ModelReply}

theorem isSuccess_iff : r.isSuccess = true ↔ 200 ≤ r.status ∧ r.status ≤ 299 := by
  rw [isSuccess, Bool.and_eq_true, decide_eq_true_iff, decide_eq_true_iff]

theorem candidate_of_tooMany (h : r.status = 429) : r.candidate = .error .rateLimited := by
  have hstatus : r.status = tooManyRequests := h
  rw [candidate, if_pos hstatus]

theorem candidate_of_failure (hmany : r.status ≠ 429) (h : ¬ (200 ≤ r.status ∧ r.status ≤ 299)) :
    r.candidate = .error (.status r.status (Text.truncated longestErrorBody r.body)) := by
  have hfailure : (!r.isSuccess) = true := by
    rw [Bool.not_eq_true', ← Bool.not_eq_true, isSuccess_iff]
    exact h
  have hstatus : r.status ≠ tooManyRequests := hmany
  rw [candidate, if_neg hstatus, if_pos hfailure]

theorem candidate_of_success (h : 200 ≤ r.status ∧ r.status ≤ 299) :
    r.candidate = Candidate.ofCompletion r.body := by
  have hmany : r.status ≠ tooManyRequests := by
    rw [tooManyRequests]
    omega
  rw [candidate, if_neg hmany, isSuccess_iff.mpr h]
  rfl

end ModelReply

theorem ModelClient.generate_of_replied {c : ModelClient} {deliver : ModelRequest → Delivery}
    {p : Prompt} {key : String} {reply : ModelReply} (hkey : c.key = some key)
    (hreply : deliver (c.request key p) = .replied reply) :
    c.generate deliver p = reply.candidate.mapError Failure.model := by
  rw [generate, hkey]
  show (c.received (deliver (c.request key p))).mapError Failure.model = _
  rw [hreply, received]

/-! ## The body -/

theorem Text.boundaryFrom?_isSome (bs : Bytes) (n : Nat) : (boundaryFrom? bs n).isSome = true := by
  induction n with
  | zero => rfl
  | succ n ih =>
    rw [boundaryFrom?]
    by_cases h : isBoundary bs (n + 1) = true
    · rw [if_pos h]
      rfl
    · rw [if_neg h]
      exact ih

theorem Text.truncated_of_fits {limit : Nat} {s : String} (h : s.utf8ByteSize ≤ limit) :
    truncated limit s = s :=
  if_pos h

/-- **A reply is judged by its status before its body is looked at**: too many requests are told
as that, another failure with its status and the shortened body, and the body of a success is read
as a completion. A text that fits is not shortened. Otherwise the search for the cut ends, it does
so at the end of the longest front of whole characters that fits, and three dots follow. -/
theorem ModelClient.generate_replied :
    (∀ (c : ModelClient) (deliver : ModelRequest → Delivery) (p : Prompt) (key : String)
        (reply : ModelReply), c.key = some key → deliver (c.request key p) = .replied reply →
      (reply.status = 429 → c.generate deliver p = .error (.model .rateLimited)) ∧
      (reply.status ≠ 429 → ¬ (200 ≤ reply.status ∧ reply.status ≤ 299) →
        c.generate deliver p = .error (.model (.status reply.status
          (Text.truncated ModelReply.longestErrorBody reply.body)))) ∧
      (200 ≤ reply.status ∧ reply.status ≤ 299 →
        c.generate deliver p = (Candidate.ofCompletion reply.body).mapError Failure.model)) ∧
    ∀ (limit : Nat) (body : String),
      (Text.boundaryFrom? (Bytes.ofText body) limit).isSome = true ∧
      (body.utf8ByteSize ≤ limit → Text.truncated limit body = body) ∧
      (limit < body.utf8ByteSize → ∃ front, Text.Shortened limit body front ∧
        Text.boundaryFrom? (Bytes.ofText body) limit = some front.utf8ByteSize ∧
        Text.truncated limit body = front ++ "...") := by
  constructor
  · intro c deliver p key reply hkey hreply
    rw [generate_of_replied hkey hreply]
    refine ⟨?_, ?_, ?_⟩
    · intro hmany
      rw [ModelReply.candidate_of_tooMany hmany]
      rfl
    · intro hmany hfailure
      rw [ModelReply.candidate_of_failure hmany hfailure]
      rfl
    · intro hsuccess
      rw [ModelReply.candidate_of_success hsuccess]
  · intro limit body
    exact ⟨Text.boundaryFrom?_isSome _ limit, Text.truncated_of_fits, Text.exists_shortened⟩

/-- A client with a key. -/
def keyedClient : ModelClient :=
  .ofSettings { apiKey := some "key" }

/-- A completion that would be read as a refusal. -/
def refusingBody : String :=
  "\x7b\"choices\":[\x7b\"message\":\x7b\"refusal\":\"no\"\x7d\x7d]\x7d"

/-- A prompt without media. -/
def barePrompt : Prompt :=
  .assemble ⟨"Helmets", "Watch for people without a helmet"⟩ []

theorem ofCompletion_refusingBody :
    Candidate.ofCompletion refusingBody = .error (.refused "no") := by
  rfl

/-- The same body comes with three statuses, and a text of two-byte characters is cut in front of
the one that begins at the last byte allowed. -/
theorem generate_replied_refusing :
    keyedClient.generate (fun _ => .replied ⟨429, refusingBody⟩) barePrompt =
        .error (.model .rateLimited) ∧
      keyedClient.generate (fun _ => .replied ⟨503, refusingBody⟩) barePrompt =
        .error (.model (.status 503 refusingBody)) ∧
      keyedClient.generate (fun _ => .replied ⟨200, refusingBody⟩) barePrompt =
        .error (.model (.refused "no")) ∧
      ∃ front, Text.Shortened 3 "ééé" front ∧ Text.truncated 3 "ééé" = front ++ "..." := by
  have hreplies := ModelClient.generate_replied
  have hkey : keyedClient.key = some "key" := by decide
  have hbody : Text.truncated ModelReply.longestErrorBody refusingBody = refusingBody := by
    exact (hreplies.2 _ _).2.1 (by decide)
  refine ⟨?_, ?_, ?_, ?_⟩
  · exact (hreplies.1 _ _ barePrompt _ ⟨429, refusingBody⟩ hkey rfl).1 rfl
  · rw [(hreplies.1 _ _ barePrompt _ ⟨503, refusingBody⟩ hkey rfl).2.1 (by decide) (by decide),
      hbody]
  · rw [(hreplies.1 _ _ barePrompt _ ⟨200, refusingBody⟩ hkey rfl).2.2 (by decide),
      ofCompletion_refusingBody]
    rfl
  · obtain ⟨front, hfront, -, htext⟩ := (hreplies.2 3 "ééé").2.2 (by decide)
    exact ⟨front, hfront, htext⟩

end VisualRules
