import VisualRules.Proofs.Rendering.Reading
import VisualRules.Proofs.Rendering.Roots

/-!
# What expressions mean

Reading a phrase gives the value of its node to the place where the reading has
come to, whatever is open around it. The values of closed groups are carried
along: they are those of the graph, and each reference finds its own.
-/

namespace VisualRules

open Relation

/-! ## Closed groups -/

/-- Each reference is to a group that is closed already or in the tokens before
it. -/
def Resolvable (closed : List (String × Bool)) (ts : List Token) : Prop :=
  ∀ before a after, ts = before ++ .reference a :: after →
    (closed.lookup a).isSome = true ∨ .closing a ∈ before

/-- After the tokens, the groups that were closed before them or in them are
closed. -/
def Grown (closed : List (String × Bool)) (ts : List Token)
    (closed' : List (String × Bool)) : Prop :=
  ∀ a, (closed.lookup a).isSome = true ∨ .closing a ∈ ts → (closed'.lookup a).isSome = true

section Closed

variable {closed closed' closed'' : List (String × Bool)} {ts us : List Token}

theorem Resolvable.left (h : Resolvable closed (ts ++ us)) : Resolvable closed ts := by
  rintro before a after rfl
  exact h before a (after ++ us) (by simp)

theorem Resolvable.right (h : Resolvable closed (ts ++ us)) (hgrown : Grown closed ts closed') :
    Resolvable closed' us := by
  rintro before a after rfl
  rcases h (ts ++ before) a after (by simp) with hclosed | hmem
  · exact .inl (hgrown a (.inl hclosed))
  · rcases List.mem_append.mp hmem with hmem | hmem
    · exact .inl (hgrown a (.inr hmem))
    · exact .inr hmem

theorem Grown.refl (h : ∀ a, .closing a ∉ ts) : Grown closed ts closed :=
  fun a ha => ha.resolve_right (h a)

theorem Grown.trans (h : Grown closed ts closed') (h' : Grown closed' us closed'') :
    Grown closed (ts ++ us) closed'' := by
  rintro a (ha | ha)
  · exact h' a (.inl (h a (.inl ha)))
  · rcases List.mem_append.mp ha with ha | ha
    · exact h' a (.inl (h a (.inr ha)))
    · exact h' a (.inr ha)

end Closed

namespace Reading

variable {holds : String → Bool} {s : Reading} {ts us : List Token}

theorem readAll_append :
    readAll holds s (ts ++ us) = (readAll holds s ts).bind fun s => readAll holds s us :=
  List.foldlM_append

theorem readAll_cons {t : Token} :
    readAll holds s (t :: ts) = (s.read holds t).bind fun s => readAll holds s ts := rfl

theorem readAll_singleton {t : Token} : readAll holds s [t] = s.read holds t := by
  rw [readAll_cons]
  exact Option.bind_fun_some _

/-! ## Groups that wait for an operand -/

/-- The value of the operands so far and the next one. -/
def joined (op : Operator) : Option Bool → Bool → Bool
  | none, b => b
  | some a, b => op.combine a b

theorem joined_joined (op : Operator) (acc : Option Bool) (b c : Bool) :
    joined op (some (joined op acc b)) c = joined op acc (op.combine b c) := by
  cases acc with
  | none => rfl
  | some a => exact op.combine_assoc a b c

/-- A group with the operands so far that waits for the next one. -/
def waiting (v : String) (op : Operator) (acc : Option Bool) : OpenGroup :=
  ⟨v, acc, acc.map fun _ => op⟩

theorem give_waiting {v : String} {op : Operator} {acc : Option Bool}
    {groups : List OpenGroup} {closed : List (String × Bool)} {result : Option Bool}
    (b : Bool) : give b ⟨waiting v op acc :: groups, closed, result⟩
      = some ⟨⟨v, some (joined op acc b), none⟩ :: groups, closed, result⟩ := by
  cases acc <;> rfl

theorem read_operator {v : String} {op : Operator} {a : Bool} {groups : List OpenGroup}
    {closed : List (String × Bool)} {result : Option Bool} :
    read holds ⟨⟨v, some a, none⟩ :: groups, closed, result⟩ (.operator v op)
      = some ⟨waiting v op (some a) :: groups, closed, result⟩ :=
  if_pos rfl

theorem read_closing {v : String} {a : Bool} {groups : List OpenGroup}
    {closed : List (String × Bool)} {result : Option Bool} :
    read holds ⟨⟨v, some a, none⟩ :: groups, closed, result⟩ (.closing v)
      = give a ⟨groups, (v, a) :: closed, result⟩ :=
  if_pos rfl

end Reading

/-! ## Phrases -/

section Phrases

variable {g : TriggerLogic} {wf : WellFounded fun b a => Linked g.edges a b}
  {holds : String → Bool}

/-- The values of closed groups are those of the graph. -/
def RightlyClosed (g : TriggerLogic) (wf : WellFounded fun b a => Linked g.edges a b)
    (holds : String → Bool) (closed : List (String × Bool)) : Prop :=
  ∀ m ∈ g.nodes, ∀ b, closed.lookup m.id = some b → b = g.value wf holds m

/-- Reading the tokens gives the value of the node to the place where the
reading has come to. -/
def Reads (g : TriggerLogic) (wf : WellFounded fun b a => Linked g.edges a b)
    (holds : String → Bool) (n : Node) (ts : List Token) : Prop :=
  ∀ s : Reading, RightlyClosed g wf holds s.closed → Resolvable s.closed ts →
    ∃ closed, RightlyClosed g wf holds closed ∧ Grown s.closed ts closed
      ∧ s.readAll holds ts = Reading.give (g.value wf holds n) { s with closed := closed }

/-- Operands with the operator in between are combined in the group around
them. -/
theorem reads_operands {v : String} {op : Operator} {parts : List (List Token)}
    {ns : List Node} (hparts : parts ≠ []) (hlength : parts.length = ns.length)
    (hreads : ∀ p ∈ ns.zip parts, Reads g wf holds p.1 p.2) (acc : Option Bool)
    (groups : List OpenGroup) {closed : List (String × Bool)} (result : Option Bool)
    (hright : RightlyClosed g wf holds closed)
    (hres : Resolvable closed (List.intercalate [.operator v op] parts)) :
    ∃ closed', RightlyClosed g wf holds closed'
      ∧ Grown closed (List.intercalate [.operator v op] parts) closed'
      ∧ Reading.readAll holds ⟨Reading.waiting v op acc :: groups, closed, result⟩
          (List.intercalate [.operator v op] parts)
        = some ⟨⟨v, some (Reading.joined op acc (op.total (ns.map (g.value wf holds)))),
            none⟩ :: groups, closed', result⟩ := by
  -- Behind each operator the group waits again, with one more operand in its value.
  induction parts generalizing ns acc closed with
  | nil => exact absurd rfl hparts
  | cons ts parts ih =>
      cases ns with
      | nil => cases hlength
      | cons n ns =>
          have hfirst := hreads (n, ts) (by simp)
          by_cases hnil : parts = []
          · subst hnil
            have hns : ns = [] := by simpa using hlength.symm
            subst hns
            rw [List.intercalate_singleton] at hres ⊢
            obtain ⟨closed', hright', hgrown, hread⟩ := hfirst
              ⟨Reading.waiting v op acc :: groups, closed, result⟩ hright hres
            refine ⟨closed', hright', hgrown, ?_⟩
            rw [hread, Reading.give_waiting]
            simp [Operator.total_singleton]
          · rw [List.intercalate_cons_of_ne_nil hnil, List.append_assoc] at hres ⊢
            obtain ⟨closed₁, hright₁, hgrown₁, hread₁⟩ := hfirst
              ⟨Reading.waiting v op acc :: groups, closed, result⟩ hright hres.left
            have hnone : Grown closed₁ [.operator v op] closed₁ := Grown.refl (by simp)
            obtain ⟨closed₂, hright₂, hgrown₂, hread₂⟩ := ih hnil
              (Nat.succ.inj hlength) (fun p hp => hreads p (by simp [hp]))
              (some (Reading.joined op acc (g.value wf holds n))) hright₁
              ((hres.right hgrown₁).right hnone)
            refine ⟨closed₂, hright₂, hgrown₁.trans (hnone.trans hgrown₂), ?_⟩
            rw [Reading.readAll_append, hread₁, Reading.give_waiting, Option.bind_some,
              List.singleton_append, Reading.readAll_cons, Reading.read_operator,
              Option.bind_some, hread₂, Reading.joined_joined, List.map_cons,
              Operator.total_cons]

/-- **Reading a phrase gives the value of its node.** -/
theorem Phrase.reads (h : g.WellFormed) {n : Node} {ts : List Token}
    (hphrase : Phrase g.liveChildren n ts) (hn : n ∈ g.nodes) : Reads g wf holds n ts := by
  induction hphrase with
  | @condition n label kind =>
      intro s hright _
      refine ⟨s.closed, hright, Grown.refl (by simp), ?_⟩
      rw [TriggerLogic.value_content kind, Reading.readAll_singleton]
      rfl
  | @reference n op kind =>
      intro s hright hres
      refine ⟨s.closed, hright, Grown.refl (by simp), ?_⟩
      -- No token stands before the reference, so its group was closed before.
      have hclosed := (hres [] n.id [] rfl).resolve_right (by simp)
      obtain ⟨b, hb⟩ := Option.isSome_iff_exists.mp hclosed
      rw [Reading.readAll_singleton, Reading.read, hb, ← hright n hn b hb]
      rfl
  | @group n op parts kind nonempty length phrases ih =>
      intro s hright hres
      obtain ⟨groups, closed, result⟩ := s
      have hreads : ∀ p ∈ (g.liveChildren n).zip parts, Reads g wf holds p.1 p.2 := by
        intro p hp
        have hchild := List.mem_of_mem_filter (List.of_mem_zip hp).1
        exact ih p hp (TriggerLogic.mem_of_mem_children hchild)
      have hopening : Grown closed [.opening n.id] closed := Grown.refl (by simp)
      have hinner : Resolvable closed (List.intercalate [.operator n.id op] parts) :=
        Resolvable.right hres.left hopening
      obtain ⟨closed', hright', hgrown, hread⟩ := reads_operands nonempty length hreads none
        groups result hright hinner
      refine ⟨(n.id, g.value wf holds n) :: closed', fun m hm b hb => ?_, fun a ha => ?_, ?_⟩
      · rw [List.lookup_cons] at hb
        cases hid : m.id == n.id with
        | true =>
            rw [hid] at hb
            have hmn := List.inj_on_of_nodup_map h.nodup hm hn (beq_iff_eq.mp hid)
            rw [hmn]
            exact (Option.some.inj hb).symm
        | false =>
            rw [hid] at hb
            exact hright' m hm b hb
      · rw [List.lookup_cons]
        cases hid : a == n.id with
        | true => rfl
        | false =>
            have hne : a ≠ n.id := by simpa using hid
            refine hgrown a (ha.imp_right fun hmem => ?_)
            simpa [hne] using hmem
      · have hvalue : g.value wf holds n
            = Reading.joined op none (op.total ((g.liveChildren n).map (g.value wf holds))) :=
          TriggerLogic.value_logic kind
        rw [List.cons_append, Reading.readAll_cons]
        show (Reading.readAll holds ⟨Reading.waiting n.id op none :: groups, closed, result⟩ _) = _
        rw [Reading.readAll_append, hread, Option.bind_some, Reading.readAll_singleton,
          Reading.read_closing, hvalue]

/-! ## Expressions -/

theorem readExpressions_cons {closed : List (String × Bool)} {e : Expression}
    {es : List Expression} {s : Reading}
    (hread : Reading.readAll holds ⟨[], closed, none⟩ e.tokens = some s)
    (hgroups : s.groups = []) : readExpressions holds closed (e :: es)
      = (readExpressions holds s.closed es).map ((e.root, s.result) :: ·) := by
  rw [readExpressions, hread, Option.bind_eq_bind, Option.bind_some,
    if_neg (by simpa using hgroups)]
  cases readExpressions holds s.closed es <;> rfl

theorem readExpressions_eq (h : g.WellFormed) {ns : List Node} {es : List Expression}
    (hall : List.Forall₂ g.Expressed ns es) (hns : ∀ n ∈ ns, n ∈ g.nodes)
    {closed : List (String × Bool)} (hright : RightlyClosed g wf holds closed)
    (hres : Resolvable closed (es.flatMap Expression.tokens)) :
    readExpressions holds closed es
      = some (ns.map fun n => (n.id, g.rootValue wf holds n)) := by
  induction hall generalizing closed with
  | nil => rfl
  | @cons n e ns es he _ ih =>
      rw [List.flatMap_cons] at hres
      have hns' : ∀ m ∈ ns, m ∈ g.nodes := fun m hm => hns m (by simp [hm])
      by_cases hlive : g.Live n
      · obtain ⟨closed', hright', hgrown, hread⟩ := Phrase.reads h (he.phrase hlive)
          (hns n (by simp)) ⟨[], closed, none⟩ hright hres.left
        have hread' : Reading.readAll holds ⟨[], closed, none⟩ e.tokens
            = some ⟨[], closed', some (g.value wf holds n)⟩ := hread
        rw [readExpressions_cons hread' rfl, ih hns' hright' (hres.right hgrown),
          List.map_cons, TriggerLogic.rootValue, if_pos hlive, he.root]
        rfl
      · have hnil := he.empty_iff.mpr hlive
        have hread : Reading.readAll holds ⟨[], closed, none⟩ e.tokens
            = some ⟨[], closed, none⟩ := by
          rw [hnil]
          rfl
        rw [hnil, List.nil_append] at hres
        rw [readExpressions_cons hread rfl, ih hns' hright hres, List.map_cons,
          TriggerLogic.rootValue, if_neg hlive, he.root]
        rfl

end Phrases

/-- **The expressions of a rule mean what its graph means.** Whatever conditions
hold, reading the expressions one after the other resolves every reference and
gives each root its value. -/
theorem Rule.readExpressions_of_validate {c : Candidate} {r : Rule}
    (h : c.validate = .ok r) (holds : String → Bool) :
    readExpressions holds [] r.expressions = some (r.logic.roots.map fun n => (n.id,
      r.logic.rootValue (Rule.wellFormed_of_validate h).wellFounded_linked_swap holds n)) := by
  have hwell := Rule.wellFormed_of_validate h
  have hlinear := hwell.linearised_expressions
  refine readExpressions_eq hwell hlinear.expressed
    (fun n hn => (TriggerLogic.WellFormed.mem_roots.mp hn).1) (fun m _ b hb => ?_)
    fun before a after hts => .inr (hlinear.resolved before a after hts)
  cases hb

theorem readExpressions_sharedRule :
    sharedRule.toCandidate.validate = .ok sharedRule
      ∧ readExpressions (· == "hat") [] sharedRule.expressions
        = some (sharedRule.logic.roots.map fun n => (n.id, sharedRule.logic.rootValue
          (Rule.wellFormed_of_validate validate_sharedRule).wellFounded_linked_swap
          (· == "hat") n)) :=
  ⟨validate_sharedRule, Rule.readExpressions_of_validate validate_sharedRule _⟩

end VisualRules
