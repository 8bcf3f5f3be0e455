import VisualRules.Proofs.Rendering.Outline

/-!
# Writing out one root

The writing takes the pending pieces one by one and each step writes one token.
Whatever the rest of the pieces is turned into, the tokens of a step and the
rest together are what the pieces before the step stand for. The groups that
have been opened, the tokens so far and the pending pieces are tied together by
an invariant, from which it follows that no group is opened twice and that a
reference comes after the group that it refers to.
-/

namespace VisualRules.Outline

open Relation

variable {o : Outline} {operands : Node → List Node} {earlier : List Token}

/-! ## Steps -/

/-- A step from one state to the next writes a token. -/
inductive Writes (o : Outline) : Writing → Token → Writing → Prop
  | known {x : Array Bool} {out : List Token} {t : Token} {tasks : List Task} :
      Writes o ⟨x, out, .write t :: tasks⟩ t ⟨x, t :: out, tasks⟩
  | condition {x : Array Bool} {out : List Token} {v : Nat} {tasks : List Task}
      {label : String} (kind : (o.nodeAt v).kind = .content label) :
      Writes o ⟨x, out, .visit v :: tasks⟩ (.condition (o.nodeAt v).id label)
        ⟨x, .condition (o.nodeAt v).id label :: out, tasks⟩
  | reference {x : Array Bool} {out : List Token} {v : Nat} {tasks : List Task}
      {op : Operator} (kind : (o.nodeAt v).kind = .logic op)
      (expanded : x.getD v false = true) :
      Writes o ⟨x, out, .visit v :: tasks⟩ (.reference (o.nodeAt v).id)
        ⟨x, .reference (o.nodeAt v).id :: out, tasks⟩
  | opening {x : Array Bool} {out : List Token} {v : Nat} {tasks : List Task}
      {op : Operator} (kind : (o.nodeAt v).kind = .logic op)
      (fresh : x.getD v false = false) :
      Writes o ⟨x, out, .visit v :: tasks⟩ (.opening (o.nodeAt v).id)
        ⟨x.setIfInBounds v true, .opening (o.nodeAt v).id :: out,
          operandTasks (o.nodeAt v).id op (o.operands.children v)
            ++ .write (.closing (o.nodeAt v).id) :: tasks⟩

theorem writes_step {s : Writing} (h : s.tasks ≠ []) : ∃ t, Writes o s t (o.step s) := by
  obtain ⟨x, out, _ | ⟨v | t, tasks⟩⟩ := s
  · exact absurd rfl h
  · cases hkind : (o.nodeAt v).kind with
    | content label =>
        have hstep : o.step ⟨x, out, .visit v :: tasks⟩
            = ⟨x, .condition (o.nodeAt v).id label :: out, tasks⟩ := by
          rw [nodeAt] at hkind
          simp only [step, hkind]
          rfl
        rw [hstep]
        exact ⟨_, .condition hkind⟩
    | logic op =>
        by_cases hx : x.getD v false = true
        · have hstep : o.step ⟨x, out, .visit v :: tasks⟩
              = ⟨x, .reference (o.nodeAt v).id :: out, tasks⟩ := by
            rw [nodeAt] at hkind
            simp only [step, hkind, hx, if_true]
            rfl
          rw [hstep]
          exact ⟨_, .reference hkind hx⟩
        · rw [Bool.not_eq_true] at hx
          have hstep : o.step ⟨x, out, .visit v :: tasks⟩
              = ⟨x.setIfInBounds v true, .opening (o.nodeAt v).id :: out,
                operandTasks (o.nodeAt v).id op (o.operands.children v)
                  ++ .write (.closing (o.nodeAt v).id) :: tasks⟩ := by
            rw [nodeAt] at hkind
            simp only [step, hkind, hx]
            rfl
          rw [hstep]
          exact ⟨_, .opening hkind hx⟩
  · exact ⟨_, .known⟩

theorem run_zero (s : Writing) : o.run 0 s = s := rfl

theorem run_of_done (n : Nat) {s : Writing} (h : s.tasks = []) : o.run n s = s := by
  cases n with
  | zero => rfl
  | succ n => simp only [run, h]

theorem run_succ (n : Nat) {s : Writing} (h : s.tasks ≠ []) :
    o.run (n + 1) s = o.run n (o.step s) := by
  cases htasks : s.tasks with
  | nil => exact absurd htasks h
  | cons task tasks => simp only [run, htasks]

/-! ## Operands as pieces -/

theorem visit_mem_operandTasks {a : String} {op : Operator} {vs : List Nat} {w : Nat} :
    .visit w ∈ operandTasks a op vs ↔ w ∈ vs := by
  induction vs using operandTasks.induct with
  | case1 => simp [operandTasks]
  | case2 v => simp [operandTasks]
  | case3 v vs hne ih => simp [operandTasks, ih]

theorem write_mem_operandTasks {a : String} {op : Operator} {vs : List Nat} {t : Token}
    (h : .write t ∈ operandTasks a op vs) : t = .operator a op := by
  induction vs using operandTasks.induct with
  | case1 => simp [operandTasks] at h
  | case2 v => simp [operandTasks] at h
  | case3 v vs hne ih =>
      rw [operandTasks, List.mem_cons, List.mem_cons] at h
      · rcases h with h | h | h
        · cases h
        · cases h
          rfl
        · exact ih h
      · exact hne

theorem length_operandTasks_le (a : String) (op : Operator) (vs : List Nat) :
    (operandTasks a op vs).length ≤ 2 * vs.length := by
  induction vs using operandTasks.induct with
  | case1 => simp [operandTasks]
  | case2 v => simp [operandTasks]
  | case3 v vs hne ih =>
      rw [operandTasks, List.length_cons, List.length_cons, List.length_cons]
      · omega
      · exact hne

/-! ## What pending pieces stand for -/

/-- Tokens that pending pieces may be turned into: a phrase for each node, and
each known token as it is. -/
inductive Pieces (o : Outline) (operands : Node → List Node) : List Task → List Token → Prop
  | nil : Pieces o operands [] []
  | write {t : Token} {tasks : List Task} {us : List Token}
      (rest : Pieces o operands tasks us) : Pieces o operands (.write t :: tasks) (t :: us)
  | visit {v : Nat} {ts : List Token} {tasks : List Task} {us : List Token}
      (phrase : Phrase operands (o.nodeAt v) ts) (rest : Pieces o operands tasks us) :
      Pieces o operands (.visit v :: tasks) (ts ++ us)

/-- The pieces of operands stand for one phrase each with the operator in
between. -/
theorem Pieces.of_operandTasks {a : String} {op : Operator} {vs : List Nat}
    {tasks : List Task} {us : List Token} (hvs : vs ≠ [])
    (h : Pieces o operands (operandTasks a op vs ++ tasks) us) :
    ∃ parts rest, parts ≠ [] ∧ parts.length = vs.length
      ∧ (∀ p ∈ (vs.map o.nodeAt).zip parts, Phrase operands p.1 p.2)
      ∧ Pieces o operands tasks rest
      ∧ us = List.intercalate [.operator a op] parts ++ rest := by
  induction vs using operandTasks.induct generalizing us with
  | case1 => exact absurd rfl hvs
  | case2 v =>
      rw [operandTasks, List.singleton_append] at h
      cases h with
      | @visit _ ts _ rest phrase hrest =>
          exact ⟨[ts], rest, by simp, rfl, by simpa using phrase, hrest, by simp⟩
  | case3 v vs hne ih =>
      rw [operandTasks, List.cons_append, List.cons_append] at h
      · cases h with
        | @visit _ ts _ _ phrase h =>
            cases h with
            | @write _ _ us h =>
                obtain ⟨parts, rest, hparts, hlength, hphrases, hrest, rfl⟩ := ih hne h
                refine ⟨ts :: parts, rest, by simp, by simp [hlength], ?_, hrest, ?_⟩
                · intro p hp
                  rw [List.map_cons, List.zip_cons_cons, List.mem_cons] at hp
                  rcases hp with rfl | hp
                  · exact phrase
                  · exact hphrases p hp
                · rw [List.intercalate_cons_of_ne_nil hparts]
                  simp
      · exact hne

/-- The operands that the outline holds are those of a function on nodes. -/
def Lists (o : Outline) (operands : Node → List Node) : Prop :=
  ∀ v, v < o.nodes.size → (o.operands.children v).map o.nodeAt = operands (o.nodeAt v)

/-- The pieces before a step stand for its token and what the pieces after it
stand for. -/
theorem Writes.pieces {s s' : Writing} {t : Token} {us : List Token} (ho : o.Sound)
    (hlists : o.Lists operands) (h : Writes o s t s')
    (hvisits : ∀ v, .visit v ∈ s.tasks → o.LiveAt v ∧ v < o.nodes.size)
    (hus : Pieces o operands s'.tasks us) : Pieces o operands s.tasks (t :: us) := by
  cases h with
  | known => exact .write hus
  | condition kind => exact .visit (.condition kind) hus
  | reference kind _ => exact .visit (.reference kind) hus
  | @opening _ _ v tasks op kind _ =>
      obtain ⟨hlive, hlt⟩ := hvisits v (by simp)
      have hlogic : (o.nodeAt v).isLogic = true := by rw [Node.isLogic, kind]
      obtain ⟨parts, rest, hparts, hlength, hphrases, hrest, rfl⟩ :=
        Pieces.of_operandTasks (ho.live_logic v hlive hlogic) hus
      rw [hlists v hlt] at hphrases
      have hlength' : parts.length = (operands (o.nodeAt v)).length := by
        rw [hlength, ← hlists v hlt, List.length_map]
      cases hrest with
      | @write _ _ us hrest =>
          have hall := Pieces.visit (.group kind hparts hlength' hphrases) hrest
          simpa using hall

/-! ## The invariant -/

/-- The logic node at a place has been opened. -/
def Writing.Opened (s : Writing) (v : Nat) : Prop :=
  s.expanded.getD v false = true

/-- All tokens so far, those of earlier roots included. -/
def Writing.output (s : Writing) (earlier : List Token) : List Token :=
  earlier ++ s.tokens.reverse

/-- A node that is pending in front of the end of a group lies below the node
of the group. -/
def Inside (o : Outline) (a b : Task) : Prop :=
  ∀ w u, a = .visit w → u < o.nodes.size → b = .write (.closing (o.nodeAt u).id) →
    TransGen o.operands.Step u w

/-- How the opened groups, the tokens so far and the pending pieces hang
together. -/
structure WriteInv (o : Outline) (earlier : List Token) (s : Writing) : Prop where
  size : s.expanded.size = o.nodes.size
  visits : ∀ v, .visit v ∈ s.tasks → o.LiveAt v ∧ v < o.nodes.size
  writes : ∀ t, .write t ∈ s.tasks → (∃ a, t = .closing a) ∨ ∃ a op, t = .operator a op
  inside : s.tasks.Pairwise o.Inside
  opened : ∀ v, s.Opened v → o.LiveAt v ∧ (o.nodeAt v).isLogic = true
    ∧ (s.output earlier).count (.opening (o.nodeAt v).id) = 1
  only : ∀ a, .opening a ∈ s.output earlier → ∃ v, s.Opened v ∧ (o.nodeAt v).id = a
  closed : ∀ v, s.Opened v → .closing (o.nodeAt v).id ∈ s.output earlier
    ∨ .write (.closing (o.nodeAt v).id) ∈ s.tasks
  resolved : Free Token.Unresolved (s.output earlier)
  below : ∀ v w, s.Opened v → o.operands.Step v w → (o.nodeAt w).isLogic = true →
    s.Opened w ∨ .visit w ∈ s.tasks

theorem output_cons (x : Array Bool) (out : List Token) (t : Token) (tasks tasks' : List Task)
    (earlier : List Token) : Writing.output ⟨x, t :: out, tasks⟩ earlier
      = Writing.output ⟨x, out, tasks'⟩ earlier ++ [t] := by
  simp [Writing.output]

namespace WriteInv

theorem lt_of_opened {s : Writing} (h : WriteInv o earlier s) {v : Nat} (hv : s.Opened v) :
    v < o.nodes.size := by
  rcases Nat.lt_or_ge v o.nodes.size with hlt | hge
  · exact hlt
  · rw [Writing.Opened, getD_of_size_le false (h.size ▸ hge)] at hv
    cases hv

/-- A step that opens no group. -/
theorem pass {x : Array Bool} {out : List Token} {task : Task} {tasks : List Task}
    {t : Token} (h : WriteInv o earlier ⟨x, out, task :: tasks⟩)
    (hopening : ∀ a, t ≠ .opening a)
    (hresolved : ¬ Token.Unresolved (Writing.output ⟨x, out, task :: tasks⟩ earlier) t)
    (hwrite : ∀ t', task = .write t' → t' = t)
    (hvisit : ∀ w, task = .visit w → (o.nodeAt w).isLogic = true →
      x.getD w false = true) : WriteInv o earlier ⟨x, t :: out, tasks⟩ where
  size := h.size
  visits v hv := h.visits v (List.mem_cons_of_mem _ hv)
  writes t' ht' := h.writes t' (List.mem_cons_of_mem _ ht')
  inside := (List.pairwise_cons.mp h.inside).2
  opened v hv := by
    obtain ⟨hlive, hlogic, hcount⟩ := h.opened v hv
    refine ⟨hlive, hlogic, ?_⟩
    rw [output_cons x out t tasks (task :: tasks), List.count_append, hcount,
      List.count_singleton]
    simp [hopening]
  only a ha := by
    rw [output_cons x out t tasks (task :: tasks), List.mem_append, List.mem_singleton] at ha
    rcases ha with ha | ha
    · exact h.only a ha
    · exact absurd ha.symm (hopening a)
  closed v hv := by
    rw [output_cons x out t tasks (task :: tasks), List.mem_append, List.mem_singleton]
    rcases h.closed v hv with hout | htask
    · exact .inl (.inl hout)
    · rcases List.mem_cons.mp htask with htask | htask
      · exact .inl (.inr (hwrite _ htask.symm))
      · exact .inr htask
  resolved := by
    rw [output_cons x out t tasks (task :: tasks)]
    exact free_concat.mpr ⟨h.resolved, hresolved⟩
  below v w hv hstep hlogic := by
    rcases h.below v w hv hstep hlogic with hopened | htask
    · exact .inl hopened
    · rcases List.mem_cons.mp htask with htask | htask
      · exact .inl (hvisit w htask.symm hlogic)
      · exact .inr htask

/-- The pieces of a group: its operands lie below its node, and below the nodes
of the groups around it. -/
theorem pairwise_opening {a : String} {op : Operator} {v : Nat} {tasks : List Task}
    (ho : o.Sound) (hv : v < o.nodes.size) (ha : a = (o.nodeAt v).id)
    (h : (.visit v :: tasks : List Task).Pairwise o.Inside) :
    (operandTasks a op (o.operands.children v) ++ .write (.closing a) :: tasks).Pairwise
      o.Inside := by
  obtain ⟨hhead, htail⟩ := List.pairwise_cons.mp h
  have hnot : ∀ u, Task.write (.closing u) ∉ operandTasks a op (o.operands.children v) := by
    intro u hmem
    cases write_mem_operandTasks hmem
  refine List.pairwise_append.mpr ⟨?_, List.pairwise_cons.mpr ⟨?_, htail⟩, ?_⟩
  · -- Among the operands no group ends.
    refine List.Pairwise.imp_of_mem (R := fun _ _ => True) ?_
      (List.pairwise_of_forall fun _ _ => trivial)
    intro b c _ hc _ w u _ _ hclosing
    exact absurd (hclosing ▸ hc) (hnot _)
  · intro b _ w u hw
    cases hw
  · intro b hvisit c hc w u hbw hu hclosing
    rw [hbw] at hvisit
    rw [hclosing] at hc
    have hstep : o.operands.Step v w := visit_mem_operandTasks.mp hvisit
    rcases List.mem_cons.mp hc with hc | hc
    · have hid : (o.nodeAt u).id = a := by
        injection hc with hc
        injection hc
      rw [ho.inj u v hu hv (hid.trans ha)]
      exact .single hstep
    · exact (hhead _ hc v u rfl hu rfl).tail hstep

/-- Opening a group. -/
theorem opening {x : Array Bool} {out : List Token} {v : Nat} {tasks : List Task}
    {op : Operator} (ho : o.Sound) (h : WriteInv o earlier ⟨x, out, .visit v :: tasks⟩)
    (hkind : (o.nodeAt v).kind = .logic op) (hfresh : x.getD v false = false) :
    WriteInv o earlier
      ⟨x.setIfInBounds v true, .opening (o.nodeAt v).id :: out,
        operandTasks (o.nodeAt v).id op (o.operands.children v)
          ++ .write (.closing (o.nodeAt v).id) :: tasks⟩ := by
  obtain ⟨hlive, hv⟩ := h.visits v (by simp)
  have hlogic : (o.nodeAt v).isLogic = true := by rw [Node.isLogic, hkind]
  have hout := output_cons (x.setIfInBounds v true) out (.opening (o.nodeAt v).id)
    (operandTasks (o.nodeAt v).id op (o.operands.children v)
      ++ .write (.closing (o.nodeAt v).id) :: tasks) (.visit v :: tasks) earlier
  have hopened : ∀ u, Writing.Opened ⟨x.setIfInBounds v true, .opening (o.nodeAt v).id :: out,
      operandTasks (o.nodeAt v).id op (o.operands.children v)
        ++ .write (.closing (o.nodeAt v).id) :: tasks⟩ u
      ↔ u = v ∨ Writing.Opened ⟨x, out, .visit v :: tasks⟩ u :=
    fun u => getD_true_setIfInBounds (by rwa [h.size])
  have hne : ∀ u, Writing.Opened ⟨x, out, .visit v :: tasks⟩ u →
      (o.nodeAt u).id ≠ (o.nodeAt v).id := by
    intro u hu hid
    have huv := ho.inj u v (h.lt_of_opened hu) hv hid
    rw [huv, Writing.Opened, hfresh] at hu
    cases hu
  -- Before this step nothing was opened under the id of `v`; after it, `v` is the one place.
  refine ⟨by simpa using h.size, fun u hu => ?_, fun t ht => ?_,
    pairwise_opening ho hv rfl h.inside, fun u hu => ?_, fun a ha => ?_, fun u hu => ?_, ?_,
    fun u w hu hstep hw => ?_⟩
  · rcases List.mem_append.mp hu with hu | hu
    · have hstep : o.operands.Step v u := visit_mem_operandTasks.mp hu
      exact ⟨ho.operand_live v u hstep, ho.size ▸ ho.inRange v u hstep⟩
    · exact h.visits u (List.mem_cons_of_mem _ (by simpa using hu))
  · rcases List.mem_append.mp ht with ht | ht
    · exact .inr ⟨_, _, write_mem_operandTasks ht⟩
    · rcases List.mem_cons.mp ht with ht | ht
      · injection ht with ht
        exact .inl ⟨_, ht⟩
      · exact h.writes t (List.mem_cons_of_mem _ ht)
  · rw [hout, List.count_append]
    rcases (hopened u).mp hu with rfl | hu
    · have hzero : (Writing.output ⟨x.setIfInBounds u true, out, .visit u :: tasks⟩
          earlier).count (.opening (o.nodeAt u).id) = 0 := by
        refine List.count_eq_zero.mpr fun hmem => ?_
        obtain ⟨u', hu', hid⟩ := h.only _ hmem
        exact hne u' hu' hid
      exact ⟨hlive, hlogic, by simp [hzero]⟩
    · obtain ⟨hulive, hulogic, hcount⟩ := h.opened u hu
      refine ⟨hulive, hulogic, ?_⟩
      have hne' : (.opening (o.nodeAt v).id : Token) ≠ .opening (o.nodeAt u).id := by
        intro heq
        injection heq with heq
        exact hne u hu heq.symm
      rw [List.count_singleton, if_neg (by simpa using hne'), Nat.add_zero]
      exact hcount
  · rw [hout, List.mem_append, List.mem_singleton] at ha
    rcases ha with ha | ha
    · obtain ⟨u, hu, hid⟩ := h.only a ha
      exact ⟨u, (hopened u).mpr (.inr hu), hid⟩
    · injection ha with ha
      exact ⟨v, (hopened v).mpr (.inl rfl), ha.symm⟩
  · rw [hout, List.mem_append]
    rcases (hopened u).mp hu with rfl | hu
    · exact .inr (by simp)
    · rcases h.closed u hu with hmem | hmem
      · exact .inl (.inl hmem)
      · exact .inr (by simp at hmem; simp [hmem])
  · rw [hout]
    refine free_concat.mpr ⟨h.resolved, fun hunresolved => ?_⟩
    obtain ⟨a, ha, -⟩ := hunresolved
    cases ha
  · rcases (hopened u).mp hu with rfl | hu
    · exact .inr (List.mem_append_left _ (visit_mem_operandTasks.mpr hstep))
    · rcases h.below u w hu hstep hw with hmem | hmem
      · exact .inl ((hopened w).mpr (.inr hmem))
      · rcases List.mem_cons.mp hmem with hmem | hmem
        · injection hmem with hmem
          exact .inl ((hopened w).mpr (.inl hmem))
        · exact .inr (by simp [hmem])

/-- **A step keeps the invariant.** -/
theorem step {s s' : Writing} {t : Token} (ho : o.Sound) (h : WriteInv o earlier s)
    (hw : Writes o s t s') : WriteInv o earlier s' := by
  cases hw with
  | known =>
      have hmark := h.writes t (by simp)
      refine h.pass ?_ ?_ ?_ ?_
      · intro a ha
        rw [ha] at hmark
        simp at hmark
      · intro hunresolved
        obtain ⟨a, ha, -⟩ := hunresolved
        rw [ha] at hmark
        simp at hmark
      · intro t' heq
        injection heq with heq
        exact heq.symm
      · intro w heq
        cases heq
  | @condition _ _ v _ label kind =>
      refine h.pass ?_ ?_ ?_ ?_
      · intro a heq
        cases heq
      · intro hunresolved
        obtain ⟨a, heq, -⟩ := hunresolved
        cases heq
      · intro t' heq
        cases heq
      · intro w heq hlogic
        injection heq with heq
        rw [← heq, Node.isLogic, kind] at hlogic
        cases hlogic
  | @reference x out v tasks op kind expanded =>
      refine h.pass ?_ ?_ ?_ ?_
      · intro a heq
        cases heq
      · -- The group is closed: its end cannot be pending, or the node would lie
        -- below itself.
        intro hunresolved
        obtain ⟨a, heq, hnot⟩ := hunresolved
        cases heq
        rcases h.closed v expanded with hout | hmem
        · exact hnot hout
        · have hmem' : Task.write (.closing (o.nodeAt v).id) ∈ tasks := by simpa using hmem
          have hinside := (List.pairwise_cons.mp h.inside).1 _ hmem'
          exact ho.acyclic v (hinside v v rfl (h.lt_of_opened expanded) rfl)
      · intro t' heq
        cases heq
      · intro w heq _
        injection heq with heq
        exact heq ▸ expanded
  | opening kind fresh => exact h.opening ho kind fresh

end WriteInv

/-! ## The whole writing of a root -/

/-- What is left to be done: the pending pieces, and for each group that has not
been opened the pieces that it will make. -/
def writeWork (o : Outline) (s : Writing) : Nat :=
  s.tasks.length + 2 * o.operands.freshWork fun v => !s.expanded.getD v false

theorem Writes.work_lt {s s' : Writing} {t : Token} (ho : o.Sound)
    (hinv : WriteInv o earlier s) (h : Writes o s t s') :
    writeWork o s' < writeWork o s := by
  cases h with
  | known =>
      simp only [writeWork, List.length_cons]
      omega
  | condition kind =>
      simp only [writeWork, List.length_cons]
      omega
  | reference kind expanded =>
      simp only [writeWork, List.length_cons]
      omega
  | @opening x out v tasks op kind fresh =>
      obtain ⟨-, hv⟩ := hinv.visits v (by simp)
      have hfresh : o.operands.freshWork (fun u => !x.getD u false)
          = o.operands.freshWork (fun u => !(x.setIfInBounds v true).getD u false)
            + ((o.operands.children v).length + 1) := by
        refine Digraph.freshWork_enter (w := v) (ho.size ▸ hv) ?_ ?_ fun u hu => ?_
        · rw [fresh]
          rfl
        · rw [getD_setIfInBounds_self _ _ (hinv.size ▸ hv)]
          rfl
        · rw [getD_setIfInBounds_ne _ _ _ (Ne.symm hu)]
      have hlength := length_operandTasks_le (o.nodeAt v).id op (o.operands.children v)
      simp only [writeWork, List.length_append, List.length_cons]
      omega

/-- The logic nodes that are open or will be. -/
def Writing.Due (o : Outline) (s : Writing) (v : Nat) : Prop :=
  s.Opened v ∨ (.visit v ∈ s.tasks ∧ (o.nodeAt v).isLogic = true)

theorem Writes.due {s s' : Writing} {t : Token} (hinv : WriteInv o earlier s)
    (h : Writes o s t s') {w : Nat} (hw : s.Due o w) : s'.Due o w := by
  cases h with
  | known =>
      rcases hw with hw | ⟨hmem, hlogic⟩
      · exact .inl hw
      · exact .inr ⟨by simpa using hmem, hlogic⟩
  | condition kind =>
      rcases hw with hw | ⟨hmem, hlogic⟩
      · exact .inl hw
      · rcases List.mem_cons.mp hmem with hmem | hmem
        · injection hmem with hmem
          rw [hmem, Node.isLogic, kind] at hlogic
          cases hlogic
        · exact .inr ⟨hmem, hlogic⟩
  | reference kind expanded =>
      rcases hw with hw | ⟨hmem, hlogic⟩
      · exact .inl hw
      · rcases List.mem_cons.mp hmem with hmem | hmem
        · injection hmem with hmem
          exact .inl (hmem ▸ expanded)
        · exact .inr ⟨hmem, hlogic⟩
  | @opening x out v tasks op kind fresh =>
      have hv : v < x.size := by
        rw [hinv.size]
        exact (hinv.visits v (by simp)).2
      have hopened := getD_true_setIfInBounds (u := w) hv
      rcases hw with hw | ⟨hmem, hlogic⟩
      · exact .inl (hopened.mpr (.inr hw))
      · rcases List.mem_cons.mp hmem with hmem | hmem
        · injection hmem with hmem
          exact .inl (hopened.mpr (.inl hmem))
        · exact .inr ⟨by simp [hmem], hlogic⟩

theorem Writes.tokens {s s' : Writing} {t : Token} (h : Writes o s t s') :
    s'.tokens = t :: s.tokens := by
  cases h <;> rfl

/-- A writing that may take as many steps as it has work finishes. It keeps the
invariant, has written what its pending pieces stand for, and has opened every
group that was due. -/
theorem WriteInv.run {n : Nat} {s : Writing} (ho : o.Sound) (hlists : o.Lists operands)
    (h : WriteInv o earlier s) (hn : writeWork o s ≤ n) :
    WriteInv o earlier (o.run n s) ∧ (o.run n s).tasks = []
      ∧ (∃ us, Pieces o operands s.tasks us
        ∧ (o.run n s).tokens.reverse = s.tokens.reverse ++ us)
      ∧ ∀ w, s.Due o w → (o.run n s).Opened w := by
  -- The pieces of the whole are found from the end: those after a step are known first.
  induction n generalizing s with
  | zero =>
      have htasks : s.tasks = [] := by
        rw [← List.length_eq_zero_iff]
        rw [writeWork] at hn
        omega
      rw [run_zero]
      refine ⟨h, htasks, ⟨[], htasks ▸ .nil, by simp⟩, fun w hw => ?_⟩
      exact hw.resolve_right (by simp [htasks])
  | succ n ih =>
      by_cases htasks : s.tasks = []
      · rw [run_of_done _ htasks]
        refine ⟨h, htasks, ⟨[], htasks ▸ .nil, by simp⟩, fun w hw => ?_⟩
        exact hw.resolve_right (by simp [htasks])
      · obtain ⟨t, hw⟩ := o.writes_step htasks
        have hwork := hw.work_lt ho h
        rw [run_succ _ htasks]
        obtain ⟨hinv, hdone, ⟨us, hpieces, hout⟩, hdue⟩ := ih (h.step ho hw) (by omega)
        refine ⟨hinv, hdone, ⟨t :: us, hw.pieces ho hlists h.visits hpieces, ?_⟩, fun w hdue' =>
          hdue w (hw.due h hdue')⟩
        rw [hout, hw.tokens]
        simp

end VisualRules.Outline
