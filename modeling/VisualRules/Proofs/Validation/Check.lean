import Mathlib.Data.List.TakeWhile
import VisualRules.Proofs.Graph.Cycle
import VisualRules.Proofs.Graph.Joined
import VisualRules.Proofs.Validation.First

/-!
# What the checks find out

For each check: it is passed only when the condition of its number holds, and
a defect that it reports shows what it says of the candidate.
-/

namespace VisualRules

/-! ## Outcomes -/

/-- What holds of the outcome of a check: `good` of what it returns, `bad` of a
defect that it reports. -/
def Settles {α : Type} (x : Except Defect α) (good : α → Prop) (bad : Defect → Prop) :
    Prop :=
  match x with
  | .ok a => good a
  | .error d => bad d

theorem Settles.bind {α β : Type} {x : Except Defect α} {f : α → Except Defect β}
    {good : α → Prop} {good' : β → Prop} {bad : Defect → Prop}
    (hx : Settles x good bad) (hf : ∀ a, good a → Settles (f a) good' bad) :
    Settles (x >>= f) good' bad := by
  cases x with
  | ok a => exact hf a hx
  | error d => exact hx

theorem Settles.mono {α : Type} {x : Except Defect α} {good good' : α → Prop}
    {bad bad' : Defect → Prop} (hx : Settles x good bad) (hgood : ∀ a, good a → good' a)
    (hbad : ∀ d, bad d → bad' d) : Settles x good' bad' := by
  cases x with
  | ok a => exact hgood a hx
  | error d => exact hbad d hx

theorem settles_unless? {α : Type} {found : Option α} {defect : α → Defect} {good : Prop}
    {bad : Defect → Prop} (hnone : found = none → good)
    (hsome : ∀ a, found = some a → bad (defect a)) :
    Settles (Validation.unless? found defect) (fun _ => good) bad := by
  cases found with
  | none => exact hnone rfl
  | some a => exact hsome a rfl

/-! ## Blank text -/

theorem Text.trimBy_eq_nil_iff {p : Char → Bool} {cs : List Char} :
    Text.trimBy p cs = [] ↔ cs.all p = true := by
  constructor
  · intro h
    rw [Text.trimBy, List.reverse_eq_nil_iff, List.dropWhile_eq_nil_iff] at h
    have hdrop : cs.dropWhile p = [] := by
      cases hcs : cs.dropWhile p with
      | nil => rfl
      | cons c rest =>
          have hc : p c = true := h c (by simp [hcs])
          have hhead := List.head_dropWhile_not p (l := cs) (by simp [hcs])
          simp only [hcs, List.head_cons] at hhead
          rw [hc] at hhead
          cases hhead
    rw [List.all_eq_true]
    exact List.dropWhile_eq_nil_iff.mp hdrop
  · exact Text.trimBy_of_all

theorem Text.isBlank_iff {s : String} : Text.isBlank s = true ↔ Text.trim s = "" := by
  rw [Text.isBlank, Text.trim, ← Text.trimBy_eq_nil_iff]
  constructor
  · intro h
    rw [h]
  · intro h
    simpa using congrArg String.toList h

namespace Validation

/-- A set that holds the texts of a list, with one more text. -/
theorem contains_insert_iff {seen : Std.HashSet String} {before : List String}
    (hseen : ∀ a, seen.contains a = true ↔ a ∈ before) (a b : String) :
    (seen.insert a).contains b = true ↔ b ∈ before ++ [a] := by
  rw [Std.HashSet.contains_insert, Bool.or_eq_true, hseen, beq_iff_eq, List.mem_append,
    List.mem_singleton]
  exact ⟨fun h => h.symm.imp_right Eq.symm, fun h => h.symm.imp_left Eq.symm⟩

/-! ## Targets -/

theorem settles_checkTargets (c : Candidate) :
    Settles (checkTargets c.targetObjects) (fun _ => c.Passes .targetObjects)
      (fun d => d.check = .targetObjects ∧ c.Shows d) := by
  rw [checkTargets]
  by_cases hempty : c.targetObjects = []
  · rw [if_pos (by simp [hempty])]
    exact ⟨rfl, hempty⟩
  · rw [if_neg (by simpa using hempty)]
    refine settles_unless? (fun hnone => ⟨hempty, fun t ht hblank => ?_⟩) fun i hi => ?_
    · have hnot := List.findIdx?_eq_none_iff.mp hnone t ht
      rw [Text.isBlank_iff.mpr hblank] at hnot
      cases hnot
    · exact ⟨rfl, first_of_findIdx? (fun _ => Text.isBlank_iff) hi⟩

/-! ## Node ids -/

/-- The scan of the node ids, after the nodes `before` have been seen. -/
theorem nodeIdDefect?_spec (nodes before : List CandidateNode) (seen : Std.HashSet String)
    (hseen : ∀ a, seen.contains a = true ↔ a ∈ before.map CandidateNode.id)
    (hfree : Free CandidateNode.IdFault before) :
    match nodeIdDefect? seen before.length nodes with
    | none => Free CandidateNode.IdFault (before ++ nodes)
    | some d => ∃ pre n, First CandidateNode.IdFault (before ++ nodes) pre n ∧
        ((n.id = "" ∧ d = .emptyNodeId pre.length) ∨
          (n.id ≠ "" ∧ d = .duplicateNodeId n.id)) := by
  induction nodes generalizing before seen with
  | nil =>
      rw [List.append_nil]
      exact hfree
  | cons node nodes ih =>
      -- An empty id is reported before a repeated one, as the scan does.
      rw [nodeIdDefect?]
      by_cases hempty : node.id = ""
      · rw [if_pos (by simp [hempty])]
        exact ⟨before, node, ⟨⟨nodes, rfl⟩, .inl hempty, hfree⟩, .inl ⟨hempty, rfl⟩⟩
      rw [if_neg (by simpa using hempty)]
      by_cases hdup : node.id ∈ before.map CandidateNode.id
      · rw [if_pos ((hseen _).mpr hdup)]
        exact ⟨before, node, ⟨⟨nodes, rfl⟩, .inr hdup, hfree⟩, .inr ⟨hempty, rfl⟩⟩
      · rw [if_neg (fun h => hdup ((hseen _).mp h))]
        have hseen' : ∀ a, (seen.insert node.id).contains a = true
            ↔ a ∈ (before ++ [node]).map CandidateNode.id := by
          intro a
          rw [contains_insert_iff hseen, List.map_append, List.map_singleton]
        have hfree' : Free CandidateNode.IdFault (before ++ [node]) := by
          refine free_concat.mpr ⟨hfree, ?_⟩
          rintro (h | h)
          · exact hempty h
          · exact hdup h
        have hrest := ih _ _ hseen' hfree'
        rw [List.length_append, List.length_singleton] at hrest
        rwa [List.append_assoc, List.singleton_append] at hrest

theorem settles_checkNodeIds (c : Candidate) :
    Settles (checkNodeIds c.logic.nodes) (fun _ => c.Passes .uniqueNodeIds)
      (fun d => d.check = .uniqueNodeIds ∧ c.Shows d) := by
  have hspec := nodeIdDefect?_spec c.logic.nodes [] ∅ (by simp) free_nil
  refine settles_unless? (fun hnone => ?_) fun d hd => ?_
  · rw [List.length_nil, hnone] at hspec
    obtain ⟨hempty, hrepeat⟩ := free_or.mp hspec
    exact ⟨free_iff_forall.mp hempty, (free_repeat_iff _).mp hrepeat⟩
  · rw [List.length_nil, hd] at hspec
    obtain ⟨pre, n, hfirst, ⟨hid, rfl⟩ | ⟨hid, rfl⟩⟩ := hspec
    · exact ⟨rfl, pre, n, hfirst, rfl, hid⟩
    · exact ⟨rfl, pre, n, hfirst, rfl, hid⟩

/-! ## Single nodes -/

theorem ofTag?_eq_none_iff {t : OperatorTag} : Operator.ofTag? t = none ↔ t = .none := by
  cases t <;> simp [Operator.ofTag?]

theorem logicFault_iff (n : CandidateNode) :
    n.LogicFault ↔ logicNodeDefect? n ≠ none := by
  rw [CandidateNode.LogicFault, logicNodeDefect?]
  cases htype : n.type with
  | content => simp
  | logic =>
      by_cases hop : n.operator = .none
      · simp [hop, Operator.ofTag?]
      · by_cases hlabel : n.label = ""
        · simp [hop, hlabel, ofTag?_eq_none_iff]
        · simp [hop, hlabel, ofTag?_eq_none_iff]

theorem settles_checkLogicNodes (c : Candidate) :
    Settles (checkLogicNodes c.logic.nodes) (fun _ => c.Passes .logicNodeShape)
      (fun d => d.check = .logicNodeShape ∧ c.Shows d) := by
  refine settles_unless? (fun hnone n hn htype => ?_) fun d hd => ?_
  · have hfault : ¬ n.LogicFault := by
      rw [logicFault_iff]
      exact fun h => h (List.findSome?_eq_none_iff.mp hnone n hn)
    simpa [CandidateNode.LogicFault, htype] using hfault
  · obtain ⟨before, n, hfirst, hn⟩ := first_of_findSome? logicFault_iff hd
    have htype := hfirst.faulty.1
    rw [logicNodeDefect?, htype] at hn
    by_cases hop : n.operator = .none
    · simp [hop, Operator.ofTag?] at hn
      exact hn ▸ ⟨rfl, before, n, hfirst, rfl, hop⟩
    · simp [hop, ofTag?_eq_none_iff] at hn
      exact hn.2 ▸ ⟨rfl, before, n, hfirst, rfl, hop⟩

theorem settleNode_eq_error_iff {n : CandidateNode}
    (hn : n.type = .logic → n.operator ≠ .none) :
    n.ContentFault ↔ ∃ d, settleNode n = .error d := by
  rw [CandidateNode.ContentFault, settleNode]
  cases htype : n.type with
  | logic =>
      have hop := hn htype
      cases hop' : n.operator with
      | none => exact absurd hop' hop
      | and => simp [Operator.ofTag?]
      | or => simp [Operator.ofTag?]
  | content =>
      by_cases hop : n.operator = .none
      · by_cases hblank : Text.trim n.label = ""
        · simp [hop, hblank, Text.isBlank_iff]
        · simp [hop, hblank, Text.isBlank_iff]
      · simp [hop]

theorem shows_of_settleNode {c : Candidate} {before : List CandidateNode}
    {n : CandidateNode} {d : Defect}
    (hfirst : First (fun _ => CandidateNode.ContentFault) c.logic.nodes before n)
    (hd : settleNode n = .error d) : d.check = .contentNodeShape ∧ c.Shows d := by
  rw [settleNode, hfirst.faulty.1] at hd
  by_cases hop : n.operator = .none
  · simp only [hop, ne_eq, not_true_eq_false, if_false] at hd
    split at hd
    · cases hd
      exact ⟨rfl, before, n, hfirst, rfl, hop⟩
    · cases hd
  · simp only [hop, ne_eq, not_false_eq_true, if_true] at hd
    cases hd
    exact ⟨rfl, before, n, hfirst, rfl, hop⟩

/-- Checking a node changes nothing of how it is written. -/
theorem toCandidate_of_settleNode {n : CandidateNode} {m : Node}
    (hn : n.type = .logic → n.label = "") (hm : settleNode n = .ok m) :
    m.toCandidate = n := by
  obtain ⟨id, type, operator, label⟩ := n
  cases type with
  | logic =>
      have hlabel : label = "" := hn rfl
      subst hlabel
      cases operator <;> cases hm <;> rfl
  | content =>
      rw [settleNode] at hm
      by_cases hop : operator = .none
      · subst hop
        simp only [ne_eq, not_true_eq_false, if_false] at hm
        split at hm
        · cases hm
        · cases hm
          rfl
      · simp [hop] at hm

theorem settles_settleNodes {c : Candidate} (hlogic : c.Passes .logicNodeShape) :
    Settles (c.logic.nodes.mapM settleNode)
      (fun nodes => c.Passes .contentNodeShape ∧
        nodes.map Node.toCandidate = c.logic.nodes)
      (fun d => d.check = .contentNodeShape ∧ c.Shows d) := by
  have hiff : ∀ n ∈ c.logic.nodes, n.ContentFault ↔ ∃ d, settleNode n = .error d :=
    fun n hn => settleNode_eq_error_iff fun htype => (hlogic n hn htype).1
  cases hmap : c.logic.nodes.mapM settleNode with
  | error d =>
      obtain ⟨before, n, hfirst, hd⟩ := first_of_mapM hiff hmap
      exact shows_of_settleNode hfirst hd
  | ok nodes =>
      have hall := forall₂_of_mapM hmap
      refine ⟨fun n hn htype => ?_, ?_⟩
      · have hfault : ¬ n.ContentFault := by
          intro hfault
          obtain ⟨d, hd⟩ := (hiff n hn).mp hfault
          obtain ⟨m, -, hm⟩ := exists_of_forall₂ hall hn
          rw [hd] at hm
          cases hm
        simpa [CandidateNode.ContentFault, htype] using hfault
      · exact map_eq_of_forall₂ hall fun n hn m hm =>
          toCandidate_of_settleNode (fun htype => (hlogic n hn htype).2) hm

/-! ## Edges -/

/-- The scan of a list of texts, after those in `before` have been seen. -/
theorem firstRepeated?_spec (l before : List String) (seen : Std.HashSet String)
    (hseen : ∀ a, seen.contains a = true ↔ a ∈ before)
    (hfree : Free (fun before a => a ∈ before) before) :
    match firstRepeated? seen l with
    | none => Free (fun before a => a ∈ before) (before ++ l)
    | some a => ∃ pre, First (fun before a => a ∈ before) (before ++ l) pre a := by
  induction l generalizing before seen with
  | nil =>
      rw [List.append_nil]
      exact hfree
  | cons a l ih =>
      rw [firstRepeated?]
      by_cases hdup : a ∈ before
      · rw [if_pos ((hseen a).mpr hdup)]
        exact ⟨before, ⟨l, rfl⟩, hdup, hfree⟩
      · rw [if_neg (fun h => hdup ((hseen a).mp h))]
        have hrest := ih _ _ (contains_insert_iff hseen a) (free_concat.mpr ⟨hfree, hdup⟩)
        rwa [List.append_assoc, List.singleton_append] at hrest

theorem settles_resolve {nodes : List Node} (h : (nodes.map Node.id).Nodup) (e : Edge) :
    Settles (resolve (TriggerLogic.places nodes) e)
      (fun l => (nodes.map Node.id)[l.1]? = some e.source ∧
        (nodes.map Node.id)[l.2]? = some e.target)
      (fun d => ∃ id, d = .danglingEdge e.id id ∧ id ∉ nodes.map Node.id ∧
        (id = e.source ∨ (e.source ∈ nodes.map Node.id ∧ id = e.target))) := by
  rw [resolve]
  cases hs : (TriggerLogic.places nodes)[e.source]? with
  | none =>
      exact ⟨e.source, rfl, (TriggerLogic.places_getElem?_eq_none h).mp hs, .inl rfl⟩
  | some s =>
      have hs' := (TriggerLogic.places_getElem? h).mp hs
      cases ht : (TriggerLogic.places nodes)[e.target]? with
      | none =>
          exact ⟨e.target, rfl, (TriggerLogic.places_getElem?_eq_none h).mp ht,
            .inr ⟨List.mem_of_getElem? hs', rfl⟩⟩
      | some t => exact ⟨hs', (TriggerLogic.places_getElem? h).mp ht⟩

theorem settles_resolveEdges {c : Candidate} {nodes : List Node}
    (hids : nodes.map Node.id = c.logic.ids) (h : c.logic.ids.Nodup) :
    Settles (resolveEdges nodes c.logic.edges)
      (fun links => c.Passes .edgeReferences ∧ Placed c.logic.ids c.logic.edges links)
      (fun d => d.check = .edgeReferences ∧ c.Shows d) := by
  have hnodup : (nodes.map Node.id).Nodup := by rwa [hids]
  have hresolve := settles_resolve hnodup
  rw [hids] at hresolve
  have hspec := firstRepeated?_spec (c.logic.edges.map Edge.id) [] ∅ (by simp) free_nil
  rw [List.nil_append] at hspec
  have hrepeat : Settles
      (unless? (firstRepeated? ∅ (c.logic.edges.map Edge.id)) .duplicateEdgeId)
      (fun _ => (c.logic.edges.map Edge.id).Nodup)
      (fun d => d.check = .edgeReferences ∧ c.Shows d) := by
    refine settles_unless? (fun hnone => ?_) fun id hid => ?_
    · rw [hnone] at hspec
      simpa using (free_repeat_iff id).mp (by simpa using hspec)
    · rw [hid] at hspec
      obtain ⟨pre, hfirst⟩ := hspec
      obtain ⟨before, e, hfirst', -, rfl⟩ := hfirst.of_map
      exact ⟨rfl, before, e, hfirst', rfl⟩
  refine hrepeat.bind fun _ hedges => ?_
  -- An edge dangles exactly when looking its ends up fails.
  have hiff : ∀ e ∈ c.logic.edges, c.logic.Dangling e
      ↔ ∃ d, resolve (TriggerLogic.places nodes) e = .error d := by
    intro e _
    have he := hresolve e
    cases hr : resolve (TriggerLogic.places nodes) e with
    | ok l =>
        rw [hr] at he
        refine ⟨fun hd => ?_, fun ⟨d, hd⟩ => by cases hd⟩
        rcases hd with hd | hd
        · exact absurd (List.mem_of_getElem? he.1) hd
        · exact absurd (List.mem_of_getElem? he.2) hd
    | error d =>
        rw [hr] at he
        obtain ⟨id, -, hid, rfl | ⟨-, rfl⟩⟩ := he
        · exact ⟨fun _ => ⟨d, rfl⟩, fun _ => .inl hid⟩
        · exact ⟨fun _ => ⟨d, rfl⟩, fun _ => .inr hid⟩
  cases hmap : c.logic.edges.mapM (resolve (TriggerLogic.places nodes)) with
  | error d =>
      obtain ⟨before, e, hfirst, hd⟩ := first_of_mapM hiff hmap
      have he := hresolve e
      rw [hd] at he
      obtain ⟨id, rfl, hid, hend⟩ := he
      exact ⟨rfl, hedges, before, e, hfirst, rfl, hid, hend⟩
  | ok links =>
      have hall : List.Forall₂ (fun e l => c.logic.ids[l.1]? = some e.source ∧
          c.logic.ids[l.2]? = some e.target) c.logic.edges links := by
        refine (forall₂_of_mapM hmap).imp fun e l hl => ?_
        have he := hresolve e
        rw [hl] at he
        exact he
      refine ⟨⟨hedges, fun e he => ?_⟩, h, hall⟩
      obtain ⟨l, -, hs, ht⟩ := exists_of_forall₂ hall he
      exact ⟨List.mem_of_getElem? hs, List.mem_of_getElem? ht⟩

/-! ## Duration -/

theorem toInt_eq_neg_one_iff {value : Int64} :
    value.toInt = -1 ↔ value = Threshold.unstated := by
  rw [← Int64.toInt_inj]
  rfl

theorem settles_settleThreshold (c : Candidate) :
    Settles (settleThreshold c.logic.thresholdSeconds)
      (fun t => c.Passes .temporalThreshold ∧ t.toSeconds = c.logic.thresholdSeconds)
      (fun d => d.check = .temporalThreshold ∧ c.Shows d) := by
  generalize hvalue : c.logic.thresholdSeconds = value
  rw [settleThreshold, Threshold.ofSeconds?]
  by_cases hunstated : value = Threshold.unstated
  · rw [if_pos hunstated]
    exact ⟨.inl (toInt_eq_neg_one_iff.mpr (hvalue.trans hunstated)), hunstated.symm⟩
  rw [if_neg hunstated]
  -- From here on the number is not the one that leaves the duration open.
  have hne : value.toInt ≠ -1 := fun h => hunstated (toInt_eq_neg_one_iff.mp h)
  by_cases hcount : 0 < value.toInt.toNat ∧ value.toInt.toNat < UInt32.size
  · rw [dif_pos hcount]
    have hsize : UInt32.size = 4294967296 := rfl
    refine ⟨?_, ?_⟩
    · show DurationWritten c.logic.thresholdSeconds
      rw [hvalue, DurationWritten]
      omega
    · show Int64.ofNat value.toInt.toNat = value
      have hnat : ((value.toInt.toNat : Nat) : Int) = value.toInt := by omega
      rw [← Int64.ofInt_eq_ofNat, hnat, Int64.ofInt_toInt]
  · rw [dif_neg hcount]
    have hsize : UInt32.size = 4294967296 := rfl
    refine ⟨rfl, hvalue, ?_⟩
    rw [DurationWritten]
    omega

end Validation

end VisualRules
