import VisualRules.Proofs.Graph.Step

/-!
# The search for joined nodes

The search sees exactly the nodes that can be reached from the one at which it
starts. Its measure is the number of nodes not yet seen together with those
that are pending: a node that is seen moves from one to the other, and each
step takes one pending node away.
-/

namespace VisualRules.Digraph

open Relation

/-- Sees a node and makes it pending, if it has not been seen before. -/
def see : Array Bool × List Nat → Nat → Array Bool × List Nat
  | (seen, pending), w =>
    if seen.getD w true then (seen, pending)
    else (seen.setIfInBounds w true, w :: pending)

theorem joinedRun_cons (g : Digraph) (n : Nat) (seen : Array Bool) (u : Nat)
    (pending : List Nat) :
    joinedRun g (n + 1) seen (u :: pending)
      = joinedRun g n ((g.children u).foldl see (seen, pending)).1
          ((g.children u).foldl see (seen, pending)).2 := rfl

/-- The state of the search from `v` while the edges of `u` are followed, `ws`
of them still to come: only nodes that can be reached have been seen, pending
nodes among them, and so have the targets of all edges but those of pending
nodes and those to come. -/
structure JoinInv (g : Digraph) (v u : Nat) (ws : List Nat) (seen : Array Bool)
    (queue : List Nat) : Prop where
  size : seen.size = g.size
  reached : ∀ w, seen.getD w false = true → ReflTransGen g.Step v w
  pending : ∀ w ∈ queue, seen.getD w false = true
  closed : ∀ x w, seen.getD x false = true → g.Step x w →
    x ∈ queue ∨ seen.getD w false = true ∨ (x = u ∧ w ∈ ws)

/-- The nodes that have not been seen and those that are pending. -/
def joinWork (g : Digraph) (seen : Array Bool) (queue : List Nat) : Nat :=
  (∑ v ∈ Finset.range g.size, if seen.getD v true then 0 else 1) + queue.length

variable {g : Digraph} {v u : Nat} {ws : List Nat} {seen : Array Bool}
  {queue : List Nat}

/-! ## One node -/

theorem see_of_seen {w : Nat} (hw : seen.getD w true = true) :
    see (seen, queue) w = (seen, queue) :=
  if_pos hw

theorem see_of_not_seen {w : Nat} (hw : ¬ seen.getD w true = true) :
    see (seen, queue) w = (seen.setIfInBounds w true, w :: queue) :=
  if_neg hw

/-- Following an edge of `u`, which has been seen. -/
theorem JoinInv.follow {w : Nat} (h : JoinInv g v u (w :: ws) seen queue)
    (hu : seen.getD u false = true) (hw : g.Step u w) (hlt : w < g.size) :
    JoinInv g v u ws (see (seen, queue) w).1 (see (seen, queue) w).2 := by
  have hlt' : w < seen.size := by rwa [h.size]
  by_cases hseen : seen.getD w true = true
  · have hwseen : seen.getD w false = true := by
      simpa [Array.getD_eq_getD_getElem?, hlt'] using hseen
    rw [see_of_seen hseen]
    refine ⟨h.size, h.reached, h.pending, fun x y hx hy => ?_⟩
    rcases h.closed x y hx hy with hq | hs | ⟨rfl, hmem⟩
    · exact .inl hq
    · exact .inr (.inl hs)
    · rcases List.mem_cons.mp hmem with rfl | hmem
      · exact .inr (.inl hwseen)
      · exact .inr (.inr ⟨rfl, hmem⟩)
  · have hself : (seen.setIfInBounds w true).getD w false = true :=
      getD_setIfInBounds_self _ _ hlt'
    have hkeep : ∀ x, seen.getD x false = true →
        (seen.setIfInBounds w true).getD x false = true :=
      fun x hx => (getD_true_setIfInBounds hlt').mpr (.inr hx)
    rw [see_of_not_seen hseen]
    refine ⟨by simp [h.size], fun x hx => ?_, fun x hx => ?_, fun x y hx hy => ?_⟩
    · rcases (getD_true_setIfInBounds hlt').mp hx with rfl | hx
      · exact (h.reached u hu).tail hw
      · exact h.reached x hx
    · rcases List.mem_cons.mp hx with rfl | hx
      · exact hself
      · exact hkeep x (h.pending x hx)
    · rcases (getD_true_setIfInBounds hlt').mp hx with rfl | hx
      · exact .inl (by simp)
      · rcases h.closed x y hx hy with hq | hs | ⟨rfl, hmem⟩
        · exact .inl (List.mem_cons_of_mem _ hq)
        · exact .inr (.inl (hkeep y hs))
        · rcases List.mem_cons.mp hmem with rfl | hmem
          · exact .inr (.inl hself)
          · exact .inr (.inr ⟨rfl, hmem⟩)

theorem seen_see {x w : Nat} (hx : seen.getD x false = true) :
    (see (seen, queue) w).1.getD x false = true := by
  by_cases hw : seen.getD w true = true
  · rw [see_of_seen hw]
    exact hx
  · rw [see_of_not_seen hw, getD_setIfInBounds]
    split
    · rfl
    · exact hx

theorem joinWork_see {w : Nat} (hsize : seen.size = g.size) (hlt : w < g.size) :
    joinWork g (see (seen, queue) w).1 (see (seen, queue) w).2
      = joinWork g seen queue := by
  by_cases hw : seen.getD w true = true
  · rw [see_of_seen hw]
  · have hsum : (∑ v ∈ Finset.range g.size, if seen.getD v true then 0 else 1)
        = (∑ v ∈ Finset.range g.size,
            if (seen.setIfInBounds w true).getD v true then 0 else 1) + 1 := by
      refine sum_range_drop hlt (fun x hx => ?_) ?_
      · rw [getD_setIfInBounds_ne _ _ _ (Ne.symm hx)]
      · rw [getD_setIfInBounds_self _ _ (hsize ▸ hlt), if_neg hw]
        rfl
    rw [see_of_not_seen hw, joinWork, joinWork, hsum]
    simp only [List.length_cons]
    omega

/-- Following all edges of `u`. -/
theorem JoinInv.followAll (h : JoinInv g v u ws seen queue)
    (hu : seen.getD u false = true) (hws : ∀ w ∈ ws, g.Step u w ∧ w < g.size) :
    let s := ws.foldl see (seen, queue)
    JoinInv g v u [] s.1 s.2 ∧ (∀ x, seen.getD x false = true → s.1.getD x false = true)
      ∧ joinWork g s.1 s.2 = joinWork g seen queue := by
  induction ws generalizing seen queue with
  | nil => exact ⟨h, fun x hx => hx, rfl⟩
  | cons w ws ih =>
      obtain ⟨hw, hlt⟩ := hws w (by simp)
      obtain ⟨hinv, hkeep, hwork⟩ := ih (h.follow hu hw hlt) (seen_see hu)
        fun x hx => hws x (by simp [hx])
      rw [List.foldl_cons]
      refine ⟨hinv, fun x hx => hkeep x (seen_see hx), ?_⟩
      rw [hwork, joinWork_see h.size hlt]

/-! ## Whole searches -/

/-- A search that has at least as many steps as work ends with nothing pending;
it forgets no node. -/
theorem JoinInv.run {n : Nat} (h : JoinInv g v u [] seen queue) (hrange : g.InRange)
    (hn : joinWork g seen queue ≤ n) :
    JoinInv g v u [] (joinedRun g n seen queue) []
      ∧ ∀ x, seen.getD x false = true →
        (joinedRun g n seen queue).getD x false = true := by
  induction n generalizing u seen queue with
  | zero =>
      have hq : queue = [] := List.length_eq_zero_iff.mp (by rw [joinWork] at hn; omega)
      subst hq
      exact ⟨h, fun x hx => hx⟩
  | succ n ih =>
      cases queue with
      | nil => exact ⟨h, fun x hx => hx⟩
      | cons t queue =>
          have ht : seen.getD t false = true := h.pending t (by simp)
          -- Taken off the queue, `t` has all its edges still to come.
          have htake : JoinInv g v t (g.children t) seen queue := by
            refine ⟨h.size, h.reached, fun x hx => h.pending x (by simp [hx]),
              fun x y hx hy => ?_⟩
            rcases h.closed x y hx hy with hq | hs | ⟨-, hmem⟩
            · rcases List.mem_cons.mp hq with rfl | hq
              · exact .inr (.inr ⟨rfl, hy⟩)
              · exact .inl hq
            · exact .inr (.inl hs)
            · cases hmem
          obtain ⟨hinv, hkeep, hwork⟩ := htake.followAll ht
            fun w hw => ⟨hw, hrange t w hw⟩
          have hn' : joinWork g ((g.children t).foldl see (seen, queue)).1
              ((g.children t).foldl see (seen, queue)).2 ≤ n := by
            rw [hwork]
            rw [joinWork, List.length_cons] at hn
            rw [joinWork]
            omega
          obtain ⟨hend, hkeep'⟩ := ih hinv hn'
          rw [joinedRun_cons]
          exact ⟨⟨hend.size, hend.reached, hend.pending, by simpa using hend.closed⟩,
            fun x hx => hkeep' x (hkeep x hx)⟩

/-- **The search sees the nodes that can be reached, and no others.** -/
theorem joined_getD (hrange : g.InRange) (hv : v < g.size) {w : Nat} :
    (g.joined v).getD w false = true ↔ ReflTransGen g.Step v w := by
  have hstart : JoinInv g v v [] ((Array.replicate g.size false).setIfInBounds v true)
      [v] := by
    have hseen : ∀ x, ((Array.replicate g.size false).setIfInBounds v true).getD x false = true
        ↔ x = v := by
      intro x
      rw [getD_true_setIfInBounds (by simpa using hv), getD_replicate_self]
      simp
    refine ⟨by simp, fun x hx => ?_, fun x hx => ?_, fun x y hx _ => ?_⟩
    · rw [(hseen x).mp hx]
    · exact (hseen x).mpr (List.mem_singleton.mp hx)
    · exact .inl (by simp [(hseen x).mp hx])
  have hwork : joinWork g ((Array.replicate g.size false).setIfInBounds v true) [v]
      ≤ g.size + 1 := by
    rw [joinWork, List.length_singleton]
    refine Nat.add_le_add_right ?_ 1
    calc (∑ x ∈ Finset.range g.size,
          if ((Array.replicate g.size false).setIfInBounds v true).getD x true
          then 0 else 1)
        ≤ ∑ x ∈ Finset.range g.size, 1 := Finset.sum_le_sum fun x _ => by split <;> omega
      _ = g.size := by rw [← Finset.card_eq_sum_ones, Finset.card_range]
  obtain ⟨hend, hkeep⟩ := hstart.run hrange hwork
  constructor
  · exact hend.reached w
  · intro hpath
    induction hpath with
    | refl => exact hkeep v (hstart.pending v (by simp))
    | tail _ hstep ih =>
        rcases hend.closed _ _ ih hstep with hq | hs | ⟨-, hmem⟩
        · cases hq
        · exact hs
        · cases hmem

end VisualRules.Digraph
