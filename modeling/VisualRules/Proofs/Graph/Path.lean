import VisualRules.Proofs.Graph.Step

/-!
# Search paths

Both depth-first searches keep a path of frames, the innermost first. What the
path says of the graph does not depend on how a search records the nodes it is
done with, so it is stated once, for any notion of a settled node.
-/

namespace VisualRules.Digraph

open Relation

/-- A path of frames: of the edges of each frame's node the ones taken so far
lead to settled nodes, or to the node right above it on the path. -/
inductive SearchPath (g : Digraph) (settled : Nat → Prop) :
    Option Nat → List Frame → Prop
  | nil {above} : SearchPath g settled above []
  | cons {above v rest path} (taken : List Nat)
      (split : g.children v = taken ++ rest)
      (isTaken : ∀ w ∈ taken, settled w ∨ above = some w)
      (step : ∀ w, above = some w → g.Step v w)
      (below : SearchPath g settled (some v) path) :
      SearchPath g settled above (⟨v, rest⟩ :: path)

namespace SearchPath

variable {g : Digraph} {settled settled' : Nat → Prop}

theorem start (v : Nat) : SearchPath g settled none [⟨v, g.children v⟩] :=
  .cons [] rfl (by simp) (by simp) .nil

theorem mono {above : Option Nat} {path : List Frame}
    (h : SearchPath g settled above path) (hs : ∀ w, settled w → settled' w) :
    SearchPath g settled' above path := by
  induction h with
  | nil => exact .nil
  | cons _ split isTaken step _ ih =>
      exact .cons _ split (fun w hw => (isTaken w hw).imp_left (hs w)) step ih

/-- An edge to a settled node is taken without a trace. -/
theorem take {v w : Nat} {rest : List Nat} {path : List Frame}
    (h : SearchPath g settled none (⟨v, w :: rest⟩ :: path)) (hw : settled w) :
    SearchPath g settled none (⟨v, rest⟩ :: path) := by
  cases h with
  | cons taken split isTaken _ below =>
      refine .cons (taken ++ [w]) (by simp [split]) ?_ (by simp) below
      intro u hu
      rcases List.mem_append.mp hu with hu | hu
      · exact isTaken u hu
      · exact .inl (by simpa [List.mem_singleton.mp hu] using hw)

/-- An edge to any other node is followed. -/
theorem push {v w : Nat} {rest : List Nat} {path : List Frame}
    (h : SearchPath g settled none (⟨v, w :: rest⟩ :: path)) :
    SearchPath g settled none (⟨w, g.children w⟩ :: ⟨v, rest⟩ :: path) := by
  cases h with
  | cons taken split isTaken _ below =>
      refine .cons [] rfl (by simp) (by simp)
        (.cons (taken ++ [w]) (by simp [split]) ?_ ?_ below)
      · intro u hu
        rcases List.mem_append.mp hu with hu | hu
        · exact (isTaken u hu).imp_right (by simp)
        · exact .inr (by rw [List.mem_singleton.mp hu])
      · intro u hu
        cases hu
        rw [Step, split]
        simp

/-- A node without further edges leaves the path when it is settled. -/
theorem pop {v : Nat} {path : List Frame}
    (h : SearchPath g settled none (⟨v, []⟩ :: path))
    (hs : ∀ w, settled w → settled' w) (hv : settled' v) :
    SearchPath g settled' none path := by
  cases h with
  | cons _ _ _ _ below =>
      cases below with
      | nil => exact .nil
      | cons _ split isTaken step below =>
          refine .cons _ split (fun w hw => ?_) (by simp) (below.mono hs)
          rcases isTaken w hw with hw | hw
          · exact .inl (hs w hw)
          · cases hw
            exact .inl hv

theorem settled_of_step {v w : Nat} {path : List Frame}
    (h : SearchPath g settled none (⟨v, []⟩ :: path)) (hw : g.Step v w) :
    settled w := by
  cases h with
  | cons _ split isTaken _ _ =>
      rw [Step, split, List.append_nil] at hw
      rcases isTaken w hw with hs | hs
      · exact hs
      · cases hs

theorem step_head {above : Option Nat} {v w : Nat} {rest : List Nat}
    {path : List Frame}
    (h : SearchPath g settled above (⟨v, w :: rest⟩ :: path)) : g.Step v w := by
  cases h with
  | cons _ split _ _ _ =>
      rw [Step, split]
      simp

theorem transGen_above {v : Nat} {path : List Frame}
    (h : SearchPath g settled (some v) path) :
    ∀ u ∈ path.map Frame.node, TransGen g.Step u v := by
  -- On the way out the node above changes from frame to frame.
  generalize hab : some v = above at h
  induction h generalizing v with
  | nil => simp
  | @cons _ x _ _ _ _ _ step _ ih =>
      intro u hu
      have hxv : g.Step x v := step v hab.symm
      rcases List.mem_cons.mp hu with rfl | hu
      · exact .single hxv
      · exact (ih rfl u hu).tail hxv

/-- Every node of a path but the innermost one leads to the innermost one. -/
theorem transGen_head {above : Option Nat} {f : Frame} {path : List Frame}
    (h : SearchPath g settled above (f :: path)) :
    ∀ u ∈ path.map Frame.node, TransGen g.Step u f.node := by
  cases h with
  | cons _ _ _ _ below => exact below.transGen_above

/-- In a graph without cycles no node is on a path twice. -/
theorem nodup {above : Option Nat} {path : List Frame} (hg : g.Acyclic)
    (h : SearchPath g settled above path) : (path.map Frame.node).Nodup := by
  induction h with
  | nil => exact .nil
  | @cons above v rest path taken split isTaken step below ih =>
      rw [List.map_cons, List.nodup_cons]
      exact ⟨fun hv => hg v (below.transGen_above v hv), ih⟩

/-- From each node of a path an edge leads to the one above it. -/
theorem isChain {above : Option Nat} {path : List Frame}
    (h : SearchPath g settled above path) :
    (path.map Frame.node).IsChain fun w v => g.Step v w := by
  induction h with
  | nil => exact .nil
  | @cons _ v _ path _ _ _ _ below ih =>
      rw [List.map_cons, List.isChain_cons]
      refine ⟨fun u hu => ?_, ih⟩
      -- The next node below `v` leads to `v` as the one above it.
      cases below with
      | nil => cases hu
      | cons _ _ _ step _ =>
          rw [List.map_cons, List.head?_cons, Option.mem_some_iff] at hu
          exact hu ▸ step v rfl

end SearchPath

/-! ## Work that a path leaves -/

/-- One unit for each frame and one for each edge that is still to be taken. -/
def pathWork : List Frame → Nat
  | [] => 0
  | f :: path => f.rest.length + 1 + pathWork path

@[simp] theorem pathWork_nil : pathWork [] = 0 := rfl

@[simp] theorem pathWork_cons (f : Frame) (path : List Frame) :
    pathWork (f :: path) = f.rest.length + 1 + pathWork path := rfl

end VisualRules.Digraph
