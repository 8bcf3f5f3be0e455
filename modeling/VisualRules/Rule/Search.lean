import VisualRules.Rule.Graph

/-!
# Searches

Three searches with an explicit stack, so that the depth of a graph is not limited: for a cycle,
for the nodes from which a marked node can be reached, and for the nodes joined to a given one.
-/

namespace VisualRules

/-- How far a depth-first search has come with a node. -/
inductive Mark
  | unvisited
  | inProgress
  | done
deriving DecidableEq, Repr, Inhabited

/-- A node on the way, and the targets of its edges that are still to be visited. -/
structure Frame where
  node : Nat
  rest : List Nat
deriving DecidableEq, Repr

namespace Digraph

/-! ## Cycles -/

/-- The state of the search for a cycle: a mark for each node, and the path that leads to where
the search stands, the innermost node first. -/
structure CycleSearch where
  marks : Array Mark
  path : List Frame

/-- What one step of the search for a cycle leads to. -/
inductive CycleStep
  /-- The search goes on. -/
  | going (s : CycleSearch)
  /-- All nodes reachable from the start have been visited. -/
  | finished (marks : Array Mark)
  /-- The path has come back to one of its nodes. -/
  | closed (node : Nat)

/-- Starts at a node that has not been visited. -/
def CycleSearch.start (g : Digraph) (marks : Array Mark) (v : Nat) : CycleSearch :=
  ⟨marks.setIfInBounds v .inProgress, [⟨v, g.children v⟩]⟩

/-- Takes the next edge of the innermost node, or leaves the node if it has no more. -/
def CycleSearch.step (g : Digraph) (s : CycleSearch) : CycleStep :=
  match s.path with
  | [] => .finished s.marks
  | ⟨v, []⟩ :: path => .going ⟨s.marks.setIfInBounds v .done, path⟩
  | ⟨v, w :: rest⟩ :: path =>
    match s.marks.getD w .done with
    | .inProgress => .closed w
    | .unvisited =>
      .going ⟨s.marks.setIfInBounds w .inProgress, ⟨w, g.children w⟩ :: ⟨v, rest⟩ :: path⟩
    | .done => .going ⟨s.marks, ⟨v, rest⟩ :: path⟩

/-- Steps until the path is empty or closed. -/
def CycleSearch.run (g : Digraph) : Nat → CycleSearch → Except Nat (Array Mark)
  | 0, s => .ok s.marks
  | n + 1, s =>
    match s.step g with
    | .going s => run g n s
    | .finished marks => .ok marks
    | .closed v => .error v

/-- The number of steps that visit every node and every edge. -/
def stepBound (g : Digraph) : Nat :=
  g.size + g.edgeCount + 1

/-- Searches from each node that has not been visited, in order, given a bound on the steps. -/
def cycleFrom (g : Digraph) (bound : Nat) : Array Mark → List Nat → Option Nat
  | _, [] => none
  | marks, v :: vs =>
    if marks.getD v .done = .unvisited then
      match (CycleSearch.start g marks v).run g bound with
      | .ok marks => cycleFrom g bound marks vs
      | .error w => some w
    else cycleFrom g bound marks vs

/-- The first node that a depth-first search, from each node in order, finds on its own path. -/
def cycleNode? (g : Digraph) : Option Nat :=
  cycleFrom g g.stepBound (Array.replicate g.size .unvisited) (List.range g.size)

/-! ## Reaching a marked node -/

/-- What is known of a node in the search for marked nodes: nothing yet, or whether a marked node
can be reached from it. -/
abbrev Verdict := Option Bool

/-- Whether a marked node can be reached, given the verdicts on the targets of the edges. -/
def verdictOn (g : Digraph) (isMarked : Nat → Bool) (known : Array Verdict) (v : Nat) : Bool :=
  isMarked v || (g.children v).any fun w => known.getD w none == some true

/-- Takes the next edge of the innermost node, or settles the node if it has no more. -/
def reachStep (g : Digraph) (isMarked : Nat → Bool) (known : Array Verdict) :
    List Frame → Array Verdict × List Frame
  | [] => (known, [])
  | ⟨v, []⟩ :: path => (known.setIfInBounds v (some (g.verdictOn isMarked known v)), path)
  | ⟨v, w :: rest⟩ :: path =>
    match known.getD w (some false) with
    | none => (known, ⟨w, g.children w⟩ :: ⟨v, rest⟩ :: path)
    | some _ => (known, ⟨v, rest⟩ :: path)

/-- Steps until the path is empty. -/
def reachRun (g : Digraph) (isMarked : Nat → Bool) :
    Nat → Array Verdict → List Frame → Array Verdict
  | 0, known, _ => known
  | _ + 1, known, [] => known
  | n + 1, known, path =>
    let (known, path) := g.reachStep isMarked known path
    reachRun g isMarked n known path

/-- The verdict on each node: whether it is marked or has a way to a marked node. The graph must
have no cycle. -/
def reaching (g : Digraph) (isMarked : Nat → Bool) : Array Verdict :=
  let bound := g.stepBound
  (List.range g.size).foldl (fun known v =>
      if known.getD v (some false) = none then
        g.reachRun isMarked bound known [⟨v, g.children v⟩]
      else known)
    (Array.replicate g.size none)

/-! ## Joined nodes -/

/-- Takes a node off the list of pending ones and adds those of its neighbours that have not been
seen. -/
def joinedRun (g : Digraph) : Nat → Array Bool → List Nat → Array Bool
  | 0, seen, _ => seen
  | _ + 1, seen, [] => seen
  | n + 1, seen, v :: pending =>
    let (seen, pending) := (g.children v).foldl (fun (seen, pending) w =>
        if seen.getD w true then (seen, pending)
        else (seen.setIfInBounds w true, w :: pending))
      (seen, pending)
    joinedRun g n seen pending

/-- Which nodes can be reached from a node. Each is taken off the pending ones once. -/
def joined (g : Digraph) (v : Nat) : Array Bool :=
  joinedRun g (g.size + 1) ((Array.replicate g.size false).setIfInBounds v true) [v]

end Digraph

end VisualRules
