import VisualRules.Proofs.Rendering.Phrase
import VisualRules.Proofs.Validation.WellFormed

/-!
# Reading expressions

Two ways to say whether a rule applies when it is known which conditions hold:
by recursion along the edges of its graph, and by reading the tokens of its
expressions from left to right. The reader knows nothing of the graph; what a
reference stands for it has to have read before.
-/

namespace VisualRules

open Relation

namespace Operator

/-- Two operands combined. -/
def combine : Operator → Bool → Bool → Bool
  | .and => (· && ·)
  | .or => (· || ·)

/-- All operands of a group combined. -/
def total : Operator → List Bool → Bool
  | .and, bs => bs.all id
  | .or, bs => bs.any id

theorem total_cons (op : Operator) (b : Bool) (bs : List Bool) :
    op.total (b :: bs) = op.combine b (op.total bs) := by
  cases op <;> rfl

theorem total_singleton (op : Operator) (b : Bool) : op.total [b] = b := by
  cases op <;> simp [total]

theorem combine_assoc (op : Operator) (a b c : Bool) :
    op.combine (op.combine a b) c = op.combine a (op.combine b c) := by
  cases op
  · exact Bool.and_assoc a b c
  · exact Bool.or_assoc a b c

end Operator

/-! ## The value of a graph -/

namespace TriggerLogic

theorem linked_of_mem_liveChildren {g : TriggerLogic} {n m : Node}
    (hm : m ∈ g.liveChildren n) : Linked g.edges n.id m.id :=
  linked_of_mem_children (List.mem_of_mem_filter hm)

/-- The value of a node when it is known which conditions hold: that of a
condition, and for a logic node its live operands combined. -/
noncomputable def value (g : TriggerLogic) (wf : WellFounded fun b a => Linked g.edges a b)
    (holds : String → Bool) (n : Node) : Bool :=
  match n.kind with
  | .content _ => holds n.id
  | .logic op => op.total ((g.liveChildren n).attach.map fun m => g.value wf holds m.1)
termination_by wf.wrap n.id
decreasing_by exact linked_of_mem_liveChildren m.2

variable {g : TriggerLogic} {wf : WellFounded fun b a => Linked g.edges a b}
  {holds : String → Bool}

theorem value_content {n : Node} {label : String} (hn : n.kind = .content label) :
    g.value wf holds n = holds n.id := by
  rw [value, hn]

theorem value_logic {n : Node} {op : Operator} (hn : n.kind = .logic op) :
    g.value wf holds n = op.total ((g.liveChildren n).map (g.value wf holds)) := by
  rw [value, hn]
  exact congrArg op.total List.attach_map_val

open Classical in
/-- The value of a root, if tokens are written of it. -/
noncomputable def rootValue (g : TriggerLogic)
    (wf : WellFounded fun b a => Linked g.edges a b) (holds : String → Bool) (n : Node) :
    Option Bool :=
  if g.Live n then some (g.value wf holds n) else none

end TriggerLogic

/-! ## The reader -/

/-- A group that has not been closed: its node, the value of the operands so
far, and the operator that joins the next one to them. -/
structure OpenGroup where
  node : String
  value : Option Bool
  operator : Option Operator
deriving DecidableEq

/-- The state of the reading: the open groups, the innermost first, the values
of the groups that have been closed, the last one first, and the value of the
expression if it has been read. -/
structure Reading where
  groups : List OpenGroup
  closed : List (String × Bool)
  result : Option Bool
deriving DecidableEq

namespace Reading

/-- A value stands where the reading has come to: it is an operand of the
innermost group or the value of the expression. Two operands need an operator
in between. -/
def give (b : Bool) (s : Reading) : Option Reading :=
  match s.groups with
  | [] => if s.result = none then some { s with result := some b } else none
  | group :: groups =>
    match group.value, group.operator with
    | none, none => some { s with groups := { group with value := some b } :: groups }
    | some a, some op =>
      some { s with groups := ⟨group.node, some (op.combine a b), none⟩ :: groups }
    | _, _ => none

/-- Reads a token, if it can stand there. A reference has the value of the
group that was closed last for its node. -/
def read (holds : String → Bool) (s : Reading) : Token → Option Reading
  | .condition v _ => s.give (holds v)
  | .reference v => (s.closed.lookup v).bind fun b => s.give b
  | .opening v => some { s with groups := ⟨v, none, none⟩ :: s.groups }
  | .operator v op =>
    match s.groups with
    | ⟨u, some a, none⟩ :: groups =>
      if u = v then some { s with groups := ⟨u, some a, some op⟩ :: groups } else none
    | _ => none
  | .closing v =>
    match s.groups with
    | ⟨u, some a, none⟩ :: groups =>
      if u = v then give a ⟨groups, (v, a) :: s.closed, s.result⟩ else none
    | _ => none

/-- Reads tokens from left to right. -/
def readAll (holds : String → Bool) (s : Reading) (ts : List Token) : Option Reading :=
  ts.foldlM (read holds) s

end Reading

/-- The roots of expressions that are read one after the other, each with the
value that was read, given the values of the groups that have been closed; an
expression without tokens has none. -/
def readExpressions (holds : String → Bool) (closed : List (String × Bool)) :
    List Expression → Option (List (String × Option Bool))
  | [] => some []
  | e :: es => do
    let s ← Reading.readAll holds ⟨[], closed, none⟩ e.tokens
    if s.groups ≠ [] then none
    let values ← readExpressions holds s.closed es
    return (e.root, s.result) :: values

end VisualRules
