import VisualRules.Yaml.Token

/-!
# Nodes

The tree that tokens write: scalars, sequences and mappings, in blocks or in flows. A node may carry
an anchor, and an alias in place of a node refers to one. What is missing is an empty plain scalar.
-/

namespace VisualRules.Yaml

/-- A value of a document. The tag of a scalar is its full name. -/
inductive Node
  | scalar (text : String) (style : Style) (tag : Option String)
  | sequence (items : List Node)
  | mapping (entries : List (Node × Node))
  /-- Refers to an anchor by its number. -/
  | alias (number : Nat)
deriving Inhabited

/-- The node in a place where none is written. -/
def Node.missing : Node :=
  .scalar "" .plain none

/-- A text as a whole; without a root it holds no document. -/
structure Document where
  root : Option Node
  /-- The nodes with an anchor, by the number of the anchor; the first of a number counts. -/
  anchored : List (Nat × Node)

/-- The node that a node stands for. -/
def Document.resolve (d : Document) : Node → Option Node
  | .alias number => d.anchored.lookup number
  | node => some node

/-- Tokens on their way into a tree: those to come, the handles of tags, the numbers of the anchors
met, and the nodes that bear them. -/
structure Supply where
  tokens : List Token
  handles : List (String × String)
  numbers : List (String × Nat) := []
  anchored : List (Nat × Node) := []

/-- A part of the grammar. -/
abbrev Builder (α : Type) := StateT Supply Option α

namespace Builder

/-- The next token. -/
def peek : Builder (Option Token) := do
  return (← get).tokens.head?

/-- Passes over a token. -/
def drop : Builder Unit :=
  modify fun s => { s with tokens := s.tokens.drop 1 }

/-- Whether the next token is one of some. -/
def sees (ts : List Token) : Builder Bool := do
  return (← peek).any (ts.contains ·)

/-- Passes over a token that has to come next. -/
def expect (t : Token) : Builder Unit := do
  if ← sees [t] then drop else failure

/-- What is before a node: a name to refer to it by, and a tag. -/
structure Marks where
  anchor : Option String := none
  tag : Option String := none

/-- An anchor, if one comes next. -/
def anchor? : Builder (Option String) := do
  match ← peek with
  | some (.anchor name) => drop; return some name
  | _ => return none

/-- A tag, if one comes next. Its handle has to be known. -/
def tag? : Builder (Option String) := do
  match ← peek with
  | some (.tag handle suffix) =>
    drop
    if handle.isEmpty then return some suffix
    let some start := (← get).handles.lookup handle | failure
    return some (start ++ suffix)
  | _ => return none

/-- The marks before a node, in any order. -/
def marks : Builder Marks := do
  match ← anchor? with
  | some name => return ⟨some name, ← tag?⟩
  | none =>
    let tag ← tag?
    return ⟨← anchor?, tag⟩

/-- The number that an anchor gets: how many names are known before it. -/
def number (name : String) : Builder Nat := do
  let s ← get
  let n := s.numbers.length
  set { s with numbers := (name, n) :: s.numbers.filter (·.1 ≠ name) }
  return n

/-- Reads a node that may bear an anchor. Inside the node the anchor is known already, and an
anchor of the same number in there takes its place. -/
def anchoring (name : Option String) (node : Builder Node) : Builder Node := do
  match name with
  | none => node
  | some name =>
    let n ← number name
    let before := (← get).anchored
    let x ← node
    modify fun s =>
      let inside := s.anchored.take (s.anchored.length - before.length)
      { s with anchored := inside ++ (n, x) :: before }
    return x

mutual

/-- A node. Sequences and mappings in blocks count only where `inBlock`, and a sequence that is
not indented only where `atKey`. -/
def node (inBlock atKey : Bool) : Nat → Builder Node
  | 0 => failure
  | n + 1 => do
    match ← peek with
    | some (.alias name) =>
      drop
      let some number := (← get).numbers.lookup name | failure
      return .alias number
    | _ =>
      let m ← marks
      anchoring m.anchor do
        match ← peek with
        | some (.scalar text style) =>
          drop
          return .scalar text style (m.tag.filter (· ≠ "!"))
        | some .flowSequence => drop; return .sequence (← flowItems true n)
        | some .flowMapping => drop; return .mapping (← flowEntries true n)
        | t =>
          if t = some .entry && atKey then return .sequence (← bareItems n)
          else if t = some .blockSequence && inBlock then
            drop
            return .sequence (← blockItems n)
          else if t = some .blockMapping && inBlock then
            drop
            return .mapping (← blockEntries n)
          else if m.anchor.isSome || m.tag.isSome then
            return .scalar "" .plain (m.tag.filter (· ≠ "!"))
          else failure

/-- A node, or none where one of some tokens comes next. -/
def nodeUnless (ends : List Token) (inBlock atKey : Bool) : Nat → Builder Node
  | 0 => failure
  | n + 1 => do
    if ← sees ends then return .missing else node inBlock atKey n

/-- The value of an entry: a colon and a node, both of which may be missing. -/
def valueUnless (ends : List Token) (inBlock : Bool) : Nat → Builder Node
  | 0 => failure
  | n + 1 => do
    if ← sees [.value] then
      drop
      nodeUnless ends inBlock inBlock n
    else return .missing

/-- The items of a block up to its end. -/
def blockItems : Nat → Builder (List Node)
  | 0 => failure
  | n + 1 => do
    if ← sees [.blockEnd] then
      drop
      return []
    expect .entry
    let x ← nodeUnless [.entry, .blockEnd] true false n
    return x :: (← blockItems n)

/-- The items of a sequence that is as far to the left as the key that it belongs to. -/
def bareItems : Nat → Builder (List Node)
  | 0 => failure
  | n + 1 => do
    if ← sees [.entry] then
      drop
      let x ← nodeUnless [.entry, .key, .value, .blockEnd] true false n
      return x :: (← bareItems n)
    else return []

/-- The entries of a block up to its end. -/
def blockEntries : Nat → Builder (List (Node × Node))
  | 0 => failure
  | n + 1 => do
    if ← sees [.blockEnd] then
      drop
      return []
    expect .key
    let k ← nodeUnless [.key, .value, .blockEnd] true true n
    let v ← valueUnless [.key, .value, .blockEnd] true n
    return (k, v) :: (← blockEntries n)

/-- The items of a flow up to its end, with commas in between. A key among them makes a mapping of
one entry; a key that is missing there uses up the token in its place. -/
def flowItems (isFirst : Bool) : Nat → Builder (List Node)
  | 0 => failure
  | n + 1 => do
    if !isFirst && !(← sees [.flowSequenceEnd]) then expect .flowEntry
    if ← sees [.flowSequenceEnd] then
      drop
      return []
    let x ← if ← sees [.key] then do
        drop
        let k ← if ← sees [.value, .flowEntry, .flowSequenceEnd] then do
            drop
            pure Node.missing
          else node false false n
        let v ← valueUnless [.flowEntry, .flowSequenceEnd] false n
        pure (.mapping [(k, v)])
      else node false false n
    return x :: (← flowItems false n)

/-- The entries of a flow up to its end, with commas in between. -/
def flowEntries (isFirst : Bool) : Nat → Builder (List (Node × Node))
  | 0 => failure
  | n + 1 => do
    if !isFirst && !(← sees [.flowMappingEnd]) then expect .flowEntry
    if ← sees [.flowMappingEnd] then
      drop
      return []
    let (k, v) ← if ← sees [.key] then do
        drop
        let k ← nodeUnless [.value, .flowEntry, .flowMappingEnd] false false n
        let v ← valueUnless [.flowEntry, .flowMappingEnd] false n
        pure (k, v)
      else do
        let k ← node false false n
        pure (k, Node.missing)
    return (k, v) :: (← flowEntries false n)

end

end Builder

/-- The handles of tags that need no declaration. -/
def defaultHandles : List (String × String) :=
  [("!", "!"), ("!!", "tag:yaml.org,2002:")]

/-- The directives in front of a document: the handles that they declare, and what follows. Each
may be given once, and the version has to be a known one. -/
def directives (hasVersion : Bool) (handles : List (String × String)) :
    List Token → Option (List (String × String) × List Token)
  | .version major minor :: ts =>
    if hasVersion || major ≠ 1 || (minor ≠ 1 && minor ≠ 2) then none
    else directives true handles ts
  | .tagHandle handle start :: ts =>
    if (handles.lookup handle).isSome then none
    else directives hasVersion ((handle, start) :: handles) ts
  | ts => some (handles ++ defaultHandles, ts)

/-- The tokens before the content of a document: whether its start is marked, the handles of its
tags, and its content. -/
def documentHead (ts : List Token) : Option (Bool × List (String × String) × List Token) := do
  let (handles, rest) ← directives false [] ts
  match rest with
  | .documentStart :: rest => return (true, handles, rest)
  | _ => if rest.length = ts.length then return (false, handles, ts) else none

/-- The one document that tokens write. A start that is marked may have nothing behind it. -/
def Document.ofTokens? (ts : List Token) : Option Document := do
  if ts.isEmpty then return ⟨none, []⟩
  let (isMarked, handles, ts) ← documentHead ts
  let isBare := match ts.head? with
    | none | some .documentEnd | some .documentStart => true
    | some (.version ..) | some (.tagHandle ..) => true
    | _ => false
  let build :=
    if isMarked && isBare then pure Node.missing
    else Builder.node true false (4 * (ts.length + 1))
  let (root, s) ← build.run { tokens := ts, handles := handles }
  if s.tokens.all (· = .documentEnd) then return ⟨some root, s.anchored⟩ else none

/-- The one document of a text; `none` if it is malformed. -/
def Document.ofText? (text : String) : Option Document := do
  Document.ofTokens? (← Token.ofText? text)

end VisualRules.Yaml
