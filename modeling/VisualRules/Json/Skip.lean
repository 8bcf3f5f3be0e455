import VisualRules.Json.Scan

/-!
# Passing over a value

A value that no field wants is passed over without building it. The open brackets form a stack, so
the depth of a value is not limited.
-/

namespace VisualRules.Json

/-- An open bracket around the value being passed over. -/
inductive Bracket
  | list
  | object
deriving DecidableEq, Repr

/-- What is due next: a value, the first entry of a bracket just opened, a key, or what follows
a complete value. -/
inductive Due
  | value
  | first
  | key
  | next
deriving DecidableEq, Repr

/-- Passes over a key and its colon; the opening quote has been read. -/
def skipKey (cs : List Char) : Except Fault (List Char) := do
  let cs ← skipString cs
  match dropGap cs with
  | [] => throw .endOfObject
  | ':' :: cs => return cs
  | _ => throw .colonExpected

/-- Passes over a value that opens no bracket. -/
def skipPlain : List Char → Except Fault (List Char)
  | [] => .error .endOfValue
  | 'n' :: cs => scanWord ['u', 'l', 'l'] cs
  | 't' :: cs => scanWord ['r', 'u', 'e'] cs
  | 'f' :: cs => scanWord ['a', 'l', 's', 'e'] cs
  | '"' :: cs => skipString cs
  | c :: cs =>
    if c = '-' || c.isDigit then skipNumber (c :: cs) else .error .valueExpected

/-- The rest of a text after the value that is due and the end of all open brackets. Every second
step at least takes a character away, so twice the length of the text is enough fuel. -/
def skipOpen : Nat → Due → List Bracket → List Char → Except Fault (List Char)
  | 0, _, _, _ => .error .endOfValue
  | n + 1, .value, open_, cs =>
    match dropGap cs with
    | '[' :: cs => skipOpen n .first (.list :: open_) cs
    | '{' :: cs => skipOpen n .first (.object :: open_) cs
    | cs => do skipOpen n .next open_ (← skipPlain cs)
  | n + 1, .first, open_, cs =>
    match open_, dropGap cs with
    | .list :: outer, ']' :: cs => skipOpen n .next outer cs
    | .object :: outer, '}' :: cs => skipOpen n .next outer cs
    | .list :: _, [] => .error .endOfList
    | .object :: _, [] => .error .endOfObject
    | .object :: _, cs => skipOpen n .key open_ cs
    | _, cs => skipOpen n .value open_ cs
  | n + 1, .key, open_, cs =>
    match dropGap cs with
    | [] => .error .endOfObject
    | '"' :: cs => do skipOpen n .value open_ (← skipKey cs)
    | _ => .error .keyExpected
  | _ + 1, .next, [], cs => .ok cs
  | n + 1, .next, .list :: outer, cs =>
    match dropGap cs with
    | [] => .error .endOfList
    | ',' :: cs => skipOpen n .value (.list :: outer) cs
    | ']' :: cs => skipOpen n .next outer cs
    | _ => .error .listEndExpected
  | n + 1, .next, .object :: outer, cs =>
    match dropGap cs with
    | [] => .error .endOfObject
    | ',' :: cs => skipOpen n .key (.object :: outer) cs
    | '}' :: cs => skipOpen n .next outer cs
    | _ => .error .objectEndExpected

/-- The rest of a text after its first value. -/
def skipValue (cs : List Char) : Except Fault (List Char) :=
  skipOpen (2 * cs.length + 2) .value [] cs

end VisualRules.Json
