import VisualRules.Http.PartHead
import VisualRules.Text.Quoted

/-!
# Forms with several parts

The body of a form: parts with a boundary in front of each and two dashes behind the last boundary.
The content of a part comes in pieces. A body that ends early is a form too: it breaks off between
two parts or inside one.
-/

namespace VisualRules

/-- Why a form cannot be read on: the status of an error that says so, and its text. -/
structure FormFault where
  status : Nat
  message : String
  isError : 400 ≤ status := by decide
deriving DecidableEq, Repr

namespace FormFault

/-- The body is longer than allowed. -/
def tooLarge : FormFault := ⟨413, "failed to read stream", by decide⟩

/-- The body ends, or is no form, where a part should start. -/
def incomplete : FormFault := ⟨400, "incomplete multipart stream", by decide⟩

/-- The lines in front of a part are no header lines. -/
def malformedHead : FormFault := ⟨400, "failed to read headers", by decide⟩

/-- The body ends inside a part with a name. -/
def incompletePart (name : Option String) : FormFault where
  status := 400
  message := "field " ++ Text.quoted (name.getD "<unknown>") ++ " received with incomplete data"

end FormFault

/-- A form as it is read: its parts in order, and how it ends. -/
inductive Form
  | done
  | broken (fault : FormFault)
  /-- The last part, whose content breaks off behind some pieces. -/
  | cut (head : PartHead) (pieces : List Bytes) (fault : FormFault)
  | part (head : PartHead) (pieces : List Bytes) (rest : Form)
deriving DecidableEq, Repr

namespace Form

/-- The end of a line. -/
def lineEnd : Bytes := [13, 10]

/-- What stands in front of a boundary, and behind the last one. -/
def dashes : Bytes := [45, 45]

/-- The parts behind a boundary. Each of them takes a byte at least, so the number of bytes is
enough fuel. -/
def readParts (delimiter : Bytes) : Nat → Bytes → Form
  | 0, _ => .broken .incomplete
  | n + 1, bs =>
    if dashes.isPrefixOf bs then .done
    else
      match bs.dropWhile HeaderLine.isPadding with
      | 13 :: 10 :: rest =>
        match Bytes.cut? (lineEnd ++ lineEnd) rest with
        | none => .broken .incomplete
        | some (lines, rest) =>
          match PartHead.ofBytes? (lines ++ lineEnd ++ lineEnd) with
          | none => .broken .malformedHead
          | some head =>
            match Bytes.cut? (lineEnd ++ delimiter) rest with
            | none => .cut head [rest] (.incompletePart head.name)
            | some (content, rest) => .part head [content] (readParts delimiter n rest)
      | _ => .broken .incomplete

/-- The form in a body. What stands in front of the first boundary is ignored. -/
def ofBytes (boundary : String) (body : Bytes) : Form :=
  let delimiter := dashes ++ Bytes.ofText boundary
  match Bytes.cut? delimiter body with
  | none => .broken .incomplete
  | some (_, rest) => readParts delimiter (rest.length + 1) rest

end Form

end VisualRules
