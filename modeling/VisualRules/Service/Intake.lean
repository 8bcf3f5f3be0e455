import VisualRules.Bytes.Marked
import VisualRules.Model.Prompt
import VisualRules.Service.Failure

/-!
# Taking in a form

A form with the name and the intent of the wanted rule and any number of files. Its parts are taken
in order: the last name and the last intent count, each file goes into the upload store, and the
first problem ends the reading. What was stored before it stays noted, so that it can be removed.
-/

namespace VisualRules

/-- What a part of the form is for. -/
inductive PartRole
  | name
  | intent
  | file (fileName : String)
  /-- A part that nothing needs, such as a file input without a file. -/
  | ignored
deriving DecidableEq, Repr

/-- What a part is for: its field name decides, then whether there is a file name. -/
def PartHead.role (h : PartHead) : PartRole :=
  match h.name with
  | some "rule_name" => .name
  | some "rule_intent" => .intent
  | _ =>
    match h.fileName.filter (!·.isEmpty) with
    | some fileName => .file fileName
    | none => .ignored

/-- What has been taken in of a form. -/
structure Intake where
  name : Option String := none
  intent : Option String := none
  /-- The files of this form that have been stored as a whole. -/
  uploads : List Upload := []
  store : UploadStore
deriving Inhabited

namespace Intake

/-- What is said of a file whose content breaks off. -/
def brokenContent : String := "Error parsing `multipart/form-data` request"

/-- Stores a file that comes in pieces, behind which its content may break off. -/
def keep (i : Intake) (h : PartHead) (fileName : String) (pieces : List Bytes)
    (fault : Option FormFault) : Except RequestFailure Unit × Intake :=
  let broken := (fault.map fun _ => .error brokenContent).toList
  match i.store.persist fileName h.contentType (pieces.map .ok ++ broken) with
  | (.ok u, store) => (.ok (), { i with uploads := i.uploads ++ [u], store := store })
  | (.error (.stream _ reason), store) =>
    (.error (.rejected ((fault.map (·.status)).getD 400) reason), { i with store := store })
  | (.error f, store) => (.error (.ofUpload f), { i with store := store })

/-- Takes in a whole part. -/
def take (i : Intake) (h : PartHead) (pieces : List Bytes) : Except RequestFailure Unit × Intake :=
  match h.role with
  | .name => (.ok (), { i with name := some (Bytes.toMarkedText pieces.flatten) })
  | .intent => (.ok (), { i with intent := some (Bytes.toMarkedText pieces.flatten) })
  | .file fileName => i.keep h fileName pieces none
  | .ignored => (.ok (), i)

/-- Ends at a part whose content breaks off. -/
def breakOff (i : Intake) (h : PartHead) (pieces : List Bytes) (fault : FormFault) :
    Except RequestFailure Unit × Intake :=
  match h.role with
  | .file fileName => i.keep h fileName pieces (some fault)
  | _ => (.error (.ofForm fault), i)

/-- Takes in a form up to its end or to the first problem. -/
def receive : Form → Intake → Except RequestFailure Unit × Intake
  | .done, i => (.ok (), i)
  | .broken fault, i => (.error (.ofForm fault), i)
  | .cut h pieces fault, i => i.breakOff h pieces fault
  | .part h pieces rest, i =>
    match i.take h pieces with
    | (.ok (), i) => receive rest i
    | (.error f, i) => (.error f, i)

/-- A text that the form must have. -/
def required (field : String) : Option String → Except RequestFailure String
  | some s => .ok s
  | none => .error (.badRequest ("Missing form field '" ++ field ++ "'"))

/-- The request in a form that has been taken in. -/
def request (i : Intake) : Except RequestFailure RuleRequest := do
  let r := RuleRequest.trimmed (← required "rule_name" i.name) (← required "rule_intent" i.intent)
  if r.name.isEmpty || r.intent.isEmpty then
    throw (.badRequest "rule_name and rule_intent must not be blank")
  return r

end Intake

end VisualRules
