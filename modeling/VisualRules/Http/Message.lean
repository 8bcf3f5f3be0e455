import VisualRules.Bytes.Utf8
import VisualRules.Json.Value
import VisualRules.Text.Blank

/-!
# Requests and responses

The messages between the service and its clients.
-/

namespace VisualRules

/-- The method of a request. -/
inductive Method
  | get
  | head
  | post
  | options
  | other (name : String)
deriving DecidableEq, Repr, Inhabited

/-- The method with a name; case matters. -/
def Method.ofName : String → Method
  | "GET" => .get
  | "HEAD" => .head
  | "POST" => .post
  | "OPTIONS" => .options
  | name => .other name

/-- A request. -/
structure Request where
  method : Method
  /-- The path, and what may follow it. -/
  target : String
  headers : List (String × String) := []
  body : Bytes := []
deriving DecidableEq, Repr, Inhabited

namespace Request

/-- The target without its query and its fragment. -/
def path (r : Request) : String :=
  String.ofList (r.target.toList.takeWhile fun c => c ≠ '?' && c ≠ '#')

/-- The value of the first header with a name, in any case of its letters. -/
def header? (r : Request) (name : String) : Option String :=
  (r.headers.find? fun h => Text.sameAscii h.1 name).map (·.2)

end Request

/-- What a response holds. -/
inductive ResponseBody
  | empty
  | text (s : String)
  | json (v : Json.Value)
deriving Repr, Inhabited

/-- A response. Names of headers are in lower case. -/
structure Response where
  status : Nat
  headers : List (String × String) := []
  body : ResponseBody := .empty
deriving Repr, Inhabited

namespace Response

/-- A response that is a text. -/
def plain (status : Nat) (s : String) : Response :=
  ⟨status, [("content-type", "text/plain; charset=utf-8")], .text s⟩

/-- A response that is a JSON document. -/
def json (status : Nat) (v : Json.Value) : Response :=
  ⟨status, [("content-type", "application/json")], .json v⟩

/-- A response with further headers. -/
def withHeaders (r : Response) (headers : List (String × String)) : Response :=
  { r with headers := r.headers ++ headers }

/-- A response of which only the status and the headers are sent. -/
def withoutBody (r : Response) : Response :=
  { r with body := .empty }

end Response

end VisualRules
