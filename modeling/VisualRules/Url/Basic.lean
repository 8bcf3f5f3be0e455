import VisualRules.Text.Blank
import VisualRules.Url.Host

/-!
# URLs

Reading and writing absolute URLs. White space and controls around a URL and line breaks in it are
dropped. The special schemes take a backslash for a slash, need a host and have a default port. A
URL is written in its one normal form.
-/

namespace VisualRules

namespace Url

/-- The kinds of scheme that are read differently. -/
inductive SchemeKind
  | special
  | file
  | other
deriving DecidableEq, Repr

/-- The kind of a scheme. -/
def schemeKind (scheme : String) : SchemeKind :=
  if ["http", "https", "ws", "wss", "ftp"].contains scheme then .special
  else if scheme = "file" then .file
  else .other

/-- The port of a special scheme that need not be written. -/
def defaultPort? (scheme : String) : Option Nat :=
  [("http", 80), ("https", 443), ("ws", 80), ("wss", 443), ("ftp", 21)].lookup scheme

/-- Who is addressed where: credentials in their written form, host and port. -/
structure Authority where
  username : String
  password : String
  host : Option Host
  port : Option Nat
deriving DecidableEq

end Url

/-- An absolute URL; path, query and fragment are in their written form. -/
structure Url where
  scheme : String
  authority : Option Url.Authority
  path : String
  query : Option String
  fragment : Option String
deriving DecidableEq

namespace Url

/-! ## Writing -/

/-- The written form of an authority. -/
def Authority.text (a : Authority) : String :=
  let password := if a.password.isEmpty then "" else ":" ++ a.password
  let credentials := a.username ++ password
  (if credentials.isEmpty then "" else credentials ++ "@") ++
    ((a.host.map Host.text).getD "") ++
    ((a.port.map fun p => ":" ++ toString p).getD "")

/-- The written form of a URL. -/
def text (u : Url) : String :=
  u.scheme ++ ":" ++
    ((u.authority.map fun a => "//" ++ a.text).getD "") ++
    u.path ++
    ((u.query.map ("?" ++ ·)).getD "") ++
    ((u.fragment.map ("#" ++ ·)).getD "")

/-! ## Reading -/

/-- Line breaks and tabs. -/
def isBreak (c : Char) : Bool :=
  c = '\t' || c = '\n' || c = '\r'

/-- Drops what does not count: controls and spaces at both ends, line breaks and tabs anywhere. -/
def clean (cs : List Char) : List Char :=
  (Text.trimBy isEdge cs).filter (!isBreak ·)

/-- Characters of a scheme. -/
def isSchemePart (c : Char) : Bool :=
  c.isAlphanum || ['+', '-', '.'].contains c

/-- The scheme in lower case and the text after its colon. -/
def scheme? (cs : List Char) : Option (String × List Char) :=
  match cs.dropWhile isSchemePart with
  | ':' :: rest =>
    if (cs.head?.map Char.isAlpha).getD false then
      some (String.ofList ((cs.takeWhile isSchemePart).map Char.toLower), rest)
    else none
  | _ => none

/-- Whether a character is a slash in URLs of a kind. -/
def isSlash (kind : SchemeKind) (c : Char) : Bool :=
  c = '/' || (c = '\\' && kind ≠ .other)

/-- Whether a character ends an authority. -/
def endsAuthority (kind : SchemeKind) (c : Char) : Bool :=
  isSlash kind c || c = '?' || c = '#'

/-- Splits off the credentials: what stands in front of the last at sign, if there is one. -/
def splitCredentials (kind : SchemeKind) (cs : List Char) : Option (List Char) × List Char :=
  let area := cs.takeWhile fun c => !endsAuthority kind c
  match area.reverse.dropWhile (· ≠ '@') with
  | [] => (none, cs)
  | _ :: front => (some front.reverse, cs.drop (front.length + 1))

/-- Splits off the host: it ends at a colon outside of brackets or where the authority ends. -/
def splitHost (kind : SchemeKind) : Bool → List Char → List Char × List Char
  | _, [] => ([], [])
  | inBrackets, c :: cs =>
    if endsAuthority kind c || (c = ':' && !inBrackets) then ([], c :: cs)
    else
      let inBrackets := if c = '[' then true else if c = ']' then false else inBrackets
      let (host, rest) := splitHost kind inBrackets cs
      (c :: host, rest)

/-- The number that the digits in front of the end of an authority write; it must be one of 16
bits. No digits are no port. -/
def port? (cs : List Char) : Except Fault (Option Nat × List Char) :=
  let digits := cs.takeWhile Char.isDigit
  let rest := cs.dropWhile Char.isDigit
  let n := digits.foldl (fun n c => n * 10 + (c.toNat - 48)) 0
  if UInt16.size ≤ n then .error .badPort
  else
    match rest with
    | [] => .ok (if digits.isEmpty then none else some n, [])
    | c :: _ =>
      if ['/', '\\', '?', '#'].contains c then
        .ok (if digits.isEmpty then none else some n, rest)
      else .error .badPort

/-- The port behind a host; the default one of the scheme counts as none. -/
def portBehind (scheme : String) : List Char → Except Fault (Option Nat × List Char)
  | ':' :: cs => do
    let (port, rest) ← port? cs
    return (if port = defaultPort? scheme then none else port, rest)
  | cs => .ok (none, cs)

/-- The user name and the password of credentials. -/
def credentials (cs : List Char) : String × String :=
  let enc := fun cs => String.ofList (encode .credentials cs)
  (enc (cs.takeWhile (· ≠ ':')), enc ((cs.dropWhile (· ≠ ':')).drop 1))

/-- The authority at the front of a text, after its slashes. -/
def readAuthority (scheme : String) (cs : List Char) (form : NameForm := .ascii) :
    Except Fault (Authority × List Char) := do
  let kind := schemeKind scheme
  let (front, cs) := splitCredentials kind cs
  let (user, password) := credentials (front.getD [])
  if front = some [] && (cs.head?.map (endsAuthority kind)).getD false then throw .emptyHost
  let (name, rest) := splitHost kind false cs
  if name.isEmpty then
    if kind = .special || rest.head? = some ':' || !(user.isEmpty && password.isEmpty) then
      throw .emptyHost
    return (⟨user, password, none, none⟩, rest)
  let host ← if kind = .other then Host.plain name else Host.special name form
  let (port, rest) ← portBehind scheme rest
  return (⟨user, password, some host, port⟩, rest)

/-- A segment that stands for the one above; the point may be written with a percent sign. -/
def isDoubleDot (segment : List Char) : Bool :=
  [[ '.', '.' ], "%2e.".toList, ".%2e".toList, "%2e%2e".toList].contains
    (segment.map Char.toLower)

/-- A segment that stands for itself. -/
def isSingleDot (segment : List Char) : Bool :=
  [['.'], "%2e".toList].contains (segment.map Char.toLower)

/-- A letter with a colon or a bar, which names a drive. -/
def isDriveLetter (segment : List Char) : Bool :=
  match segment with
  | [a, b] => a.isAlpha && (b = ':' || b = '|')
  | _ => false

/-- Drops the last segment that stands in front, unless it names a drive. `front` is in reverse
order. -/
def parentOf (front : List (List Char)) : List (List Char) :=
  match front with
  | [] => []
  | s :: rest => if isDriveLetter s then front else rest

/-- Resolves the segments of a path: `front` holds those that end in a slash, in reverse order. -/
def resolve (front : List (List Char)) : List (List Char) → List (List Char)
  | [] => front.reverse ++ [[]]
  | [s] =>
    if isDoubleDot s then (parentOf front).reverse ++ [[]]
    else if isSingleDot s then front.reverse ++ [[]]
    else front.reverse ++ [s]
  | s :: rest =>
    if isDoubleDot s then resolve (parentOf front) rest
    else if isSingleDot s then resolve front rest
    else resolve (s :: front) rest

/-- The written form of a path that starts with a slash. -/
def pathText (kind : SchemeKind) (cs : List Char) : String :=
  let cs := cs.map fun c => if isSlash kind c then '/' else c
  let segments := (cs.drop 1).splitOn '/'
  let resolved := resolve [] (segments.map (encode .path))
  String.ofList (resolved.flatMap fun s => '/' :: s)

/-- Splits a text in front of its query and its fragment. -/
def splitPath (cs : List Char) : List Char × List Char :=
  (cs.takeWhile fun c => c ≠ '?' && c ≠ '#', cs.dropWhile fun c => c ≠ '?' && c ≠ '#')

/-- The query and the fragment of a text that starts with them. -/
def queryAndFragment (kind : SchemeKind) (cs : List Char) : Option String × Option String :=
  let part := if kind = .other then Part.query else Part.specialQuery
  let fragmentOf := fun cs => match cs with
    | '#' :: rest => some (String.ofList (encode .fragment rest))
    | _ => none
  match cs with
  | '?' :: rest =>
    (some (String.ofList (encode part (rest.takeWhile (· ≠ '#')))),
      fragmentOf (rest.dropWhile (· ≠ '#')))
  | _ => (none, fragmentOf cs)

/-- The written form of the path after an authority. A special URL has a path even if none is
given. -/
def pathAfterAuthority (kind : SchemeKind) (cs : List Char) : String :=
  match cs with
  | [] => if kind = .other then "" else "/"
  | c :: _ => pathText kind (if isSlash kind c then cs else '/' :: cs)

/-- The host of a file URL is often empty, and a drive is none. -/
def fileAuthority (cs : List Char) (form : NameForm := .ascii) :
    Except Fault (Authority × List Char) := do
  let name := cs.takeWhile fun c => !endsAuthority .file c
  let rest := cs.dropWhile fun c => !endsAuthority .file c
  if name.isEmpty then return (⟨"", "", none, none⟩, rest)
  if isDriveLetter name then return (⟨"", "", none, none⟩, cs)
  let host ← Host.special name form
  return (⟨"", "", if host = .domain "localhost" then none else some host, none⟩, rest)

/-- The authority and what follows it, as the kind of the scheme has it. -/
def splitAuthority (scheme : String) (cs : List Char) (form : NameForm := .ascii) :
    Except Fault (Option Authority × List Char) := do
  match schemeKind scheme with
  | .special =>
    let (a, rest) ← readAuthority scheme (cs.dropWhile (isSlash .special)) form
    return (some a, rest)
  | .file =>
    match cs with
    | a :: b :: rest =>
      if isSlash .file a && isSlash .file b then
        let (x, rest) ← fileAuthority rest form
        return (some x, rest)
      else return (some ⟨"", "", none, none⟩, cs)
    | _ => return (some ⟨"", "", none, none⟩, cs)
  | .other =>
    match cs with
    | '/' :: '/' :: rest =>
      let (a, rest) ← readAuthority scheme rest form
      return (some a, rest)
    | _ => return (none, cs)

/-- Reads an absolute URL. -/
def parse (raw : String) (form : NameForm := .ascii) : Except Fault Url := do
  match scheme? (clean raw.toList) with
  | none => throw .noScheme
  | some (scheme, rest) =>
    let kind := schemeKind scheme
    let (a, rest) ← splitAuthority scheme rest form
    let (front, rest) := splitPath rest
    let path := match a, front with
      | some _, _ => pathAfterAuthority kind front
      | none, '/' :: _ => pathText kind front
      | none, _ => String.ofList (encode .plain front)
    let (query, fragment) := queryAndFragment kind rest
    return ⟨scheme, a, path, query, fragment⟩

end Url

end VisualRules
