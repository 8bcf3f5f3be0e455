import VisualRules.Text.Blank

/-!
# File names

A client chooses the name of its file, and the name becomes part of a path. Only the last component
is kept, in a set of characters that mean nothing to a file system, and never as a hidden file. The
extension of the name as it was sent is used only to guess a content type.
-/

namespace VisualRules.FileName

/-- Separates the components of a path, on whatever system the client runs. -/
def isSeparator (c : Char) : Bool :=
  c = '/' || c = '\\'

/-- Characters that stay in a stored name. -/
def isKept (c : Char) : Bool :=
  c.isAlphanum || c = '.' || c = '-' || c = '_'

/-- What follows the last separator. -/
def lastComponent (cs : List Char) : List Char :=
  (cs.reverse.takeWhile (!isSeparator ·)).reverse

/-- The name of a file that has none left. -/
def fallback : String := "upload"

/-- The name under which a file is stored: the last component with each other character replaced
and without dots at its start. -/
def sanitize (raw : String) : String :=
  let cleaned := (lastComponent raw.toList).map fun c => if isKept c then c else '_'
  match cleaned.dropWhile (· = '.') with
  | [] => fallback
  | cs => String.ofList cs

/-- The components of a path that name something. -/
def components (path : List Char) : List (List Char) :=
  (path.splitOnP (· = '/')).filter fun c => c ≠ [] && c ≠ ['.']

/-- What follows the last dot of the last component. A component whose only dot comes first has no
extension. -/
def extension? (path : String) : Option String := do
  let name ← (components path.toList).getLast?
  if name = ['.', '.'] then none
  let back := name.reverse
  let ext := back.takeWhile (· ≠ '.')
  match back.dropWhile (· ≠ '.') with
  | [] | [_] => none
  | _ => return String.ofList ext.reverse

end VisualRules.FileName
