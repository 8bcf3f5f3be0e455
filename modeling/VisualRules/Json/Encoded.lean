import VisualRules.Bytes.Utf8

/-!
# JSON in bytes

A JSON text that comes as bytes need not be text all through. Bytes that are none do no harm in a
string that is passed over, and are a fault everywhere else.
-/

namespace VisualRules.Json

/-- What stands for bytes that are no text: half of a pair. A string that is passed over may hold
it, one that is read may not, and outside of strings it is no mark. The letter in front keeps it
from becoming part of an escape that has begun. -/
def undecodable : List Char :=
  ['x', '\\', 'u', 'd', 'c', '0', '0']

/-- The characters of a JSON text in bytes. -/
def encodedChars (bs : Bytes) : List Char :=
  (Bytes.decode none bs).flatMap fun
    | some c => [c]
    | none => undecodable

end VisualRules.Json
