import VisualRules.Decimal.Basic
import VisualRules.Text.Quoted

/-!
# Why a JSON text was refused

A text is read from left to right by the type that is wanted, and the first problem ends the
reading. A fault is either one of layout, which no wanted type could have avoided, or one of
content. A refusal adds the place of the value at fault.
-/

namespace VisualRules.Json

/-- JSON numbers in messages are positional below 10^16 and down to 10^-5. -/
def numberStyle : Decimal.Style := ⟨-5, 15, 2⟩

/-- What stood where a value of another type was wanted. -/
inductive Found
  | null
  | boolean (b : Bool)
  | integer (n : Int)
  | decimal (d : Decimal)
  | string (s : String)
  | sequence
  | map
deriving DecidableEq, Repr

/-- The first problem in a text. -/
inductive Fault
  | endOfValue
  | endOfString
  | endOfList
  | endOfObject
  | colonExpected
  | listEndExpected
  | objectEndExpected
  | wordExpected
  | valueExpected
  | keyExpected
  | badNumber
  | numberOutOfRange
  | badEscape
  | endOfEscape
  | loneSurrogate
  | controlCharacter
  | trailingComma
  | trailingCharacters
  | wrongType (found : Found) (wanted : String)
  | wrongInteger (n : Int) (wanted : String)
  | wrongLength (length : Nat) (record : String) (size : Nat)
  | unknownVariant (name : String) (known : List String)
  | missingField (name : String)
  | repeatedField (name : String)
deriving DecidableEq, Repr

/-- Faults of layout show that the text is not JSON of the wanted shape at all; the others concern
the content of a value. -/
def Fault.isLayout : Fault → Bool
  | .wrongType .. | .wrongInteger .. | .wrongLength .. | .unknownVariant .. | .missingField _
  | .repeatedField _ => false
  | _ => true

/-- One step on the way from the document to a value in it. -/
inductive Step
  | key (name : String)
  | index (i : Nat)
  | variant (name : String)
deriving DecidableEq, Repr

/-- A fault and the way to the value at fault, outermost step first. -/
structure Refusal where
  fault : Fault
  place : List Step := []
deriving DecidableEq, Repr

/-! ## Wording -/

/-- A name between back quotes. -/
def ticked (s : String) : String :=
  "`" ++ s ++ "`"

/-- What was found, in words. -/
def Found.describe : Found → String
  | .null => "null"
  | .boolean b => "boolean " ++ ticked (if b then "true" else "false")
  | .integer n => "integer " ++ ticked (toString n)
  | .decimal d => "floating point " ++ ticked (d.text numberStyle)
  | .string s => "string " ++ Text.quoted s
  | .sequence => "sequence"
  | .map => "map"

/-- The names that would have been known. -/
def alternatives : List String → String
  | [] => "there are no variants"
  | [a] => "expected " ++ ticked a
  | [a, b] => "expected " ++ ticked a ++ " or " ++ ticked b
  | names => "expected one of " ++ ", ".intercalate (names.map ticked)

/-- The text of a fault. -/
def Fault.message : Fault → String
  | .endOfValue => "EOF while parsing a value"
  | .endOfString => "EOF while parsing a string"
  | .endOfList => "EOF while parsing a list"
  | .endOfObject => "EOF while parsing an object"
  | .colonExpected => "expected " ++ ticked ":"
  | .listEndExpected => "expected " ++ ticked "," ++ " or " ++ ticked "]"
  | .objectEndExpected => "expected " ++ ticked "," ++ " or " ++ ticked "\x7d"
  | .wordExpected => "expected ident"
  | .valueExpected => "expected value"
  | .keyExpected => "key must be a string"
  | .badNumber => "invalid number"
  | .numberOutOfRange => "number out of range"
  | .badEscape => "invalid escape"
  | .endOfEscape => "unexpected end of hex escape"
  | .loneSurrogate => "lone leading surrogate in hex escape"
  | .controlCharacter => "control character (\\u0000-\\u001F) found while parsing a string"
  | .trailingComma => "trailing comma"
  | .trailingCharacters => "trailing characters"
  | .wrongType found wanted => "invalid type: " ++ found.describe ++ ", expected " ++ wanted
  | .wrongInteger n wanted =>
    "invalid value: integer " ++ ticked (toString n) ++ ", expected " ++ wanted
  | .wrongLength length record size =>
    "invalid length " ++ toString length ++ ", expected struct " ++ record ++ " with " ++
      toString size ++ (if size = 1 then " element" else " elements")
  | .unknownVariant name known => "unknown variant " ++ ticked name ++ ", " ++ alternatives known
  | .missingField name => "missing field " ++ ticked name
  | .repeatedField name => "duplicate field " ++ ticked name

/-- The text of a refusal that leaves the place out. -/
def Refusal.message (r : Refusal) : String :=
  r.fault.message

/-- The way to a value: names joined by points, indices in brackets. -/
def placeText : List Step → String
  | [] => ""
  | step :: rest =>
    (match step with
      | .key name | .variant name => name
      | .index i => "[" ++ toString i ++ "]") ++
    rest.foldl (fun out s =>
      out ++ match s with
        | .key name | .variant name => "." ++ name
        | .index i => "[" ++ toString i ++ "]") ""

/-- The text of a refusal with its place in front; the document itself has no place. -/
def Refusal.placedMessage (r : Refusal) : String :=
  if r.place.isEmpty then r.message else placeText r.place ++ ": " ++ r.message

end VisualRules.Json
