import VisualRules.Json.Value
import VisualRules.Model.Media

/-!
# Prompts

The single message to the model: instructions that hold the name and the intent of the wanted rule,
then the media in the order in which they came. A prompt depends on nothing but its inputs.
-/

namespace VisualRules

open Json (Value)

/-- The name of a wanted rule, and what it is to watch for. -/
structure RuleRequest where
  name : String
  intent : String
deriving DecidableEq, Repr, Inhabited

/-- A request; white space around both texts is dropped. -/
def RuleRequest.trimmed (name intent : String) : RuleRequest :=
  ⟨Text.trim name, Text.trim intent⟩

/-- A prompt: the instructions and the media. -/
structure Prompt where
  instructions : String
  media : List MediaReference
deriving DecidableEq, Repr, Inhabited

namespace Prompt

/-- The fixed part of the instructions. -/
def guidance : String :=
  "Important: temporal_threshold_seconds works as follows. If the monitoring intent states a " ++
    "duration explicitly, set temporal_threshold_seconds to -1 and put the duration into the " ++
    "content node labels; otherwise give a recommended threshold in seconds (> 0).\n\n" ++
  "Each content node describes one atomic, observable violation state. Its subject or object " ++
    "should appear in target_objects. Logic nodes combine content nodes with AND or OR, carry " ++
    "an empty label, and point to each operand with one edge (source = logic node, target = " ++
    "operand).\n\n" ++
  "Example: detect whether a worker is playing with a phone or is not wearing a yellow helmet\n" ++
  "\x7b\n" ++
  "  \"visual_detection\": \x7b\n" ++
  "    \"target_objects\": [\"worker\", \"phone\", \"yellow helmet\"]\n" ++
  "  \x7d,\n" ++
  "  \"trigger_logic\": \x7b\n" ++
  "    \"nodes\": [\n" ++
  "      \x7b\"id\": \"0\", \"type\": \"logic\", \"data\": \x7b\"logicType\": \"OR\", " ++
    "\"label\": \"\"\x7d\x7d,\n" ++
  "      \x7b\"id\": \"1\", \"type\": \"content\", \"data\": \x7b\"logicType\": \"\", " ++
    "\"label\": \"worker is playing with a phone\"\x7d\x7d,\n" ++
  "      \x7b\"id\": \"2\", \"type\": \"content\", \"data\": \x7b\"logicType\": \"\", " ++
    "\"label\": \"worker is not wearing a yellow helmet\"\x7d\x7d\n" ++
  "    ],\n" ++
  "    \"edges\": [\n" ++
  "      \x7b\"id\": \"0\", \"source\": \"0\", \"target\": \"1\"\x7d,\n" ++
  "      \x7b\"id\": \"1\", \"source\": \"0\", \"target\": \"2\"\x7d\n" ++
  "    ],\n" ++
  "    \"temporal_threshold_seconds\": 5\n" ++
  "  \x7d,\n" ++
  "  \"alert_message\": \"A worker is using a phone or is not wearing a yellow helmet. Remind " ++
    "the worker of site safety rules.\"\n" ++
  "\x7d\n\n" ++
  "If the intent does not need to be split, a single content node is enough, with no logic node " ++
    "and no edges. Example: detect whether a worker is playing with a phone\n" ++
  "\x7b\n" ++
  "  \"trigger_logic\": \x7b\n" ++
  "    \"nodes\": [\n" ++
  "      \x7b\"id\": \"0\", \"type\": \"content\", \"data\": \x7b\"logicType\": \"\", " ++
    "\"label\": \"worker is playing with a phone\"\x7d\x7d\n" ++
  "    ],\n" ++
  "    \"edges\": [],\n" ++
  "    ...\n" ++
  "  \x7d,\n" ++
  "  ...\n" ++
  "\x7d"

/-- What the instructions say about the media. -/
def mediaNote (count : Nat) : String :=
  if count = 0 then "none provided"
  else "images and video frames are attached to this message"

/-- The instructions for a request with a number of media. -/
def instructionsFor (request : RuleRequest) (mediaCount : Nat) : String :=
  "You are an expert in configuring visual rule engines. Analyse the monitoring intent and " ++
    "visual references below and produce the structured JSON rule strictly following the " ++
    "provided schema.\n\n" ++
  "1. Rule name: " ++ request.name ++ "\n" ++
  "2. Monitoring intent: " ++ request.intent ++ "\n" ++
  "3. Visual references (optional): " ++ mediaNote mediaCount ++ "\n\n" ++
  guidance ++ "\n"

/-- The prompt for a request and its media. -/
def assemble (request : RuleRequest) (media : List MediaReference) : Prompt :=
  ⟨instructionsFor request media.length, media⟩

/-- The JSON form of a media file in a message. -/
def mediaPart (m : MediaReference) : Value :=
  let tag := m.kind.name ++ "_url"
  .object [("type", .string tag), (tag, .object [("url", .string m.encoded)])]

/-- The JSON form of the instructions in a message. -/
def textPart (instructions : String) : Value :=
  .object [("type", .string "text"), ("text", .string instructions)]

/-- The parts of the message: the instructions, then the media. -/
def parts (p : Prompt) : List Value :=
  textPart p.instructions :: p.media.map mediaPart

end Prompt

end VisualRules
