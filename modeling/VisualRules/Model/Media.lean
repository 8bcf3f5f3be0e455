import VisualRules.Text.Blank

/-!
# Reference media

A file that accompanies a request is an image or a video by the essence of its content type: what
stands in front of the parameters. All other files are unsupported.
-/

namespace VisualRules

/-- The kinds of media that the model takes. -/
inductive MediaKind
  | image
  | video
deriving DecidableEq, Repr, Inhabited

/-- The written name of a kind. -/
def MediaKind.name : MediaKind → String
  | .image => "image"
  | .video => "video"

/-- A media file in the form in which it is sent. -/
structure MediaReference where
  kind : MediaKind
  fileName : String
  encoded : String
deriving DecidableEq, Repr, Inhabited

namespace ContentType

/-- A content type without its parameters and the white space around it. -/
def essence (contentType : String) : String :=
  Text.trim (String.ofList (contentType.toList.takeWhile (· ≠ ';')))

/-- The kind of media with a content type. A type needs a subtype; case does not matter. -/
def mediaKind? (contentType : String) : Option MediaKind :=
  let cs := (essence contentType).toList
  let top := String.ofList (cs.takeWhile (· ≠ '/'))
  match cs.dropWhile (· ≠ '/') with
  | [] | [_] => none
  | _ :: _ :: _ =>
    if Text.sameAscii top "image" then some .image
    else if Text.sameAscii top "video" then some .video
    else none

end ContentType

end VisualRules
