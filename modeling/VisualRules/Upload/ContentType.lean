import VisualRules.Model.Media
import VisualRules.Upload.Name

/-!
# Content types of uploads

A file has the type that its client declares, unless that says nothing; then the type is guessed
from the extension of its name.
-/

namespace VisualRules.ContentType

/-- The type of which nothing is known but that it is a file. -/
def fallback : String := "application/octet-stream"

/-- Content types by extension in lower case. -/
def byExtension : List (String × String) :=
  [ ("png", "image/png"), ("jpg", "image/jpeg"), ("jpeg", "image/jpeg"), ("gif", "image/gif"),
    ("webp", "image/webp"), ("bmp", "image/bmp"), ("svg", "image/svg+xml"), ("tif", "image/tiff"),
    ("tiff", "image/tiff"), ("ico", "image/x-icon"), ("heic", "image/heic"),
    ("avif", "image/avif"),
    ("mp4", "video/mp4"), ("m4v", "video/x-m4v"), ("mov", "video/quicktime"),
    ("avi", "video/x-msvideo"), ("webm", "video/webm"), ("mkv", "video/x-matroska"),
    ("mpg", "video/mpeg"), ("mpeg", "video/mpeg"), ("ts", "video/vnd.dlna.mpeg-tts"),
    ("flv", "video/x-flv"), ("wmv", "video/x-ms-wmv"), ("3gp", "video/3gpp"),
    ("ogv", "video/ogg"),
    ("mp3", "audio/mpeg"), ("wav", "audio/wav"),
    ("txt", "text/plain"), ("csv", "text/csv"), ("html", "text/html"), ("xml", "text/xml"),
    ("rs", "text/x-rust"), ("yaml", "text/x-yaml"),
    ("pdf", "application/pdf"), ("json", "application/json"), ("zip", "application/zip"),
    ("gz", "application/gzip"), ("bin", fallback), ("exe", fallback) ]

/-- The type that the name of a file suggests. -/
def guess (fileName : String) : String :=
  let known := (FileName.extension? fileName).bind fun e => byExtension.lookup (Text.lowerAscii e)
  known.getD fallback

/-- Whether a declared type says something. -/
def isTelling (contentType : String) : Bool :=
  !contentType.isEmpty && !Text.sameAscii contentType fallback

/-- The type of a file: what is declared without white space around it, or a guess. -/
def resolve (fileName : String) (declared : Option String) : String :=
  ((declared.map Text.trim).filter isTelling).getD (guess fileName)

end VisualRules.ContentType
