import VisualRules.Service.Basic

/-!
# Routes

Which request is answered how. A path decides first, then the method. Every response says which
pages may use it, and a question for the options of a path is always answered by the same terms.
-/

namespace VisualRules

/-- The known paths. -/
inductive Route
  | health
  | metrics
  | schema
  | generateRule
  | validateRule
deriving DecidableEq, Repr

namespace Route

/-- The route with a path. -/
def ofPath? : String → Option Route
  | "/health" => some .health
  | "/metrics" => some .metrics
  | "/api/rule-schema" => some .schema
  | "/api/generate-rule" => some .generateRule
  | "/api/validate-rule" => some .validateRule
  | _ => none

/-- Whether a route changes nothing, so that it is read and not posted to. -/
def isRead : Route → Bool
  | .health | .metrics | .schema => true
  | .generateRule | .validateRule => false

/-- Whether a route takes a method. -/
def takes (route : Route) (m : Method) : Bool :=
  if route.isRead then m = .get || m = .head else m = .post

/-- The header that names the methods of a route. -/
def allowed (route : Route) : String × String :=
  ("allow", if route.isRead then "GET,HEAD" else "POST")

end Route

namespace Service

/-- The pages that may use a response: all of them, or the one that asks if it is listed. -/
def originHeader (s : Service) (r : Request) : List (String × String) :=
  let origins := s.settings.server.origins
  let allowed :=
    if origins.contains "*" then some "*" else (r.header? "origin").filter (origins.contains ·)
  (allowed.map ("access-control-allow-origin", ·)).toList

/-- The response to a question for the options of a path. -/
def terms (route : Option Route) : Response where
  status := 200
  headers :=
    [("access-control-allow-methods", "*"), ("access-control-allow-headers", "*")] ++
      (route.map Route.allowed).toList

/-- The response to a form whose boundary is not known. -/
def noBoundary : Response :=
  .plain 400 "Invalid `boundary` for `multipart/form-data` request"

/-- The counters as text. -/
def metricsText (s : Service) : String :=
  String.join (s.counters.lines.map (· ++ "\n"))

/-- Answers a request with a method that its route takes. -/
def handle (s : Service) (g : Generator) (r : Request) : Route → Handled
  | .health => s.answered (.plain 200 "OK")
  | .metrics => s.answered (.plain 200 s.metricsText)
  | .schema => s.answered (.json 200 RuleSchema.document.toValue)
  | .validateRule => s.validateRule r
  | .generateRule =>
    let mediaType := (r.header? "content-type").bind MediaType.ofText?
    match mediaType.bind MediaType.formBoundary? with
    | none => s.answered noBoundary
    | some boundary => s.generateRule g (s.form boundary r.body)

/-- Answers a request by its path and method. -/
def dispatch (s : Service) (g : Generator) (r : Request) : Handled :=
  let route := Route.ofPath? r.path
  if r.method = .options then s.answered (terms route)
  else
    match route with
    | none => s.answered (.plain 404 "Not found")
    | some route =>
      if !route.takes r.method then
        s.answered { status := 405, headers := [route.allowed] }
      else
        let h := s.handle g r route
        if r.method = .head then { h with response := h.response.withoutBody } else h

/-- Answers a request. -/
def answer (s : Service) (g : Generator) (r : Request) : Handled :=
  let h := s.dispatch g r
  { h with response := h.response.withHeaders (s.originHeader r) }

end Service

end VisualRules
