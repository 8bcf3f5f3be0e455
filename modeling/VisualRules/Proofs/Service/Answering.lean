import VisualRules.Service.Route

/-!
# Posted forms

A form that is posted to the route for rules is answered by what comes of it; the
route only adds headers.
-/

namespace VisualRules

/-- A request that posts a form to the route for rules. -/
structure Request.PostsForm (r : Request) (boundary : String) : Prop where
  method : r.method = .post
  path : r.path = "/api/generate-rule"
  boundary : ((r.header? "content-type").bind MediaType.ofText?).bind MediaType.formBoundary? =
    some boundary

namespace Service

variable {s : Service} {g : Generator} {form : Form} {r : Request} {boundary : String}

theorem answer_of_postsForm (h : r.PostsForm boundary) :
    s.answer g r =
      { s.generateRule g (s.form boundary r.body) with
        response :=
          (s.generateRule g (s.form boundary r.body)).response.withHeaders (s.originHeader r) } := by
  have hroute : Route.ofPath? r.path = some .generateRule := by rw [h.path]; rfl
  have hdispatch : s.dispatch g r = s.generateRule g (s.form boundary r.body) := by
    simp [dispatch, hroute, h.method, Route.takes, Route.isRead, handle, h.boundary]
  rw [answer, hdispatch]

/-- What is taken in of a form. -/
def taken (s : Service) (form : Form) : Except RequestFailure Unit × Intake :=
  Intake.receive form { store := s.uploads }

theorem generateRule_of_ready (h : g.ready = .ok ()) :
    s.generateRule g form =
      let taken := s.taken form
      let generation := Generation.ofExcept taken.1 >>= fun _ => generate g taken.2
      { response := generated generation.result
        service :=
          { s with
            uploads :=
              if s.settings.uploads.retains then taken.2.store
              else taken.2.store.removeAll taken.2.uploads
            counters :=
              (s.count (.requests .generateRule)).counters.addAll generation.counted }
        asked := generation.asked } := by
  simp only [generateRule, h]
  rfl

theorem generateRule_of_not_ready {f : Failure} (h : g.ready = .error f) :
    s.generateRule g form =
      (s.count (.requests .generateRule)).answered (RequestFailure.failed f).response := by
  simp only [generateRule, h]

end Service

end VisualRules
