import VisualRules.Model.Client
import VisualRules.Proofs.Endpoint.Checking

/-!
# The endpoint that is contacted

The base URL is checked as a URL, but requests go to an address that is put together
from its text. Both have the same scheme and the same authority, so that what was
checked is what is contacted, unless blanks stand right behind the host or the port of
the base URL: they do not count at its end, but within the longer address they leave no
URL at all.
-/

namespace VisualRules

open Url (Blanks Ends NameForm Unended clean isEdge isSlash scheme? schemeKind trailingBlanks)

variable {raw : String} {policy : EndpointPolicy} {form : NameForm}

/-- Blanks at the end of a URL, right behind its authority. -/
def BlankBehindAuthority (raw : String) : Prop :=
  trailingBlanks raw.toList ≠ [] ∧ ∃ scheme rest,
    scheme? (clean raw.toList) = some (scheme, rest) ∧
      Unended .special (rest.dropWhile (isSlash .special))

/-! ## Texts with one beginning -/

/-- The texts with and without what is cut off at the end. -/
theorem exists_clean_eq {slashes behind : List Char} (front : List Char)
    (hslashes : ∀ c ∈ slashes, c = '/') (hedge : ∀ c ∈ behind, isEdge c = false)
    (hne : behind ≠ []) :
    ∃ core, clean (front ++ slashes) = core ++ slashes ∧
      clean (front ++ behind) =
        core ++ (trailingBlanks (front ++ slashes) ++ behind) ∧
      (slashes = [] ∨ trailingBlanks (front ++ slashes) = []) := by
  by_cases hnil : slashes = []
  · subst hnil
    refine ⟨clean front, by simp, ?_, .inl rfl⟩
    rw [Url.clean_append hedge hne, List.append_nil, List.append_assoc]
  · have hslash : ∀ c ∈ slashes, isEdge c = false := fun c hc => by
      rw [hslashes c hc]
      decide
    have hblanks := Url.trailingBlanks_append hslash hnil front
    refine ⟨clean front ++ trailingBlanks front, Url.clean_append hslash hnil front, ?_,
      .inr hblanks⟩
    rw [hblanks, List.nil_append, Url.clean_append hedge hne]

/-- An authority is not all slashes, so what follows its slashes starts in front of what is put
behind the text. -/
theorem dropWhile_isSlash_append {scheme : String} {a : Url.Authority}
    {rest slashes tail : List Char} (hkind : schemeKind scheme = .special)
    (hslashes : ∀ c ∈ slashes, c = '/')
    (ha : Url.readAuthority scheme ((rest ++ slashes).dropWhile (isSlash .special)) form =
      .ok (a, tail)) (behind : List Char) :
    (rest ++ behind).dropWhile (isSlash .special) =
      rest.dropWhile (isSlash .special) ++ behind := by
  have hstart : rest.dropWhile (isSlash .special) ≠ [] := by
    intro hnil
    have hslash : slashes.dropWhile (isSlash .special) = [] :=
      List.dropWhile_eq_nil_iff.2 fun c hc => by simp [isSlash, hslashes c hc]
    rw [List.dropWhile_append, hnil, hslash] at ha
    rw [Url.readAuthority_special hkind rfl rfl] at ha
    cases ha
  rw [List.dropWhile_append, if_neg (by simpa using hstart)]

theorem blankBehindAuthority_iff {scheme : String} {rest : List Char}
    (hscheme : scheme? (clean raw.toList) = some (scheme, rest)) :
    BlankBehindAuthority raw ↔ trailingBlanks raw.toList ≠ [] ∧
      Unended .special (rest.dropWhile (isSlash .special)) := by
  constructor
  · rintro ⟨hblanks, scheme', rest', hscheme', hunended⟩
    rw [hscheme] at hscheme'
    cases hscheme'
    exact ⟨hblanks, hunended⟩
  · rintro ⟨hblanks, hunended⟩
    exact ⟨hblanks, scheme, rest, hscheme, hunended⟩

/-- With something else in the place of the slashes at its end, a special URL is read from the
same start of its authority; the blanks at its end then stand behind that start. -/
theorem exists_authority_start {front slashes behind : List Char} {u : Url}
    (hslashes : ∀ c ∈ slashes, c = '/') (hedge : ∀ c ∈ behind, isEdge c = false)
    (hne : behind ≠ []) (hparse : Url.parse (String.ofList (front ++ slashes)) form = .ok u)
    (hkind : schemeKind u.scheme = .special) :
    ∃ start blanks a tail, Blanks blanks ∧ (slashes = [] ∨ blanks = []) ∧
      (BlankBehindAuthority (String.ofList (front ++ slashes)) ↔
        blanks ≠ [] ∧ Unended .special (start ++ slashes)) ∧
      Url.readAuthority u.scheme (start ++ slashes) form = .ok (a, tail) ∧ u.authority = some a ∧
      Url.parse (String.ofList (front ++ behind)) form =
        (Url.readAuthority u.scheme (start ++ (blanks ++ behind)) form).map fun p =>
          Url.behindAuthority u.scheme p.1 p.2 := by
  obtain ⟨core, hclean, hclean', hgap⟩ := exists_clean_eq front hslashes hedge hne
  obtain ⟨rest, a, tail, hscheme, ha, hu⟩ := Url.exists_of_parse hparse hkind
  have hblank := blankBehindAuthority_iff hscheme
  rw [String.toList_ofList] at hscheme hblank
  -- The colon of the scheme is none of the slashes, so the scheme stands in the common part.
  have hcolon : ':' ∉ slashes := fun hmem => absurd (hslashes _ hmem) (by decide)
  rw [hclean] at hscheme
  obtain ⟨rest, hcore, rfl⟩ := Url.exists_scheme?_of_append hcolon hscheme
  have hscheme' : scheme? (clean (String.ofList (front ++ behind)).toList) =
      some (u.scheme, rest ++ (trailingBlanks (front ++ slashes) ++ behind)) := by
    rw [String.toList_ofList, hclean']
    exact Url.scheme?_append hcore _
  have hdrop := dropWhile_isSlash_append hkind hslashes ha
  rw [hdrop] at ha hblank
  refine ⟨_, _, a, tail, Url.trailingBlanks_blanks _, hgap, hblank, ha, congrArg Url.authority hu,
    ?_⟩
  rw [Url.parse_special hscheme' hkind, hdrop]

/-- With a path in the place of the slashes at the end of a special URL, scheme and authority stay
as they are, unless blanks stand right in front of the path. -/
theorem parse_replaced {front slashes path : List Char} {u : Url}
    (hslashes : ∀ c ∈ slashes, c = '/') (hhead : path.head? = some '/')
    (hedge : ∀ c ∈ path, isEdge c = false)
    (hparse : Url.parse (String.ofList (front ++ slashes)) form = .ok u)
    (hkind : schemeKind u.scheme = .special) :
    (¬ BlankBehindAuthority (String.ofList (front ++ slashes)) →
      ∃ v, Url.parse (String.ofList (front ++ path)) form = .ok v ∧ v.scheme = u.scheme ∧
        v.authority = u.authority) ∧
    (BlankBehindAuthority (String.ofList (front ++ slashes)) →
      ∃ fault, Url.parse (String.ofList (front ++ path)) form = .error fault) := by
  have hne : path ≠ [] := by
    rintro rfl
    cases hhead
  obtain ⟨start, blanks, a, tail, hblanks, hgap, hblank, ha, hu, hposted⟩ :=
    exists_authority_start hslashes hedge hne hparse hkind
  have hends : Ends .special slashes := fun c hc => by
    rw [hslashes c (List.mem_of_mem_head? hc)]
    decide
  have hends' : Ends .special path := fun c hc => by
    rw [hhead] at hc
    cases hc
    decide
  constructor
  · intro hfree
    -- Either there are no blanks, or the authority ends in front of them.
    have hbehind : ¬ Unended .special start ∨ Ends .special (blanks ++ path) := by
      by_cases hnil : blanks = []
      · exact .inr (by rw [hnil]; exact hends')
      · refine .inl fun hunended => hfree (hblank.2 ⟨hnil, ?_⟩)
        rw [hgap.resolve_right hnil, List.append_nil]
        exact hunended
    obtain ⟨tail', ha'⟩ := Url.exists_readAuthority_append hkind (.inr hends) hbehind ha
    rw [hposted, ha']
    exact ⟨_, rfl, rfl, hu.symm⟩
  · intro hbad
    obtain ⟨hnil, hunended⟩ := hblank.1 hbad
    rw [hgap.resolve_right hnil, List.append_nil] at hunended
    obtain ⟨fault, hfault⟩ : ∃ fault,
        Url.readAuthority u.scheme (start ++ (blanks ++ path)) form = .error fault :=
      Url.readAuthority_blanks hkind hunended hnil hblanks hends'
    exact ⟨fault, by rw [hposted, hfault]; rfl⟩

/-! ## The address of requests -/

/-- The address is the base URL with its path in the place of the slashes at the end. -/
theorem ModelSettings.exists_completionsUrl_eq (m : ModelSettings) :
    ∃ front slashes, (∀ c ∈ slashes, c = '/') ∧ m.baseUrl = String.ofList (front ++ slashes) ∧
      m.completionsUrl = String.ofList (front ++ "/chat/completions".toList) := by
  refine ⟨m.baseUrl.toList.rdropWhile (· = '/'), m.baseUrl.toList.rtakeWhile (· = '/'),
    fun c hc => by simpa using List.mem_rtakeWhile_imp hc, ?_, ?_⟩
  · rw [List.rdropWhile_append_rtakeWhile, String.ofList_toList]
  · rw [← String.toList_inj]
    simp [completionsUrl, List.rdropWhile]

theorem Settings.check_eq_ok_iff {s : Settings} : s.check form = .ok () ↔
    (∃ u, Endpoint.check s.model.baseUrl s.model.policy form = .ok u) ∧
      s.model.timeoutSeconds ≠ 0 ∧ Text.isBlank s.model.model = false := by
  unfold Settings.check
  cases Endpoint.check s.model.baseUrl s.model.policy form with
  | error fault => simp [bind, Except.bind, throw, throwThe, MonadExceptOf.throw]
  | ok u =>
    by_cases htime : s.model.timeoutSeconds = 0 <;>
      cases Text.isBlank s.model.model <;>
        simp [htime, bind, Except.bind, pure, Except.pure, throw, throwThe, MonadExceptOf.throw]

/-- Whether an endpoint is accepted depends on its scheme and its authority only. -/
theorem Endpoint.check_of_authority {posted : String} {u v : Url}
    (h : check raw policy form = .ok u) (hposted : Url.parse posted form = .ok v)
    (hscheme : v.scheme = u.scheme) (hauthority : v.authority = u.authority) :
    check posted policy form = .ok v := by
  obtain ⟨-, haccepts, host, hhost, hfree⟩ := check_eq_ok_iff.1 h
  refine check_eq_ok_iff.2 ⟨hposted, by rw [hscheme]; exact haccepts, host, ?_, hfree⟩
  rw [host?, hauthority]
  exact hhost

/-- Requests with accepted settings go to the scheme, the host and the port that were
checked, and where they go is accepted as well, unless blanks stand right behind the authority of
the base URL; then they go nowhere. -/
theorem Settings.posts_to_checked_endpoint {s : Settings} {o : Overrides}
    (h : (s.override o).check form = .ok ()) (key : String) (prompt : Prompt) :
    let m := (s.override o).model
    let posted := ((ModelClient.ofSettings m).request key prompt).url
    ∃ u, Endpoint.check m.baseUrl m.policy form = .ok u ∧
      (¬ BlankBehindAuthority m.baseUrl →
        ∃ v, Url.parse posted form = .ok v ∧ v.scheme = u.scheme ∧ v.authority = u.authority ∧
          Endpoint.check posted m.policy form = .ok v) ∧
      (BlankBehindAuthority m.baseUrl → ∃ fault, Url.parse posted form = .error fault) := by
  intro m posted
  obtain ⟨⟨u, hu⟩, -⟩ := Settings.check_eq_ok_iff.1 h
  obtain ⟨hparse, haccepts, -⟩ := Endpoint.check_eq_ok_iff.1 hu
  obtain ⟨front, slashes, hslashes, hbase, hposted⟩ := m.exists_completionsUrl_eq
  have hpath : ∀ c ∈ "/chat/completions".toList, isEdge c = false := by simp [isEdge]
  have hreplaced := parse_replaced hslashes rfl hpath (hbase ▸ hparse)
    (Endpoint.schemeKind_of_accepts haccepts)
  rw [← hbase, ← hposted] at hreplaced
  refine ⟨u, hu, fun hfree => ?_, hreplaced.2⟩
  obtain ⟨v, hv, hscheme, hauthority⟩ := hreplaced.1 hfree
  exact ⟨v, hv, hscheme, hauthority, Endpoint.check_of_authority hu hv hscheme hauthority⟩

theorem Settings.posts_to_local_endpoint :
    let s : Settings := { model := { allowsLocal := true } }
    let o : Overrides := { baseUrl := some "\nhttp:\\\\me@LocalHost:11434///" }
    let posted := (s.override o).model.completionsUrl
    (s.override o).check = .ok () ∧ ¬ BlankBehindAuthority (s.override o).model.baseUrl ∧
      ∃ v, Url.parse posted = .ok v ∧ Endpoint.check posted .forLocal = .ok v ∧
        v.authority = some ⟨"me", "", some (.domain "localhost"), some 11434⟩ := by
  intro s o posted
  have hparse : Url.parse "\nhttp:\\\\me@LocalHost:11434///" = .ok
      ⟨"http", some ⟨"me", "", some (.domain "localhost"), some 11434⟩, "///", none, none⟩ := rfl
  have haccepted := Endpoint.check_eq_ok_iff.2
    ⟨hparse, (by decide : Endpoint.acceptsScheme .forLocal "http" = true), _, rfl, by decide⟩
  have hcheck : (s.override o).check = .ok () :=
    Settings.check_eq_ok_iff.2 ⟨⟨_, haccepted⟩, by decide, by decide⟩
  have hfree : ¬ BlankBehindAuthority (s.override o).model.baseUrl :=
    fun hblank => hblank.1 (by decide)
  obtain ⟨u, hu, hgood, -⟩ := Settings.posts_to_checked_endpoint hcheck "key" default
  obtain ⟨v, hv, -, hauthority, hposted⟩ := hgood hfree
  obtain rfl := Except.ok.inj (haccepted.symm.trans hu)
  exact ⟨hcheck, hfree, v, hv, hposted, hauthority⟩

/-- A blank behind the host passes the check, and no request can be sent. -/
theorem Settings.posts_nowhere :
    let s : Settings := { model := { baseUrl := "https://example.com " } }
    (s.override {}).check = .ok () ∧
      Url.parse (s.override {}).model.completionsUrl = .error .badDomain := by
  intro s
  have hparse : Url.parse "https://example.com " = .ok
      ⟨"https", some ⟨"", "", some (.domain "example.com"), none⟩, "/", none, none⟩ := rfl
  have haccepted := Endpoint.check_eq_ok_iff.2
    ⟨hparse, (by decide : Endpoint.acceptsScheme {} "https" = true), _, rfl, by decide⟩
  have hposted : (s.override {}).model.completionsUrl =
      "https://example.com /chat/completions" := by decide
  refine ⟨Settings.check_eq_ok_iff.2 ⟨⟨_, haccepted⟩, by decide, by decide⟩, ?_⟩
  rw [hposted]
  rfl

end VisualRules
