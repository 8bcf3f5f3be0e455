import VisualRules.Endpoint
import VisualRules.Proofs.Url.Address
import VisualRules.Proofs.Url.Parsing

/-!
# Accepted endpoints

An endpoint is accepted exactly if it is a URL with an acceptable scheme and a host that
is not blocked. Acceptable schemes are special, so the host was read as a name or as an
address and is no text in between.
-/

namespace VisualRules.Endpoint

open Url (Host Ipv4 NameForm)

variable {raw : String} {policy : EndpointPolicy} {form : NameForm} {u : Url}

theorem check_eq_ok_iff : check raw policy form = .ok u ↔
    Url.parse raw form = .ok u ∧ acceptsScheme policy u.scheme = true ∧
      ∃ host, host? u = some host ∧ isBlocked policy host = false := by
  cases hparse : Url.parse raw form with
  | error fault => simp [check, hparse, Except.mapError, bind, Except.bind]
  | ok v =>
    -- The one URL that can be accepted is the one that was read.
    rw [check, hparse]
    constructor
    · intro h
      simp only [Except.mapError, bind, Except.bind] at h
      split at h
      · cases h
      · rename_i hscheme
        split at h
        · cases h
        · rename_i host hhost
          split at h
          · cases h
          · rename_i hblocked
            cases h
            exact ⟨rfl, by simpa using hscheme, host, hhost, by simpa using hblocked⟩
    · rintro ⟨hu, hscheme, host, hhost, hblocked⟩
      obtain rfl := Except.ok.inj hu
      simp [Except.mapError, bind, Except.bind, hscheme, hhost, hblocked, pure, Except.pure]

theorem schemeKind_of_accepts {scheme : String} (h : acceptsScheme policy scheme = true) :
    Url.schemeKind scheme = .special := by
  simp only [acceptsScheme, Bool.or_eq_true, Bool.and_eq_true, beq_iff_eq] at h
  rcases h with rfl | ⟨rfl, -⟩ <;> decide

/-- The host of an accepted endpoint was read as the host of a special URL. -/
theorem exists_special_of_check (h : check raw policy form = .ok u) :
    ∃ cs host, Host.special cs form = .ok host ∧ host? u = some host ∧
      isBlocked policy host = false := by
  obtain ⟨hparse, hscheme, host, hhost, hblocked⟩ := check_eq_ok_iff.1 h
  obtain ⟨rest, a, tail, -, ha, hu⟩ := Url.exists_of_parse hparse (schemeKind_of_accepts hscheme)
  obtain ⟨cs, host', hspecial, ha'⟩ :=
    Url.exists_special_of_readAuthority (schemeKind_of_accepts hscheme) ha
  have hsame : host? u = some host' := by
    rw [hu]
    exact ha'
  obtain rfl : host = host' := by
    rw [hsame] at hhost
    exact (Option.some_inj.1 hhost).symm
  exact ⟨cs, host, hspecial, hhost, hblocked⟩

end VisualRules.Endpoint
