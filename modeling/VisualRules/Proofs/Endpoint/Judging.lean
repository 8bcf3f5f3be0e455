import VisualRules.Proofs.Endpoint.Blocking
import VisualRules.Proofs.Endpoint.Network
import VisualRules.Proofs.Url.HostText

/-!
# Endpoints at addresses

An endpoint whose host is an address is judged by the address alone: by its networks and
by the scheme. How the address is spelled does not matter, and the names of metadata
services have no part in it, since only an address of one link is written like one.
Leave that is given in addition never turns an endpoint down.
-/

namespace VisualRules.Endpoint

open Url (Host Ipv4 Ipv6 NameForm HostText Around)

variable {raw raw' : String} {policy : EndpointPolicy} {form : NameForm} {u : Url} {host : Host}
variable {a : Address}

/-! ## The address behind a host -/

/-- The address that is meant by a host. One of version 6 in the mapped network means one
of version 4. -/
inductive StandsFor : Host → Address → Prop
  | v4 (x : Ipv4) : StandsFor (.ipv4 x) (.v4 x)
  | mapped (x : Ipv4) : StandsFor (.ipv6 (.ofMapped x)) (.v4 x)
  | v6 {x : Ipv6} (h : ¬ mappedNetwork.Holds (.v6 x)) : StandsFor (.ipv6 x) (.v6 x)

theorem standsFor_iff : StandsFor host a ↔ address? host = some a := by
  constructor
  · intro h
    cases h with
    | v4 x => rfl
    | mapped x => simp [address?]
    | v6 h => simp [address?, mapped?_eq_none_iff.2 h]
  · intro h
    cases host with
    | domain name => cases h
    | ipv4 x =>
      cases h
      exact .v4 x
    | ipv6 x =>
      cases hmapped : x.mapped? with
      | none =>
        rw [address?, hmapped] at h
        cases h
        exact .v6 (mapped?_eq_none_iff.1 hmapped)
      | some y =>
        rw [address?, hmapped] at h
        cases h
        rw [mapped?_eq_some_iff.1 hmapped]
        exact .mapped y

/-- Every host but a name stands for one address. -/
theorem exists_standsFor (h : ∀ name, host ≠ .domain name) :
    ∃ a, ∀ b, StandsFor host b ↔ b = a := by
  obtain ⟨a, ha⟩ : ∃ a, address? host = some a := by
    cases host with
    | domain name => exact absurd rfl (h name)
    | ipv4 x => exact ⟨_, rfl⟩
    | ipv6 x => cases hmapped : x.mapped? <;> simp [address?, hmapped]
  refine ⟨a, fun b => ?_⟩
  rw [standsFor_iff, ha, Option.some_inj, eq_comm]

/-! ## Addresses and the names of metadata services -/

theorem getLast?_of_atOrBelow {top : String} {cs : List Char} (hne : top.toList ≠ [])
    (h : AtOrBelow top cs) : cs.getLast? = top.toList.getLast? := by
  rcases h with rfl | ⟨front, rfl⟩
  · rfl
  · rw [List.getLast?_append_of_ne_nil _ (by simp), List.getLast?_cons,
      List.getLast?_eq_some_getLast hne]
    rfl

theorem count_text (x : Ipv4) : x.text.toList.count '.' = 3 := by
  have hoctet : ∀ b : UInt8, (Ipv4.octetText b).count '.' = 0 := by
    intro b
    rw [List.count_eq_zero]
    intro hmem
    have hdigit := List.all_eq_true.1 (Ipv4.octetText_facts b).2.2 _ hmem
    exact absurd hdigit (by decide)
  simp [Ipv4.toList_text, List.intercalate, hoctet]

theorem text_injective {x y : Ipv4} (h : x.text.toList = y.text.toList) : x = y := by
  have hread := Ipv6.dotted?_text x
  rw [h, Ipv6.dotted?_text y] at hread
  obtain ⟨a, b, c, d⟩ := x
  obtain ⟨a', b', c', d'⟩ := y
  simp only [Option.some.injEq, Prod.mk.injEq] at hread
  have ha := a.toNat_lt
  have hb := b.toNat_lt
  have hc := c.toNat_lt
  have hd := d.toNat_lt
  have ha' := a'.toNat_lt
  have hb' := b'.toNat_lt
  have hc' := c'.toNat_lt
  have hd' := d'.toNat_lt
  simp only [Ipv4.mk.injEq, ← UInt8.toNat_inj]
  omega

theorem lowerAscii_text (x : Ipv4) : Text.lowerAscii x.text = x.text := by
  have hdigits : ∀ n < 256, (Nat.toDigits 10 n).map Char.toLower = Nat.toDigits 10 n := by
    decide +kernel
  have hoctet : ∀ b : UInt8, (Ipv4.octetText b).map Char.toLower = Ipv4.octetText b :=
    fun b => hdigits b.toNat b.toNat_lt
  rw [← String.toList_inj, toList_lowerAscii, Ipv4.toList_text, Ipv4.lower_intercalate]
  simp [hoctet]

/-- Of all addresses only that of the metadata service is written like a name of it. -/
theorem eq_of_isMetadata_text {x : Ipv4} (h : isMetadata (Text.lowerAscii x.text) = true) :
    x = ⟨169, 254, 169, 254⟩ := by
  rw [lowerAscii_text] at h
  obtain ⟨top, htop, hbelow⟩ := isMetadata_iff.1 h
  -- A name ends in a letter, and an address does not.
  have hletter : ∀ c, top.toList.getLast? = some c → c ∈ Ipv4.numberChars := by
    intro c hc
    have hne : top.toList ≠ [] := by
      intro hnil
      rw [hnil] at hc
      cases hc
    rw [← getLast?_of_atOrBelow hne hbelow] at hc
    exact Ipv6.mem_of_text x c (List.mem_of_getLast? hc)
  simp only [metadataHosts, List.mem_cons, List.not_mem_nil, or_false] at htop
  rcases htop with rfl | rfl | rfl
  · exact absurd (hletter 'l' (by decide)) (by decide)
  · exact absurd (hletter 'g' (by decide)) (by decide)
  · rcases hbelow with heq | hsuffix
    · exact text_injective heq
    · have hcount := hsuffix.sublist.count_le '.'
      rw [count_text] at hcount
      exact absurd hcount (by decide)

theorem not_isMetadata_brackets (s : String) :
    isMetadata (Text.lowerAscii ("[" ++ s ++ "]")) = false := by
  rw [Bool.eq_false_iff]
  intro h
  obtain ⟨top, htop, hbelow⟩ := isMetadata_iff.1 h
  have hlast : (Text.lowerAscii ("[" ++ s ++ "]")).toList.getLast? = some ']' := by
    simp [List.getLast?_cons]
  have hends : ∀ top ∈ metadataHosts, top.toList ≠ [] ∧ top.toList.getLast? ≠ some ']' := by decide
  obtain ⟨hne, hbracket⟩ := hends top htop
  rw [getLast?_of_atOrBelow hne hbelow] at hlast
  exact hbracket hlast

/-! ## Permitted addresses -/

/-- What a policy permits of a scheme and an address. -/
structure Permits (policy : EndpointPolicy) (scheme : String) (a : Address) : Prop where
  scheme : scheme = "https" ∨ scheme = "http" ∧ policy.allowHttp = true
  beyond_link : ∀ n ∈ linkNetworks, ¬ n.Holds a
  beyond_local : policy.allowLocal = true ∨ ∀ n ∈ localNetworks, ¬ n.Holds a

theorem acceptsScheme_iff {scheme : String} : acceptsScheme policy scheme = true ↔
    scheme = "https" ∨ scheme = "http" ∧ policy.allowHttp = true := by
  simp [acceptsScheme]

theorem isLinkLocal_iff (a : Address) :
    a.isLinkLocal = true ↔ ∃ n ∈ linkNetworks, n.Holds a := by
  cases a with
  | v4 x => exact isLinkLocal4_iff x
  | v6 x => exact isLinkLocal6_iff x

theorem isLocal_iff (a : Address) : a.isLocal = true ↔ ∃ n ∈ localNetworks, n.Holds a := by
  cases a with
  | v4 x => exact isLocal4_iff x
  | v6 x => exact isLocal6_iff x

/-- A host that stands for an address has no name to be compared with. -/
theorem isBlocked_of_standsFor (h : StandsFor host a) :
    isBlocked policy host = (a.isLinkLocal || (!policy.allowLocal && a.isLocal)) := by
  have haddress := standsFor_iff.1 h
  have hname : isMetadata (Text.lowerAscii host.text) = true → a.isLinkLocal = true := by
    intro hmetadata
    cases h with
    | v4 x =>
      rw [eq_of_isMetadata_text hmetadata]
      decide
    | mapped x => simp [Host.text, not_isMetadata_brackets] at hmetadata
    | v6 h => simp [Host.text, not_isMetadata_brackets] at hmetadata
  simp only [isBlocked, haddress]
  cases hmetadata : isMetadata (Text.lowerAscii host.text) with
  | false => rfl
  | true => simp [hname hmetadata]

theorem permits_iff {scheme : String} (h : StandsFor host a) :
    acceptsScheme policy scheme = true ∧ isBlocked policy host = false ↔
      Permits policy scheme a := by
  have hlink : a.isLinkLocal = false ↔ ∀ n ∈ linkNetworks, ¬ n.Holds a := by
    rw [Bool.eq_false_iff, ne_eq, isLinkLocal_iff]
    simp only [not_exists, not_and]
  have hlocal : a.isLocal = false ↔ ∀ n ∈ localNetworks, ¬ n.Holds a := by
    rw [Bool.eq_false_iff, ne_eq, isLocal_iff]
    simp only [not_exists, not_and]
  have hblocked : isBlocked policy host = false ↔ (∀ n ∈ linkNetworks, ¬ n.Holds a) ∧
      (policy.allowLocal = true ∨ ∀ n ∈ localNetworks, ¬ n.Holds a) := by
    rw [isBlocked_of_standsFor h, Bool.or_eq_false_iff, Bool.and_eq_false_iff, hlink, hlocal,
      Bool.not_eq_false']
  rw [acceptsScheme_iff, hblocked]
  constructor
  · intro h
    exact ⟨h.1, h.2.1, h.2.2⟩
  · intro h
    exact ⟨h.scheme, h.beyond_link, h.beyond_local⟩

/-- An endpoint that is accepted under a policy. -/
def Accepts (raw : String) (policy : EndpointPolicy) (form : NameForm) : Prop :=
  ∃ u, check raw policy form = .ok u

theorem accepts_iff_permits (hparse : Url.parse raw form = .ok u) (hhost : host? u = some host)
    (h : StandsFor host a) : Accepts raw policy form ↔ Permits policy u.scheme a := by
  rw [← permits_iff h]
  constructor
  · intro haccepts
    obtain ⟨v, hv⟩ := haccepts
    obtain ⟨hparse', hscheme, host', hhost', hblocked⟩ := check_eq_ok_iff.1 hv
    obtain rfl := Except.ok.inj (hparse.symm.trans hparse')
    obtain rfl := Option.some_inj.1 (hhost.symm.trans hhost')
    exact ⟨hscheme, hblocked⟩
  · intro hpermits
    exact ⟨u, check_eq_ok_iff.2 ⟨hparse, hpermits.1, host, hhost, hpermits.2⟩⟩

/-! ## Spellings of addresses -/

/-- A text of a host that means an address: numbers, which may be written in any way that
the form of names resolves, or groups in brackets. -/
inductive AddressText (form : NameForm) : List Char → Address → Prop
  | numbers {cs name : List Char} {x : Ipv4} (hne : cs ≠ [])
      (hcs : ∀ c ∈ cs, Url.isHostChar c = true)
      (hform : form.formOf? (Bytes.toChars (Url.decode cs)) = some name)
      (h : Ipv4.Spells name x) : AddressText form cs (.v4 x)
  | groups {cs : List Char} {x : Ipv6} {a : Address} (h : Ipv6.Spells cs x)
      (ha : StandsFor (.ipv6 x) a) : AddressText form ('[' :: cs ++ [']']) a

variable {scheme : String} {front cs behind : List Char}

theorem AddressText.read (h : AddressText form cs a) :
    HostText cs ∧ ∃ host, Host.special cs form = .ok host ∧ StandsFor host a := by
  cases h with
  | @numbers cs name x hne hcs hform h =>
    have hbracket : cs.head? ≠ some '[' := by
      intro hhead
      exact absurd (hcs _ (List.mem_of_mem_head? hhead)) (by decide)
    exact ⟨.plain hne hcs, _, Host.special_of_spells hbracket hform h, .v4 x⟩
  | groups h ha => exact ⟨h.hostText, _, Ipv6.special_of_spells h, ha⟩

/-- With names in ASCII each text of an address of version 4 means it. -/
theorem addressText_of_spells {x : Ipv4} (h : Ipv4.Spells cs x) :
    AddressText .ascii cs (.v4 x) := by
  have hpercent : '%' ∉ cs := by
    intro hmem
    exact absurd (h.mem _ hmem) (by decide)
  have hform : NameForm.ascii.formOf? (Bytes.toChars (Url.decode cs)) =
      some (cs.map Char.toLower) := by
    rw [Url.toChars_decode hpercent, Url.ascii_of_spells h]
  exact .numbers (Ipv4.ne_nil_of_spells h) (fun c hc => Url.isHostChar_of_mem (h.mem c hc)) hform
    h.lower

/-- A URL around a text of an address is judged by the address. -/
theorem accepts_around_iff (h : Around raw scheme front cs behind)
    (hcs : AddressText form cs a) :
    Accepts raw policy form ↔
      (∃ p, Url.portBehind scheme behind = .ok p) ∧ Permits policy scheme a := by
  obtain ⟨htext, host, hhost, ha⟩ := hcs.read
  constructor
  · intro haccepts
    obtain ⟨u, hu⟩ := haccepts
    obtain ⟨hparse, hscheme, -⟩ := check_eq_ok_iff.1 hu
    have hkind := schemeKind_of_accepts hscheme
    obtain ⟨rest, -, -, hfront, -, -⟩ := Url.exists_of_parse hparse hkind
    obtain ⟨rest', hfront', -⟩ := h.scheme
    rw [hfront] at hfront'
    obtain ⟨rfl, -⟩ := Prod.mk.inj (Option.some_inj.1 hfront')
    have hread := h.parse hkind htext hhost
    cases hport : Url.portBehind u.scheme behind with
    | error fault =>
      rw [hport, hparse] at hread
      cases hread
    | ok p =>
      rw [hport] at hread
      exact ⟨⟨p, rfl⟩, (accepts_iff_permits hread rfl ha).1 ⟨u, hu⟩⟩
  · intro hpermits
    obtain ⟨⟨p, hport⟩, hpermits⟩ := hpermits
    have hkind := schemeKind_of_accepts (acceptsScheme_iff.2 hpermits.scheme)
    have hread := h.parse hkind htext hhost
    rw [hport] at hread
    exact (accepts_iff_permits hread rfl ha).2 hpermits

/-! ## More leave -/

/-- What one policy grants is granted by another one too. -/
structure Grants (p q : EndpointPolicy) : Prop where
  http : p.allowHttp = true → q.allowHttp = true
  locals : p.allowLocal = true → q.allowLocal = true

variable {p q : EndpointPolicy}

theorem acceptsScheme_of_grants (h : Grants p q) (hscheme : acceptsScheme p scheme = true) :
    acceptsScheme q scheme = true := by
  rw [acceptsScheme_iff] at hscheme ⊢
  exact hscheme.imp_right fun hhttp => ⟨hhttp.1, h.http hhttp.2⟩

theorem isBlocked_of_grants (h : Grants p q) (hblocked : isBlocked p host = false) :
    isBlocked q host = false := by
  have hleave : ∀ b, (!p.allowLocal && b) = false → (!q.allowLocal && b) = false := by
    intro b hb
    rw [Bool.and_eq_false_iff, Bool.not_eq_false'] at hb ⊢
    exact hb.imp_left h.locals
  simp only [isBlocked, Bool.or_eq_false_iff] at hblocked ⊢
  obtain ⟨hname, hhost⟩ := hblocked
  refine ⟨hname, ?_⟩
  cases haddress : address? host with
  | none =>
    simp only [haddress] at hhost
    exact hleave _ hhost
  | some x =>
    simp only [haddress, Bool.or_eq_false_iff] at hhost ⊢
    exact ⟨hhost.1, hleave _ hhost.2⟩

theorem check_of_grants (h : Grants p q) (hcheck : check raw p form = .ok u) :
    check raw q form = .ok u := by
  obtain ⟨hparse, hscheme, host, hhost, hblocked⟩ := check_eq_ok_iff.1 hcheck
  exact check_eq_ok_iff.2
    ⟨hparse, acceptsScheme_of_grants h hscheme, host, hhost, isBlocked_of_grants h hblocked⟩

/-! ## The verdict -/

/-- **Endpoints are judged by address.** A URL with the host of an address is accepted
exactly if the policy permits its scheme and the address that the host stands for. So two
URLs that differ in how they spell an address are accepted or not together, and with
names in ASCII each text of an address of version 4 is such a spelling, as is each text
in brackets of the address that stands for it. More leave turns no URL down. -/
theorem judged_by_address (form : NameForm) :
    (∀ raw u host, Url.parse raw form = .ok u → host? u = some host →
      (∀ name, host ≠ .domain name) →
      ∃ a, (∀ b, StandsFor host b ↔ b = a) ∧
        ∀ policy, Accepts raw policy form ↔ Permits policy u.scheme a) ∧
    (∀ raw raw' scheme front cs cs' behind a policy,
      Around raw scheme front cs behind → Around raw' scheme front cs' behind →
      AddressText form cs a → AddressText form cs' a →
      (Accepts raw policy form ↔ Accepts raw' policy form)) ∧
    (∀ (x : Ipv4) cs, Ipv4.Spells cs x → AddressText .ascii cs (.v4 x)) ∧
    (∀ (x : Ipv4) cs, Ipv6.Spells cs (.ofMapped x) →
      AddressText form ('[' :: cs ++ [']']) (.v4 x)) ∧
    ∀ raw p q u, Grants p q → check raw p form = .ok u → check raw q form = .ok u := by
  refine ⟨?_, ?_, ?_, ?_, ?_⟩
  · intro raw u host hparse hhost hname
    obtain ⟨a, ha⟩ := exists_standsFor hname
    exact ⟨a, ha, fun policy => accepts_iff_permits hparse hhost ((ha a).2 rfl)⟩
  · intro raw raw' scheme front cs cs' behind a policy h h' hcs hcs'
    rw [accepts_around_iff h hcs, accepts_around_iff h' hcs']
  · intro x cs h
    exact addressText_of_spells h
  · intro x cs h
    exact .groups h (.mapped x)
  · intro raw p q u h hcheck
    exact check_of_grants h hcheck

theorem spells_localMachine : Ipv4.Spells "0x7F.1".toList ⟨127, 0, 0, 1⟩ := by
  have hfirst : Ipv4.NumberText "0x7F".toList 127 := .hex (.inl rfl) (Ipv4.digitsIn_iff.2 rfl)
  have hlast : Ipv4.NumberText "1".toList 1 := .decimal (by decide) (Ipv4.digitsIn_iff.2 rfl)
  have hparts : Ipv4.PartsText 3 ["0x7F".toList, "1".toList] (127 * Nat.pow 256 3 + 1) :=
    .more hfirst (by decide) (.last hlast (by decide))
  have hnumber : (⟨127, 0, 0, 1⟩ : Ipv4).number = 127 * Nat.pow 256 3 + 1 := by decide
  rw [← hnumber] at hparts
  exact .plain hparts

theorem spells_mapped_localMachine :
    Ipv6.Spells "0:0::FFFF:7f00:1".toList (.ofMapped ⟨127, 0, 0, 1⟩) := by
  have hzero : Ipv6.GroupText "0".toList 0 := ⟨Ipv4.digitsIn_iff.2 rfl, by decide, by decide⟩
  have hmark : Ipv6.GroupText "FFFF".toList 0xFFFF :=
    ⟨Ipv4.digitsIn_iff.2 rfl, by decide, by decide⟩
  have hfront : Ipv6.GroupText "7f00".toList 0x7F00 :=
    ⟨Ipv4.digitsIn_iff.2 rfl, by decide, by decide⟩
  have hback : Ipv6.GroupText "1".toList 1 := ⟨Ipv4.digitsIn_iff.2 rfl, by decide, by decide⟩
  exact .gap (k := 3) (.more hzero (.more hzero .nil)) (by decide)
    (.groups (.more hmark (.more hfront (.last hback)))) (by decide) rfl

theorem endsHost_port : Url.EndsHost ":8080/v1".toList := by
  intro c hc
  exact .inr (Option.some_inj.1 hc).symm

theorem around_localMachine : Around "https://0x7F.1:8080/v1" "https" [] "0x7F.1".toList
    ":8080/v1".toList :=
  ⟨⟨_, rfl, rfl⟩, .inl rfl, endsHost_port, by decide⟩

theorem around_mapped_localMachine : Around "https://[0:0::FFFF:7f00:1]:8080/v1" "https" []
    ('[' :: "0:0::FFFF:7f00:1".toList ++ [']']) ":8080/v1".toList :=
  ⟨⟨_, rfl, rfl⟩, .inl rfl, endsHost_port, by decide⟩

/-- The machine itself is turned down without leave, as a short hexadecimal number and as
a mapped address, and the first address behind those of a carrier is accepted. -/
theorem judged_by_address_spellings :
    (∀ policy, Accepts "https://0x7F.1:8080/v1" policy .ascii ↔
      Accepts "https://[0:0::FFFF:7f00:1]:8080/v1" policy .ascii) ∧
    ¬ Accepts "https://0x7F.1:8080/v1" {} .ascii ∧
    Accepts "https://0x7F.1:8080/v1" ⟨false, true⟩ .ascii ∧
    Accepts "https://[::ffff:100.128.0.0]/v1" {} .ascii ∧
    Accepts "https://[::ffff:100.128.0.0]/v1" ⟨true, true⟩ .ascii := by
  obtain ⟨hjudged, hspelled, hnumbers, hgroups, hgrants⟩ := judged_by_address .ascii
  obtain ⟨a, ha, hlocal⟩ := hjudged "https://0x7F.1:8080/v1"
    ⟨"https", some ⟨"", "", some (.ipv4 ⟨127, 0, 0, 1⟩), some 8080⟩, "/v1", none, none⟩ _ rfl rfl
    (fun _ h => nomatch h)
  obtain ⟨b, hb, hcarrier⟩ := hjudged "https://[::ffff:100.128.0.0]/v1"
    ⟨"https", some ⟨"", "", some (.ipv6 (.ofMapped ⟨100, 128, 0, 0⟩)), none⟩, "/v1", none, none⟩ _
    rfl rfl (fun _ h => nomatch h)
  obtain rfl := (ha _).1 (.v4 _)
  obtain rfl := (hb _).1 (.mapped _)
  have haccepts : Accepts "https://[::ffff:100.128.0.0]/v1" {} .ascii :=
    (hcarrier {}).2 ⟨.inl rfl, by decide +kernel, .inr (by decide +kernel)⟩
  refine ⟨fun policy => ?_, ?_, ?_, haccepts, ?_⟩
  · exact hspelled _ _ "https" [] _ _ _ _ policy around_localMachine around_mapped_localMachine
      (hnumbers _ _ spells_localMachine) (hgroups _ _ spells_mapped_localMachine)
  · intro h
    rcases ((hlocal {}).1 h).beyond_local with hleave | hbeyond
    · cases hleave
    · exact absurd hbeyond (by decide +kernel)
  · exact (hlocal ⟨false, true⟩).2 ⟨.inl rfl, by decide +kernel, .inl rfl⟩
  · obtain ⟨u, hu⟩ := haccepts
    exact ⟨u, hgrants _ {} ⟨true, true⟩ u ⟨fun _ => rfl, fun _ => rfl⟩ hu⟩

end VisualRules.Endpoint
