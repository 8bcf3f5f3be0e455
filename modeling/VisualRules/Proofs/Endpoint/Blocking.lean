import VisualRules.Proofs.Endpoint.Checking

/-!
# Hosts that must not be contacted

Which hosts are metadata services or the machine itself is said here of what a host
reaches: names without regard to case and to the point of the root, addresses in any
spelling. Under every policy the metadata services are refused, and without leave the
machine itself, with two gaps: a name with the point of the root is compared as it
stands, and the address of version 6 that stands for none is not one of the loopback
addresses. What falls into a gap is accepted.
-/

namespace VisualRules.Endpoint

open Url (Host Ipv4 Ipv6 NameForm)

variable {raw : String} {policy : EndpointPolicy} {form : NameForm} {u : Url} {host : Host}

/-! ## What a host reaches -/

/-- A name without the point of the root at its end, in lower case. -/
def comparedName (name : String) : List Char :=
  let cs := name.toList
  (if cs.getLast? = some '.' then cs.dropLast else cs).map Char.toLower

/-- A name that is another one or lies below it. -/
def AtOrBelow (top : String) (cs : List Char) : Prop :=
  cs = top.toList ∨ '.' :: top.toList <:+ cs

/-- A host that reaches an address of version 4: the address itself, a name that spells
it, or the address of version 6 that stands for it. -/
inductive Reaches4 : Host → Ipv4 → Prop
  | address (x : Ipv4) : Reaches4 (.ipv4 x) x
  | spelled {name : String} {x : Ipv4} (h : Ipv4.Spells name.toList x) : Reaches4 (.domain name) x
  | mapped (x : Ipv4) : Reaches4 (.ipv6 (.ofMapped x)) x

/-- The hosts of metadata services. -/
inductive MetadataService : Host → Prop
  | name {top name : String} (htop : top = "metadata.google.internal" ∨ top = "metadata.goog")
      (h : AtOrBelow top (comparedName name)) : MetadataService (.domain name)
  | address {host : Host} (h : Reaches4 host ⟨169, 254, 169, 254⟩) : MetadataService host

/-- The hosts of the machine itself. -/
inductive LocalMachine : Host → Prop
  | name {name : String} (h : comparedName name = "localhost".toList ∨
      comparedName name = "localhost.localdomain".toList) : LocalMachine (.domain name)
  | address {host : Host} {x : Ipv4} (h : Reaches4 host x) (hx : x.a = 127 ∨ x.a = 0) :
      LocalMachine host
  | loopback : LocalMachine (.ipv6 .loopback)
  | unspecified : LocalMachine (.ipv6 .unspecified)

/-- A name with the point of the root at its end. -/
inductive Rooted : Host → Prop
  | name {name : String} (h : name.toList.getLast? = some '.') : Rooted (.domain name)

/-! ## Names -/

theorem endsWith_iff {s t : String} : s.endsWith t = true ↔ t.toList <:+ s.toList := by
  rw [← String.endsWith_toSlice, String.Slice.endsWith_string_iff]
  simp

theorem isMetadata_iff {name : String} : isMetadata name = true ↔
    ∃ top ∈ metadataHosts, AtOrBelow top name.toList := by
  simp only [isMetadata, List.any_eq_true, Bool.or_eq_true, beq_iff_eq, endsWith_iff, AtOrBelow,
    String.toList_append, String.toList_inj]
  rfl

@[simp]
theorem toList_lowerAscii (s : String) :
    (Text.lowerAscii s).toList = s.toList.map Char.toLower := by
  simp [Text.lowerAscii]

/-- Names without the point of the root are compared as they stand in lower case. -/
theorem comparedName_of_not_rooted {name : String} (h : ¬ Rooted (.domain name)) :
    comparedName name = (Text.lowerAscii name).toList := by
  have hlast : name.toList.getLast? ≠ some '.' := fun hlast => h (.name hlast)
  simp [comparedName, hlast]

/-- What ends in the point of the root is at or below no name that does not. -/
theorem not_atOrBelow_of_rooted {top name : String}
    (htop : top.toList.getLast?.any (· ≠ '.') = true) (h : Rooted (.domain name)) :
    ¬ AtOrBelow top (Text.lowerAscii name).toList := by
  obtain ⟨c, htop, hc⟩ : ∃ c, top.toList.getLast? = some c ∧ c ≠ '.' := by
    cases hlast : top.toList.getLast? with
    | none => simp [hlast] at htop
    | some c => exact ⟨c, rfl, by simpa [hlast] using htop⟩
  obtain ⟨hlast⟩ := h
  have hpoint : (Text.lowerAscii name).toList.getLast? = some '.' := by
    simp [List.getLast?_map, hlast]
  have hend : ∀ cs, cs.getLast? = some c → (Text.lowerAscii name).toList ≠ cs := by
    rintro cs hcs rfl
    rw [hpoint] at hcs
    exact hc (Option.some_inj.1 hcs).symm
  rintro (heq | ⟨front, heq⟩)
  · exact hend _ htop heq
  · exact hend _ (by simp [List.getLast?_append, List.getLast?_cons, htop]) heq.symm

theorem not_isMetadata_of_rooted {name : String} (h : Rooted (.domain name)) :
    isMetadata (Text.lowerAscii name) = false := by
  rw [Bool.eq_false_iff, ne_eq, isMetadata_iff]
  rintro ⟨top, htop, hbelow⟩
  have hunrooted : ∀ top ∈ metadataHosts, top.toList.getLast?.any (· ≠ '.') = true := by decide
  exact not_atOrBelow_of_rooted (hunrooted top htop) h hbelow

theorem not_mem_localNames_of_rooted {name : String} (h : Rooted (.domain name)) :
    Text.lowerAscii name ∉ localNames := by
  intro hmem
  have hunrooted : ∀ top ∈ localNames, top.toList.getLast?.any (· ≠ '.') = true := by decide
  exact not_atOrBelow_of_rooted (hunrooted _ hmem) h (.inl rfl)

/-! ## The block list -/

/-- What is read as a name spells no address, so a host has the address that it reaches. -/
theorem address?_of_reaches4 {cs : List Char} {x : Ipv4} (h : Reaches4 host x)
    (hhost : Host.special cs form = .ok host) : address? host = some (.v4 x) := by
  cases h with
  | address => rfl
  | spelled hspells => exact absurd hspells (Host.not_spells_of_special hhost x)
  | mapped => simp [address?]

theorem isBlocked_of_address {a : Address} (h : address? host = some a)
    (ha : a.isLinkLocal = true ∨ policy.allowLocal = false ∧ a.isLocal = true) :
    isBlocked policy host = true := by
  simp only [isBlocked, h, Bool.or_eq_true, Bool.and_eq_true, Bool.not_eq_true']
  exact .inr ha

theorem isBlocked_of_metadataService {cs : List Char} (h : MetadataService host)
    (hrooted : ¬ Rooted host) (hhost : Host.special cs form = .ok host) :
    isBlocked policy host = true := by
  cases h with
  | @name top name htop hbelow =>
    rw [comparedName_of_not_rooted hrooted] at hbelow
    have hmetadata : isMetadata (Text.lowerAscii name) = true :=
      isMetadata_iff.2 ⟨top, by rcases htop with rfl | rfl <;> decide, hbelow⟩
    simp [isBlocked, Host.text, hmetadata]
  | address hreaches => exact isBlocked_of_address (address?_of_reaches4 hreaches hhost) (.inl rfl)

theorem isBlocked_of_localMachine {cs : List Char} (h : LocalMachine host)
    (hlocal : policy.allowLocal = false) (hrooted : ¬ Rooted host)
    (hunspecified : host ≠ .ipv6 .unspecified) (hhost : Host.special cs form = .ok host) :
    isBlocked policy host = true := by
  cases h with
  | @name name hname =>
    rw [comparedName_of_not_rooted hrooted, String.toList_inj, String.toList_inj] at hname
    have hmem : Text.lowerAscii name ∈ localNames := by
      rcases hname with hname | hname <;> rw [hname] <;> decide
    simp [isBlocked, address?, Host.text, hlocal, hmem]
  | address hreaches hx =>
    refine isBlocked_of_address (address?_of_reaches4 hreaches hhost) (.inr ⟨hlocal, ?_⟩)
    rcases hx with hx | hx <;> simp [Address.isLocal, isLoopback4, isPrivate4, hx]
  | loopback => exact isBlocked_of_address rfl (.inr ⟨hlocal, by decide⟩)
  | unspecified => exact absurd rfl hunspecified

theorem not_isBlocked_of_rooted (h : Rooted host) : isBlocked policy host = false := by
  cases h with
  | name hlast =>
    simp [isBlocked, address?, Host.text, not_isMetadata_of_rooted (.name hlast),
      not_mem_localNames_of_rooted (.name hlast)]

theorem not_isBlocked_unspecified : isBlocked policy (.ipv6 .unspecified) = false := by
  obtain ⟨http, allowed⟩ := policy
  cases http <;> cases allowed <;> decide

/-! ## Accepted endpoints -/

/-- With an acceptable scheme an endpoint is accepted according to its host. -/
theorem check_iff_of_host {P : Prop} (hhost : host? u = some host)
    (hblocked : ∀ cs, Host.special cs form = .ok host → isBlocked policy host = false → P)
    (hpassed : P → isBlocked policy host = false) :
    check raw policy form = .ok u ↔
      Url.parse raw form = .ok u ∧ acceptsScheme policy u.scheme = true ∧ P := by
  constructor
  · intro h
    obtain ⟨hparse, hscheme, -⟩ := check_eq_ok_iff.1 h
    obtain ⟨cs, host', hspecial, hhost', hfree⟩ := exists_special_of_check h
    obtain rfl : host = host' := Option.some_inj.1 (hhost.symm.trans hhost')
    exact ⟨hparse, hscheme, hblocked cs hspecial hfree⟩
  · rintro ⟨hparse, hscheme, h⟩
    exact check_eq_ok_iff.2 ⟨hparse, hscheme, host, hhost, hpassed h⟩

/-- Under every policy an endpoint at a metadata service is accepted exactly if it is
named with the point of the root. -/
theorem accepts_metadataService_iff (hhost : host? u = some host) (h : MetadataService host) :
    check raw policy form = .ok u ↔
      Url.parse raw form = .ok u ∧ acceptsScheme policy u.scheme = true ∧ Rooted host := by
  refine check_iff_of_host hhost (fun cs hspecial hfree => ?_) not_isBlocked_of_rooted
  by_contra hrooted
  rw [isBlocked_of_metadataService h hrooted hspecial] at hfree
  cases hfree

theorem refuses_mapped_metadataService :
    let u : Url := ⟨"http", some ⟨"", "", some (.ipv6 (.ofMapped ⟨169, 254, 169, 254⟩)), none⟩,
      "/latest", none, none⟩
    Url.parse "http://[::FFFF:169.254.169.254]/latest" = .ok u ∧
      acceptsScheme .forLocal u.scheme = true ∧
      MetadataService (.ipv6 (.ofMapped ⟨169, 254, 169, 254⟩)) ∧
      check "http://[::FFFF:169.254.169.254]/latest" .forLocal ≠ .ok u := by
  refine ⟨rfl, by decide, .address (.mapped _), fun h => ?_⟩
  have hrooted := ((accepts_metadataService_iff rfl (.address (.mapped _))).1 h).2.2
  cases hrooted

/-- With the point of the root a metadata service is reached by name. -/
theorem rooted_metadataService_accepted :
    let u : Url := ⟨"https", some ⟨"", "", some (.domain "metadata.google.internal."), none⟩, "/v1",
      none, none⟩
    check "https://metadata.google.internal./v1" {} = .ok u ∧
      ∃ host, host? u = some host ∧ MetadataService host := by
  refine ⟨check_eq_ok_iff.2 ⟨rfl, by decide, _, rfl, ?_⟩, _, rfl, ?_⟩
  · exact not_isBlocked_of_rooted (.name (by decide))
  · exact .name (.inl rfl) (.inl (by decide))

/-- Without leave an endpoint on the machine itself is accepted exactly if it is named with the
point of the root, or has the address of version 6 that stands for none. -/
theorem accepts_localMachine_iff (hlocal : policy.allowLocal = false) (hhost : host? u = some host)
    (h : LocalMachine host) :
    check raw policy form = .ok u ↔
      Url.parse raw form = .ok u ∧ acceptsScheme policy u.scheme = true ∧
        (Rooted host ∨ host = .ipv6 .unspecified) := by
  refine check_iff_of_host hhost (fun cs hspecial hfree => ?_) fun hgap => ?_
  · by_contra hgap
    obtain ⟨hrooted, hunspecified⟩ := not_or.1 hgap
    rw [isBlocked_of_localMachine h hlocal hrooted hunspecified hspecial] at hfree
    cases hfree
  · rcases hgap with hrooted | rfl
    · exact not_isBlocked_of_rooted hrooted
    · exact not_isBlocked_unspecified

theorem refuses_short_localMachine :
    let u : Url := ⟨"https", some ⟨"", "", some (.ipv4 ⟨127, 0, 0, 1⟩), some 8080⟩, "/v1", none,
      none⟩
    Url.parse "https://0x7F.1:8080/v1" = .ok u ∧ acceptsScheme {} u.scheme = true ∧
      LocalMachine (.ipv4 ⟨127, 0, 0, 1⟩) ∧ check "https://0x7F.1:8080/v1" {} ≠ .ok u := by
  have hlocal : LocalMachine (.ipv4 ⟨127, 0, 0, 1⟩) := .address (.address _) (.inl rfl)
  refine ⟨rfl, by decide, hlocal, fun h => ?_⟩
  rcases ((accepts_localMachine_iff rfl rfl hlocal).1 h).2.2 with hrooted | heq
  · cases hrooted
  · cases heq

/-- Both ways to the machine itself without leave. -/
theorem rooted_and_unspecified_accepted :
    let named : Url := ⟨"https", some ⟨"", "", some (.domain "localhost."), none⟩, "/v1", none,
      none⟩
    let unspecified : Url := ⟨"https", some ⟨"", "", some (.ipv6 .unspecified), none⟩, "/v1", none,
      none⟩
    check "https://localhost./v1" {} = .ok named ∧
      check "https://[::]/v1" {} = .ok unspecified ∧
      LocalMachine (.domain "localhost.") ∧ LocalMachine (.ipv6 .unspecified) := by
  refine ⟨check_eq_ok_iff.2 ⟨rfl, by decide, _, rfl, ?_⟩,
    check_eq_ok_iff.2 ⟨rfl, by decide, _, rfl, not_isBlocked_unspecified⟩, ?_, .unspecified⟩
  · exact not_isBlocked_of_rooted (.name (by decide))
  · exact .name (.inl (by decide))

end VisualRules.Endpoint
