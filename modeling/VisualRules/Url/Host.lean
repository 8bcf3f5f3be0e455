import VisualRules.Url.Ip
import VisualRules.Url.Punycode

/-!
# Hosts

A host is a domain name or an address. Names are compared in one form, which a host is brought into
after its percent signs have been resolved: names in ASCII are compared without case, and how names
with other characters are written in ASCII is left open. A name whose last label is a number must be
an address of version 4.
-/

namespace VisualRules.Url

/-- Why a text is no URL. -/
inductive Fault
  | noScheme
  | emptyHost
  | badPort
  | badIpv4
  | badIpv6
  | badDomain
  | badHostCharacter
deriving DecidableEq, Repr

/-- The text of a fault. -/
def Fault.message : Fault → String
  | .noScheme => "relative URL without a base"
  | .emptyHost => "empty host"
  | .badPort => "invalid port number"
  | .badIpv4 => "invalid IPv4 address"
  | .badIpv6 => "invalid IPv6 address"
  | .badDomain => "invalid international domain name"
  | .badHostCharacter => "invalid domain character"

/-! ## Names -/

/-- Blanks and controls. -/
def isEdge (c : Char) : Bool :=
  c.toNat ≤ 0x20

/-- How a name is brought into the one form in which names are compared. What is no name has no
such form, and no name holds a blank or a control. -/
structure NameForm where
  formOf? : List Char → Option (List Char)
  formOf?_of_edge : ∀ cs, cs.any isEdge → formOf? cs = none

namespace NameForm

/-- Characters that no domain name holds. -/
def isForbidden (c : Char) : Bool :=
  isEdge c || 0x7F ≤ c.toNat ||
    ['%', '#', '/', ':', '<', '>', '?', '@', '[', '\\', ']', '^', '|'].contains c

/-- Whether a label with the mark of an encoded one decodes to a text beyond ASCII that may stand
in a name. -/
def isLabel (label : List Char) : Bool :=
  match label with
  | 'x' :: 'n' :: '-' :: '-' :: rest =>
    match Punycode.decode? rest with
    | none => false
    | some codes => codes.any (0x7F < ·) && codes.all fun n => n < 0x7F || 0xA0 < n
  | _ => true

/-- The form of a name in ASCII: its letters in lower case. -/
def ascii? (cs : List Char) : Option (List Char) :=
  let name := cs.map Char.toLower
  if name.any isForbidden || !(name.splitOn '.').all isLabel then none else some name

theorem isForbidden_toLower_of_edge {c : Char} (h : isEdge c = true) :
    isForbidden c.toLower = true := by
  have hc : c.toNat ≤ 0x20 := by simpa [isEdge] using h
  have hlower : c.toLower = c := by
    unfold Char.toLower
    rw [dif_neg]
    intro hupper
    have hA : 65 ≤ c.toNat := hupper.1
    omega
  simp [isForbidden, hlower, h]

theorem ascii?_of_edge (cs : List Char) (h : cs.any isEdge) : ascii? cs = none := by
  obtain ⟨c, hc, hedge⟩ := List.any_eq_true.1 h
  have hforbidden : (cs.map Char.toLower).any isForbidden = true :=
    List.any_eq_true.2 ⟨_, List.mem_map_of_mem hc, isForbidden_toLower_of_edge hedge⟩
  simp only [ascii?, hforbidden, Bool.true_or, if_true]

/-- Names in ASCII; a name with other characters has no form. -/
def ascii : NameForm :=
  ⟨ascii?, ascii?_of_edge⟩

end NameForm

/-! ## Hosts -/

/-- A host. -/
inductive Host
  | domain (name : String)
  | ipv4 (address : Ipv4)
  | ipv6 (address : Ipv6)
deriving DecidableEq

namespace Host

/-- How a host is written; addresses of version 6 stand in brackets. -/
def text : Host → String
  | .domain name => name
  | .ipv4 address => address.text
  | .ipv6 address => "[" ++ address.text ++ "]"

/-- The address of version 6 between brackets. -/
def ofBrackets (cs : List Char) : Except Fault Host :=
  match cs.getLast? with
  | some ']' =>
    match Ipv6.ofChars? cs.dropLast with
    | some address => .ok (.ipv6 address)
    | none => .error .badIpv6
  | _ => .error .badIpv6

/-- The host of a URL whose scheme is special. -/
def special (cs : List Char) (form : NameForm := .ascii) : Except Fault Host :=
  match cs with
  | '[' :: rest => ofBrackets rest
  | _ =>
    match form.formOf? (Bytes.toChars (decode cs)) with
    | none => .error .badDomain
    | some name =>
      if name.isEmpty then .error .emptyHost
      else if Ipv4.endsInNumber name then
        match Ipv4.ofChars? name with
        | some address => .ok (.ipv4 address)
        | none => .error .badIpv4
      else .ok (.domain (String.ofList name))

/-- Characters that no host of another scheme holds. -/
def isForbiddenPlain (c : Char) : Bool :=
  c.toNat = 0 || ['\t', '\n', '\r', ' ', '#', '/', ':', '<', '>', '?', '@', '[', '\\', ']', '^',
    '|'].contains c

/-- The host of a URL whose scheme is not special: any text. -/
def plain (cs : List Char) : Except Fault Host :=
  match cs with
  | '[' :: rest => ofBrackets rest
  | _ =>
    if cs.any isForbiddenPlain then .error .badHostCharacter
    else .ok (.domain (String.ofList (encode .plain cs)))

end Host

end VisualRules.Url
