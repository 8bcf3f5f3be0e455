import VisualRules.Text.Blank
import VisualRules.Url.Basic

/-!
# Model endpoints

The base URL of the model decides where intents and media are sent, with the key that pays for it.
It must use HTTPS, and it must not name the machine itself, its network or the metadata service of
a cloud. A policy may allow plain HTTP and local addresses, but never metadata services.
-/

namespace VisualRules

open Url (Host Ipv4 Ipv6 NameForm)

/-- Which endpoints are acceptable besides public ones over HTTPS. -/
structure EndpointPolicy where
  allowHttp : Bool := false
  allowLocal : Bool := false
deriving DecidableEq, Repr, Inhabited

/-- The policy for models on the same machine or network. -/
def EndpointPolicy.forLocal : EndpointPolicy :=
  ⟨true, true⟩

/-- Why an endpoint is not acceptable. -/
inductive EndpointFault
  | invalidUrl (fault : Url.Fault)
  | invalidScheme (scheme : String)
  | blockedHost (host : String)
  | missingHost
deriving DecidableEq, Repr

/-- The text of a fault. -/
def EndpointFault.message : EndpointFault → String
  | .invalidUrl fault => "Invalid URL: " ++ fault.message
  | .invalidScheme scheme =>
    "URL scheme '" ++ scheme ++ "' is not allowed, only HTTPS is permitted"
  | .blockedHost host =>
    "Host '" ++ host ++ "' is blocked: local and internal addresses are not allowed"
  | .missingHost => "URL must have a host"

namespace Endpoint

/-! ## Addresses -/

/-- The machine itself, in version 4. -/
def isLoopback4 (x : Ipv4) : Bool :=
  x.a = 127

/-- Networks that are not public, in version 4: the private ones, those behind a carrier, and the
one without a number. -/
def isPrivate4 (x : Ipv4) : Bool :=
  x.a = 10 || (x.a = 172 && x.b &&& 0xF0 = 16) || (x.a = 192 && x.b = 168) ||
    (x.a = 100 && x.b &&& 0xC0 = 64) || x.a = 0

/-- Addresses on one link, in version 4. -/
def isLinkLocal4 (x : Ipv4) : Bool :=
  x.a = 169 && x.b = 254

/-- The machine itself, in version 6. -/
def isLoopback6 (x : Ipv6) : Bool :=
  x.groups.toList == [0, 0, 0, 0, 0, 0, 0, 1]

/-- Networks that are not public, in version 6. -/
def isPrivate6 (x : Ipv6) : Bool :=
  x.groups[0] &&& 0xFE00 = 0xFC00

/-- Addresses on one link, in version 6. -/
def isLinkLocal6 (x : Ipv6) : Bool :=
  x.groups[0] &&& 0xFFC0 = 0xFE80

/-- An address that is reached through a host. -/
inductive Address
  | v4 (x : Ipv4)
  | v6 (x : Ipv6)

/-- The address that a host reaches. One of version 6 that stands for one of version 4 reaches
that one. -/
def address? : Host → Option Address
  | .domain _ => none
  | .ipv4 x => some (.v4 x)
  | .ipv6 x =>
    match x.mapped? with
    | some y => some (.v4 y)
    | none => some (.v6 x)

/-- Addresses on one link are never acceptable. -/
def Address.isLinkLocal : Address → Bool
  | .v4 x => isLinkLocal4 x
  | .v6 x => isLinkLocal6 x

/-- Addresses of the machine itself or of a network that is not public. -/
def Address.isLocal : Address → Bool
  | .v4 x => isLoopback4 x || isPrivate4 x
  | .v6 x => isLoopback6 x || isPrivate6 x

/-! ## Names -/

/-- The names of metadata services. -/
def metadataHosts : List String :=
  ["metadata.google.internal", "metadata.goog", "169.254.169.254"]

/-- The names of the machine itself. -/
def localNames : List String :=
  ["localhost", "localhost.localdomain"]

/-- Whether a name is one of the metadata services or lies below one. -/
def isMetadata (name : String) : Bool :=
  metadataHosts.any fun h => name == h || name.endsWith ("." ++ h)

/-! ## The check -/

/-- Whether a host may not be contacted under a policy. -/
def isBlocked (policy : EndpointPolicy) (host : Host) : Bool :=
  let name := Text.lowerAscii host.text
  isMetadata name ||
    match address? host with
    | some x => x.isLinkLocal || (!policy.allowLocal && x.isLocal)
    | none => !policy.allowLocal && localNames.contains name

/-- Whether a scheme is acceptable under a policy. -/
def acceptsScheme (policy : EndpointPolicy) (scheme : String) : Bool :=
  scheme == "https" || (scheme == "http" && policy.allowHttp)

/-- The host of a URL. -/
def host? (u : Url) : Option Host :=
  u.authority.bind Url.Authority.host

/-- Reads a base URL and checks it against a policy. -/
def check (raw : String) (policy : EndpointPolicy) (form : NameForm := .ascii) :
    Except EndpointFault Url := do
  let url ← (Url.parse raw form).mapError .invalidUrl
  if !acceptsScheme policy url.scheme then throw (.invalidScheme url.scheme)
  match host? url with
  | none => throw .missingHost
  | some host =>
    if isBlocked policy host then throw (.blockedHost host.text)
    return url

end Endpoint

end VisualRules
