import MemSandbox.Network.Models

/-! # Destinations

    `network/destination.py`: addresses and their classes, host names, URLs,
    and what a network policy is asked and answers.

    Of the standard library, the ASCII part of `lower`, `isspace`, NFC and the
    IDNA codec and the text form of IPv4 addresses are defined here; the rest
    is the parameter `NetworkLibrary`.

    Where a constructor checks no more than types it has no `new`. -/

open Python

instance ipv4_neZero : NeZero (2 ^ 32) := ⟨by decide⟩

/-- `ipaddress.IPv4Address` or `ipaddress.IPv6Address`. -/
inductive IpAddress where
  | v4 (value : Fin (2 ^ 32))
  | v6 (value : Fin (2 ^ 128))
  deriving DecidableEq

/-- `urlsplit(url)`; `hostname` and `port` are its properties, and reading
    them may raise `ValueError`. -/
structure SplitResult where
  scheme : Text
  netloc : Text
  path : Text
  query : Text
  username : Option Text
  password : Option Text
  hostname : Option Text
  port : Option Nat

/-- What the network code uses of the standard library beyond ASCII. -/
class NetworkLibrary where
  /-- `str.lower` -/
  lower : Text → Text
  /-- `str.isspace` of one character -/
  isSpace : CodePoint → Bool
  /-- `unicodedata.normalize("NFC", …)` -/
  nfc : Text → Text
  /-- `str.encode("idna")`; `none` for `UnicodeError` -/
  idnaEncode : Text → Option Text
  /-- `bytes.decode("idna")` -/
  idnaDecode : Text → Option Text
  /-- `urlsplit`; `none` for `ValueError` -/
  urlsplit : Text → Option SplitResult
  /-- `urljoin`; `none` for `ValueError` -/
  urljoin : Text → Text → Option Text
  /-- `quote(value, safe=safe)`; `none` for `UnicodeError` -/
  quote : Text → Text → Option Text
  /-- `IPv6Address(value)`; `none` for `ValueError` -/
  parseIpv6 : Text → Option (Fin (2 ^ 128))
  /-- `IPv6Address.compressed` -/
  ipv6Text : Fin (2 ^ 128) → Text
  isUnspecified : IpAddress → Bool
  isLoopback : IpAddress → Bool
  isLinkLocal : IpAddress → Bool
  isMulticast : IpAddress → Bool
  isReserved : IpAddress → Bool
  isGlobal : IpAddress → Bool
  parse_text : ∀ a, parseIpv6 (ipv6Text a) = some a
  text_colon : ∀ a, CodePoint.ofChar ':' ∈ ipv6Text a
  text_characters : ∀ a, ∀ c ∈ ipv6Text a, c ∈ py "0123456789abcdef:."

/-! ## Section 1: Text -/

/-- `str.isascii`. -/
def isAscii (t : Text) : Bool := t.all fun c => c.val < 128

/-- The lower case of an ASCII character. -/
def lowerAscii (c : CodePoint) : CodePoint :=
  if 0x41 ≤ c.val ∧ c.val ≤ 0x5A then c + 32 else c

section Library

variable [NetworkLibrary]

/-- `str.lower`. -/
def lower (t : Text) : Text := if isAscii t then t.map lowerAscii else NetworkLibrary.lower t

/-- `str.isspace` of one character. -/
def isSpace (c : CodePoint) : Bool :=
  if c.val < 128 then (9 ≤ c.val && c.val ≤ 13) || (28 ≤ c.val && c.val ≤ 32)
  else NetworkLibrary.isSpace c

/-- `str.strip()`. -/
def strip (t : Text) : Text := ((t.dropWhile isSpace).reverse.dropWhile isSpace).reverse

/-- `normalize("NFC", t)`. -/
def nfc (t : Text) : Text := if isAscii t then t else NetworkLibrary.nfc t

/-- `t.encode("idna").decode("ascii")` of a label. -/
def idnaEncode (label : Text) : Option Text :=
  if isAscii label && CodePoint.ofChar '.' ∉ label then
    if label.length < 64 then some label else none
  else
    NetworkLibrary.idnaEncode label

/-! ## Section 2: Addresses -/

/-- A decimal octet without leading zeros. -/
def parseOctet (t : Text) : Option Nat :=
  if t ≠ [] ∧ t.length ≤ 3 ∧ (t.all fun c => 0x30 ≤ c.val && c.val ≤ 0x39) ∧
      ¬(1 < t.length ∧ t.head? = some (CodePoint.ofChar '0')) then
    let n := t.foldl (fun n c => 10 * n + (c.val - 0x30)) 0
    if n ≤ 255 then some n else none
  else
    none

/-- `IPv4Address(t)`. -/
def parseIpv4 (t : Text) : Option (Fin (2 ^ 32)) :=
  match split (CodePoint.ofChar '.') t with
  | [a, b, c, d] => do
    let a ← parseOctet a
    let b ← parseOctet b
    let c ← parseOctet c
    let d ← parseOctet d
    return Fin.ofNat (2 ^ 32) (((a * 256 + b) * 256 + c) * 256 + d)
  | _ => none

/-- `IPv4Address.compressed`. -/
def ipv4Text (a : Fin (2 ^ 32)) : Text :=
  join (py ".") [.ofNat (a.val / 2 ^ 24), .ofNat (a.val / 2 ^ 16 % 256),
    .ofNat (a.val / 2 ^ 8 % 256), .ofNat (a.val % 256)]

/-- `ip_address(t)`; an IPv6 address contains a colon, an IPv4 address none. -/
def ipAddress (t : Text) : Option IpAddress :=
  if CodePoint.ofChar ':' ∈ t then (NetworkLibrary.parseIpv6 t).map .v6
  else (parseIpv4 t).map .v4

/-- `address.compressed`. -/
def IpAddress.compressed : IpAddress → Text
  | .v4 a => ipv4Text a
  | .v6 a => NetworkLibrary.ipv6Text a

/-- `IPv6Address.ipv4_mapped`. -/
def ipv4Mapped (a : Fin (2 ^ 128)) : Option (Fin (2 ^ 32)) :=
  if a.val / 2 ^ 32 = 0xFFFF then some (Fin.ofNat (2 ^ 32) a.val) else none

inductive IpAddressClass where
  | global
  | unspecified
  | loopback
  | «private»
  | linkLocal
  | multicast
  | reserved
  | metadata
  deriving DecidableEq, Repr

/-- A network: its first address and the length of its prefix. -/
inductive IpNetwork where
  | v4 (first : Nat) (bits : Nat)
  | v6 (first : Nat) (bits : Nat)

/-- `address in network`. -/
def IpNetwork.contains : IpNetwork → IpAddress → Bool
  | v4 first bits, .v4 a => a.val / 2 ^ (32 - bits) = first / 2 ^ (32 - bits)
  | v6 first bits, .v6 a => a.val / 2 ^ (128 - bits) = first / 2 ^ (128 - bits)
  | _, _ => false

/-- The number of a dotted IPv4 address. -/
def quad (a b c d : Nat) : Nat := ((a * 256 + b) * 256 + c) * 256 + d

def PRIVATE_V4 : List IpNetwork :=
  [.v4 (quad 10 0 0 0) 8, .v4 (quad 172 16 0 0) 12, .v4 (quad 192 168 0 0) 16]

def PRIVATE_V6 : List IpNetwork := [.v6 (0xfc00 * 2 ^ 112) 7, .v6 (0xfec0 * 2 ^ 112) 10]

def METADATA_NETWORKS : List IpNetwork :=
  [.v4 (quad 168 63 129 16) 32, .v4 (quad 169 254 169 254) 32, .v4 (quad 169 254 170 2) 32,
    .v4 (quad 100 100 100 200) 32, .v4 (quad 192 0 0 192) 32,
    .v6 (0xfd000ec2 * 2 ^ 96 + 0x254) 128, .v6 (0xfe80 * 2 ^ 112 + 0xa9fea9fe) 128]

def SPECIAL_PURPOSE_NETWORKS : List IpNetwork :=
  [.v4 (quad 192 0 0 0) 24, .v4 (quad 192 31 196 0) 24, .v4 (quad 192 52 193 0) 24,
    .v4 (quad 192 175 48 0) 24, .v4 (quad 192 88 99 0) 24,
    .v6 (0x0064ff9b * 2 ^ 96) 96, .v6 (0x0064ff9b0001 * 2 ^ 80) 48, .v6 (0x2001 * 2 ^ 112) 23,
    .v6 (0x2002 * 2 ^ 112) 16, .v6 (0x2620004f8000 * 2 ^ 80) 48, .v6 (0x3ffe * 2 ^ 112) 16,
    .v6 (0x3fff * 2 ^ 112) 20]

def ISATAP_INTERFACE_PREFIXES : List Nat := [0x00005EFE, 0x02005EFE]

/-- Whether the interface identifier of an IPv6 address is one of ISATAP. -/
def isIsatap : IpAddress → Bool
  | .v4 _ => false
  | .v6 a => a.val % 2 ^ 64 / 2 ^ 32 ∈ ISATAP_INTERFACE_PREFIXES

/-- `classify_ip_address` of an address that maps no other. -/
def classifyUnmapped (address : IpAddress) : IpAddressClass :=
  if METADATA_NETWORKS.any (·.contains address) then .metadata
  else if NetworkLibrary.isUnspecified address then .unspecified
  else if NetworkLibrary.isLoopback address then .loopback
  else if NetworkLibrary.isLinkLocal address then .linkLocal
  else if NetworkLibrary.isMulticast address then .multicast
  else if (PRIVATE_V4 ++ PRIVATE_V6).any (·.contains address) then .private
  else if SPECIAL_PURPOSE_NETWORKS.any (·.contains address) then .reserved
  else if isIsatap address then .reserved
  else if NetworkLibrary.isReserved address || !NetworkLibrary.isGlobal address then .reserved
  else .global

/-- `classify_ip_address`. -/
def classifyIpAddress : IpAddress → IpAddressClass
  | .v4 a => classifyUnmapped (.v4 a)
  | .v6 a =>
    match ipv4Mapped a with
    | some mapped =>
      if classifyUnmapped (.v4 mapped) = .global then .reserved else classifyUnmapped (.v4 mapped)
    | none => classifyUnmapped (.v6 a)

/-- `ResolvedHttpAddress`, by its parsed address. -/
structure ResolvedHttpAddress where
  ip : IpAddress
  deriving DecidableEq

namespace ResolvedHttpAddress

def value (address : ResolvedHttpAddress) : Text := address.ip.compressed

def classification (address : ResolvedHttpAddress) : IpAddressClass := classifyIpAddress address.ip

/-- `ResolvedHttpAddress(value)`. -/
def new (value : Text) : Except PyError ResolvedHttpAddress := do
  require (CodePoint.ofChar '%' ∉ value) .valueError
    (py "resolved address must not contain a scope identifier")
  match ipAddress value with
  | none => raise .valueError (py "resolved address must be an IPv4 or IPv6 address")
  | some parsed => .ok ⟨parsed⟩

end ResolvedHttpAddress

/-! ## Section 3: Host names -/

/-- A component of an ambiguous numeric host. -/
def isNumericPart (t : Text) : Bool :=
  (t ≠ [] && t.all fun c => 0x30 ≤ c.val && c.val ≤ 0x39) ||
  (match t with
    | zero :: x :: digits => zero = CodePoint.ofChar '0' && x ∈ py "xX" && digits ≠ [] &&
        digits.all (· ∈ py "0123456789abcdefABCDEF")
    | _ => false)

/-- `_AMBIGUOUS_NUMERIC_HOST.fullmatch(t)`. -/
def isAmbiguousNumericHost (t : Text) : Bool := (split (CodePoint.ofChar '.') t).all isNumericPart

/-- A character that a label may start and end with. -/
def isLabelEnd (c : CodePoint) : Bool :=
  (0x30 ≤ c.val && c.val ≤ 0x39) || (0x61 ≤ c.val && c.val ≤ 0x7A)

/-- `_HOST_LABEL.fullmatch(t)`. -/
def isHostLabel (t : Text) : Bool :=
  t ≠ [] && t.length ≤ 63 && (t.all fun c => isLabelEnd c || c = CodePoint.ofChar '-') &&
    t.head?.all isLabelEnd && t.getLast?.all isLabelEnd

def MAX_HOSTNAME_BYTES : Nat := 253
def MAX_URL_BYTES : Nat := 8192

/-- The IDNA form of one label; `none` for `UnicodeError`. -/
def encodeLabel (label : Text) : Option Text := do
  let normalizedLabel := lower (nfc label)
  let encodedLabel := lower (← idnaEncode normalizedLabel)
  if isAscii label then
    some encodedLabel
  else
    let roundTrip := lower (nfc (← NetworkLibrary.idnaDecode encodedLabel))
    if roundTrip = normalizedLabel then some encodedLabel else none

/-- `hostname[:-1] if hostname.endswith(".") else hostname` -/
def withoutFinalDot (hostname : Text) : Text :=
  if endsWith hostname (py ".") then hostname.dropLast else hostname

/-- `_normalize_hostname` of a name that is no address. -/
def normalizeLabels (candidate : Text) : Except PyError Text := do
  require (candidate ≠ [] ∧ endsWith candidate (py ".") = false ∧
      isAmbiguousNumericHost candidate = false)
    .outboundHttpRequestInvalid (py "HTTP hostname form is ambiguous")
  match (split (CodePoint.ofChar '.') candidate).mapM encodeLabel with
  | none => raise .outboundHttpRequestInvalid (py "HTTP hostname IDNA encoding failed")
  | some labels =>
    require (labels.all isHostLabel) .outboundHttpRequestInvalid
      (py "HTTP hostname label is invalid")
    let canonical := join (py ".") labels
    require (canonical.length ≤ MAX_HOSTNAME_BYTES) .outboundHttpRequestInvalid
      (py "HTTP hostname exceeds its byte limit")
    .ok canonical

/-- `_normalize_hostname`. -/
def normalizeHostname (hostname : Text) : Except PyError Text := do
  require (hostname ≠ [] ∧ CodePoint.ofChar '%' ∉ hostname ∧ hostname.any isSpace = false)
    .outboundHttpRequestInvalid (py "HTTP hostname is invalid")
  match ipAddress hostname with
  | some parsed => .ok parsed.compressed
  | none => normalizeLabels (withoutFinalDot hostname)

/-! ## Section 4: URLs -/

/-- `HttpScheme(value)`. -/
def HttpScheme.ofValue (value : Text) : Option HttpScheme :=
  if value = py "http" then some .http
  else if value = py "https" then some .https
  else none

/-- The port of a scheme. -/
def HttpScheme.defaultPort : HttpScheme → Nat
  | .https => 443
  | .http => 80

/-- `NormalizedHttpUrl`. -/
structure NormalizedHttpUrl where
  scheme : HttpScheme
  hostname : Text
  port : Nat
  target : Text
  canonicalUrl : Text
  deriving DecidableEq

namespace NormalizedHttpUrl

/-- `NormalizedHttpUrl(…)`. -/
def new (scheme : HttpScheme) (hostname : Text) (port : Nat) (target canonicalUrl : Text) :
    Except PyError NormalizedHttpUrl := do
  require (hostname ≠ []) .typeError (py "hostname must be a non-empty string")
  require (1 ≤ port ∧ port ≤ 65535) .valueError (py "port must be between 1 and 65535")
  require (startsWith target (py "/")) .typeError (py "target must be an origin-form string")
  .ok ⟨scheme, hostname, port, target, canonicalUrl⟩

/-- `f"[{hostname}]" if ":" in hostname else hostname`, with a port other than the default. -/
def authorityOf (scheme : HttpScheme) (hostname : Text) (port : Nat) : Text :=
  let host := if CodePoint.ofChar ':' ∈ hostname then py "[" ++ hostname ++ py "]" else hostname
  if port = scheme.defaultPort then host else host ++ py ":" ++ .ofNat port

def authority (url : NormalizedHttpUrl) : Text := authorityOf url.scheme url.hostname url.port

/-- `url.ip_literal`. -/
def ipLiteral (url : NormalizedHttpUrl) : Option ResolvedHttpAddress :=
  (ResolvedHttpAddress.new url.hostname).toOption

end NormalizedHttpUrl

def isHexDigit (c : CodePoint) : Bool := c ∈ py "0123456789abcdefABCDEF"

/-- Whether every `%` starts a percent escape. -/
def hasValidEscapes : Text → Bool
  | [] => true
  | c :: rest =>
    if c = CodePoint.ofChar '%' then
      match rest with
      | a :: b :: rest => isHexDigit a && isHexDigit b && hasValidEscapes rest
      | _ => false
    else
      hasValidEscapes rest

/-- The upper case of a hexadecimal digit. -/
def upperHex (c : CodePoint) : CodePoint := if 0x61 ≤ c.val ∧ c.val ≤ 0x66 then c - 32 else c

/-- `_PERCENT_ESCAPE.sub(lambda match: match.group(0).upper(), t)`. -/
def upperEscapes : Text → Text
  | [] => []
  | c :: rest =>
    if c = CodePoint.ofChar '%' then
      match rest with
      | a :: b :: rest =>
        if isHexDigit a && isHexDigit b then c :: upperHex a :: upperHex b :: upperEscapes rest
        else c :: upperEscapes (a :: b :: rest)
      | rest => c :: upperEscapes rest
    else
      c :: upperEscapes rest

/-- `_normalize_url_component`. -/
def normalizeUrlComponent (value safe : Text) : Except PyError Text := do
  require (hasValidEscapes value) .outboundHttpRequestInvalid
    (py "HTTP URL contains an invalid percent escape")
  match NetworkLibrary.quote value safe with
  | none => raise .outboundHttpRequestInvalid (py "HTTP URL component is not valid Unicode")
  | some encoded => .ok (upperEscapes encoded)

/-- `normalize_http_url` after the authority has been split. -/
def normalizeSplit (scheme : HttpScheme) (parts : SplitResult) : Except PyError NormalizedHttpUrl :=
  match parts.hostname with
  | none => raise .outboundHttpRequestInvalid (py "HTTP URL must contain a hostname")
  | some hostnameValue => do
    require (parts.netloc ≠ []) .outboundHttpRequestInvalid
      (py "HTTP URL must contain a hostname")
    require (parts.username = none ∧ parts.password = none) .outboundHttpRequestInvalid
      (py "HTTP URL user information is not supported")
    require (endsWith parts.netloc (py ":") = false) .outboundHttpRequestInvalid
      (py "HTTP URL port is empty")
    let hostname ← normalizeHostname hostnameValue
    let port := parts.port.getD scheme.defaultPort
    require (1 ≤ port ∧ port ≤ 65535) .outboundHttpRequestInvalid
      (py "HTTP URL port is outside the supported range")
    let path ← normalizeUrlComponent (if parts.path = [] then py "/" else parts.path)
      (py "/:@!$&'()*+,;=-._~%")
    require (startsWith path (py "//") = false) .outboundHttpRequestInvalid
      (py "HTTP URL path must use unambiguous origin form")
    let query ← normalizeUrlComponent parts.query (py "/?:@!$&'()*+,;=-._~%")
    let target := if query = [] then path else path ++ py "?" ++ query
    let authority := NormalizedHttpUrl.authorityOf scheme hostname port
    let canonicalUrl := scheme.value ++ py "://" ++ authority ++ target
    require (isAscii canonicalUrl) .unicodeEncodeError
      (py "'ascii' codec can't encode characters")
    require (canonicalUrl.length ≤ MAX_URL_BYTES) .outboundHttpRequestInvalid
      (py "HTTP URL exceeds its canonical byte limit")
    NormalizedHttpUrl.new scheme hostname port target canonicalUrl

/-- `normalize_http_url`. -/
def normalizeHttpUrl (url : Text) : Except PyError NormalizedHttpUrl :=
  match utf8Length url with
  | none => raise .outboundHttpRequestInvalid (py "HTTP URL is not valid Unicode")
  | some urlSize => do
    require (url ≠ [] ∧ urlSize ≤ MAX_URL_BYTES ∧ CodePoint.ofChar '\\' ∉ url ∧
        CodePoint.ofChar '#' ∉ url ∧ url.any isSpace = false)
      .outboundHttpRequestInvalid (py "HTTP URL contains an unsupported character")
    match NetworkLibrary.urlsplit url with
    | none => raise .outboundHttpRequestInvalid (py "HTTP URL authority is invalid")
    | some parts =>
      match HttpScheme.ofValue (lower parts.scheme) with
      | none => raise .outboundHttpRequestInvalid (py "HTTP URL authority is invalid")
      | some scheme => normalizeSplit scheme parts

/-! ## Section 5: Policy -/

/-- `NetworkResolution`. -/
structure NetworkResolution where
  hostname : Text
  addresses : List ResolvedHttpAddress
  canonicalHostname : Option Text

/-- `_normalize_hostname` of a name that may be missing. -/
def normalizeCanonical : Option Text → Except PyError (Option Text)
  | none => .ok none
  | some name => do
    let name ← normalizeHostname name
    .ok (some name)

/-- `NetworkResolution(…)`. -/
def NetworkResolution.new (hostname : Text) (addresses : List ResolvedHttpAddress)
    (canonicalHostname : Option Text) : Except PyError NetworkResolution := do
  let hostname ← normalizeHostname hostname
  let canonicalHostname ← normalizeCanonical canonicalHostname
  .ok ⟨hostname, addresses.eraseDups, canonicalHostname⟩

inductive NetworkPolicyPhase where
  | preResolution
  | postResolution
  deriving DecidableEq, Repr

inductive NetworkPolicyOutcome where
  | allow
  | deny
  deriving DecidableEq, Repr

inductive NetworkPolicyReason where
  | allowed
  | policyNotFound
  | destinationNotAllowed
  deriving DecidableEq, Repr

/-- `NetworkPolicyRequest`; its request class is always the baseline. -/
structure NetworkPolicyRequest where
  policyId : NetworkPolicyId
  sessionId : Nat
  operationId : Nat
  phase : NetworkPolicyPhase
  method : HttpMethod
  scheme : HttpScheme
  hostname : Text
  port : Nat
  redirectDepth : Nat
  addresses : List ResolvedHttpAddress
  canonicalHostname : Option Text
  deriving DecidableEq

/-- `NetworkPolicyRequest(…)`. -/
def NetworkPolicyRequest.new (facts : NetworkPolicyRequest) : Except PyError NetworkPolicyRequest := do
  let hostname ← normalizeHostname facts.hostname
  require (1 ≤ facts.port ∧ facts.port ≤ 65535) .valueError
    (py "port must be between 1 and 65535")
  let canonicalHostname ← normalizeCanonical facts.canonicalHostname
  require (¬(facts.phase = .preResolution ∧ (facts.addresses ≠ [] ∨ canonicalHostname.isSome)))
    .valueError (py "pre-resolution policy facts must not contain resolution results")
  require (¬(facts.phase = .postResolution ∧ facts.addresses = [])) .valueError
    (py "post-resolution policy facts require addresses")
  .ok { facts with hostname, canonicalHostname }

/-- `NetworkPolicyDecision`. -/
structure NetworkPolicyDecision where
  outcome : NetworkPolicyOutcome
  reason : NetworkPolicyReason
  consistent : outcome = .allow ↔ reason = .allowed
  deriving DecidableEq

/-- `NetworkPolicyDecision(…)`. -/
def NetworkPolicyDecision.new (outcome : NetworkPolicyOutcome) (reason : NetworkPolicyReason) :
    Except PyError NetworkPolicyDecision :=
  if h : outcome = .allow ↔ reason = .allowed then
    .ok ⟨outcome, reason, h⟩
  else
    match outcome with
    | .allow => raise .valueError (py "allow decisions require the allowed reason")
    | .deny => raise .valueError (py "deny decisions require a denial reason")

end Library
