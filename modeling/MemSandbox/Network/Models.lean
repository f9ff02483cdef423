import MemSandbox.Core.Errors

/-! # Controlled HTTP values

    `network/models.py`: the limits and grants of outbound HTTP, its requests
    and responses, and the checks of a grant.  Values that their constructors
    refuse cannot be built: the checks that later code relies on are fields of
    the structures. -/

open Python

/-! ## Section 1: Headers -/

inductive HttpMethod where
  | get
  | head
  deriving DecidableEq, Repr

inductive HttpScheme where
  | http
  | https
  deriving DecidableEq, Repr

inductive HttpEventDelivery where
  | bestEffort
  | required
  deriving DecidableEq, Repr

/-- `str(method)`. -/
def HttpMethod.value : HttpMethod → Text
  | .get => py "GET"
  | .head => py "HEAD"

/-- `str(scheme)`. -/
def HttpScheme.value : HttpScheme → Text
  | .http => py "http"
  | .https => py "https"

/-- An ASCII letter or digit. -/
def isAlphanumeric (c : CodePoint) : Bool :=
  (0x30 ≤ c.val && c.val ≤ 0x39) || (0x41 ≤ c.val && c.val ≤ 0x5A) ||
    (0x61 ≤ c.val && c.val ≤ 0x7A)

/-- `_IDENTIFIER.fullmatch(value)`. -/
def isIdentifier : Text → Bool
  | [] => false
  | c :: rest => isAlphanumeric c && rest.length ≤ 127 &&
      rest.all fun c => isAlphanumeric c || c ∈ py "_.:-"

/-- `NetworkPolicyId`. -/
structure NetworkPolicyId where
  value : Text
  identifier : isIdentifier value = true
  deriving DecidableEq

/-- `CredentialRouteId`. -/
structure CredentialRouteId where
  value : Text
  identifier : isIdentifier value = true
  deriving DecidableEq

/-- The characters of a header name. -/
def isTokenCharacter (c : CodePoint) : Bool := isAlphanumeric c || c ∈ py "!#$%&'*+-.^_`|~"

/-- `_HEADER_NAME.fullmatch(name)`. -/
def isHeaderName (name : Text) : Bool := name ≠ [] && name.all isTokenCharacter

/-- A character that no header value may contain. -/
def isControlCharacter (c : CodePoint) : Bool := (c.val < 32 && c.val ≠ 9) || c.val = 127

def MAX_HEADER_VALUE_BYTES : Nat := 64 * 1024

/-- `HttpHeader`. -/
structure HttpHeader where
  name : Text
  value : Text
  name_token : isHeaderName name = true
  printable : value.any isControlCharacter = false
  utf8 : ValidUtf8 value
  bounded : ∀ n, utf8Length value = some n → n ≤ MAX_HEADER_VALUE_BYTES
  deriving DecidableEq

namespace HttpHeader

/-- `HttpHeader(name, value)`. -/
def new (name value : Text) : Except PyError HttpHeader :=
  if hname : isHeaderName name = true then
    if hprintable : value.any isControlCharacter = false then
      match hsize : utf8Length value with
      | none => raise .outboundHttpRequestInvalid (py "HTTP header value must be valid UTF-8")
      | some size =>
        if hbound : size ≤ MAX_HEADER_VALUE_BYTES then
          .ok {
            name, value
            name_token := hname
            printable := hprintable
            utf8 := by
              unfold utf8Length at hsize
              rw [Option.map_eq_some_iff] at hsize
              obtain ⟨b, hb, _⟩ := hsize
              exact Option.isSome_iff_exists.mpr ⟨b, hb⟩
            bounded := by
              intro n hn
              rw [hsize] at hn
              rw [← Option.some.inj hn]
              exact hbound }
        else
          raise .outboundHttpLimitExceeded (py "HTTP header value exceeds its byte limit")
    else
      raise .outboundHttpRequestInvalid (py "HTTP header value contains a control character")
  else
    raise .outboundHttpRequestInvalid (py "HTTP header name is invalid")

/-- The bytes of one header line. -/
def size (header : HttpHeader) : Nat :=
  header.name.length + 2 + (utf8Length header.value).getD 0 + 2

end HttpHeader

/-- `_headers_size`. -/
def headersSize (headers : List HttpHeader) : Nat := (headers.map HttpHeader.size).sum

/-- Dropping headers makes them no larger. -/
theorem headersSize_filter_le (p : HttpHeader → Bool) (headers : List HttpHeader) :
    headersSize (headers.filter p) ≤ headersSize headers := by
  unfold headersSize
  apply List.Sublist.sum_le_sum
  · exact List.filter_sublist.map _
  · exact fun n _ => Nat.zero_le n

/-! ## Section 2: Limits and grants -/

/-- `HttpTransferLimits`. -/
structure HttpTransferLimits where
  timeoutSeconds : ℚ := 10
  maxRequestHeaderBytes : Nat := 16 * 1024
  maxRequestBodyBytes : Nat := 0
  maxResponseHeaderBytes : Nat := 64 * 1024
  maxResponseBodyBytes : Nat := 512 * 1024
  maxDecompressedResponseBytes : Nat := 512 * 1024
  maxRedirects : Nat := 3
  maxRequests : Nat := 4
  maxTransferredBytes : Nat := 1024 * 1024
  timeout_positive : 0 < timeoutSeconds
  requests_positive : 0 < maxRequests
  decompressed_ge : maxResponseBodyBytes ≤ maxDecompressedResponseBytes
  deriving DecidableEq

/-- `HttpTransferLimits.is_within`. -/
def HttpTransferLimits.isWithin (limits ceiling : HttpTransferLimits) : Bool :=
  limits.timeoutSeconds ≤ ceiling.timeoutSeconds &&
  limits.maxRequestHeaderBytes ≤ ceiling.maxRequestHeaderBytes &&
  limits.maxRequestBodyBytes ≤ ceiling.maxRequestBodyBytes &&
  limits.maxResponseHeaderBytes ≤ ceiling.maxResponseHeaderBytes &&
  limits.maxResponseBodyBytes ≤ ceiling.maxResponseBodyBytes &&
  limits.maxDecompressedResponseBytes ≤ ceiling.maxDecompressedResponseBytes &&
  limits.maxRedirects ≤ ceiling.maxRedirects &&
  limits.maxRequests ≤ ceiling.maxRequests &&
  limits.maxTransferredBytes ≤ ceiling.maxTransferredBytes

/-- `OutboundHttpGrant`. -/
structure OutboundHttpGrant where
  policyId : NetworkPolicyId
  methods : List HttpMethod := [.get, .head]
  schemes : List HttpScheme := [.https]
  limits : HttpTransferLimits
  credentialRoutes : List CredentialRouteId := []
  eventDelivery : HttpEventDelivery := .required
  methods_nonempty : methods ≠ []
  schemes_nonempty : schemes ≠ []

/-- `OutboundHttpRequest`; `scheme` is the scheme of its URL. -/
structure OutboundHttpRequest where
  method : HttpMethod
  url : Text
  limits : HttpTransferLimits
  headers : List HttpHeader := []
  body : Bytes := []
  credentialRoute : Option CredentialRouteId := none
  scheme : HttpScheme
  headers_bounded : headersSize headers ≤ limits.maxRequestHeaderBytes
  body_bounded : body.length ≤ limits.maxRequestBodyBytes
  bodyless : body = []

/-- `HttpTransferUsage`. -/
structure HttpTransferUsage where
  requestCount : Nat
  requestBytes : Nat
  responseBytes : Nat
  responseWireBytes : Nat
  decompressedResponseBytes : Nat
  redirectCount : Nat
  durationMs : ℚ
  count_positive : 0 < requestCount
  wire_ge : responseBytes ≤ responseWireBytes
  duration_nonneg : 0 ≤ durationMs

/-- `HttpTransferUsage(…)`. -/
def HttpTransferUsage.new (requestCount requestBytes responseBytes responseWireBytes
    decompressedResponseBytes redirectCount : Nat) (durationMs : ℚ) :
    Except PyError HttpTransferUsage :=
  if hcount : 0 < requestCount then
    if hwire : responseBytes ≤ responseWireBytes then
      if hduration : 0 ≤ durationMs then
        .ok ⟨requestCount, requestBytes, responseBytes, responseWireBytes,
          decompressedResponseBytes, redirectCount, durationMs, hcount, hwire, hduration⟩
      else
        raise .valueError (py "duration_ms must be non-negative and finite")
    else
      raise .valueError (py "response_wire_bytes must include response_bytes")
  else
    raise .valueError (py "request_count must be positive")

/-- `OutboundHttpResponse`. -/
structure OutboundHttpResponse where
  statusCode : Nat
  headers : List HttpHeader
  body : Bytes
  usage : HttpTransferUsage
  final : 200 ≤ statusCode ∧ statusCode ≤ 599

/-- `OutboundHttpResponse(…)`. -/
def OutboundHttpResponse.new (statusCode : Nat) (headers : List HttpHeader) (body : Bytes)
    (usage : HttpTransferUsage) : Except PyError OutboundHttpResponse :=
  if hfinal : 200 ≤ statusCode ∧ statusCode ≤ 599 then
    .ok ⟨statusCode, headers, body, usage, hfinal⟩
  else
    raise .valueError (py "status_code must be between 200 and 599")

namespace OutboundHttpGrant

/-- `OutboundHttpGrant.require_request`. -/
def requireRequest (grant : OutboundHttpGrant) (request : OutboundHttpRequest) :
    Except PyError Unit := do
  require (request.method ∈ grant.methods) .outboundHttpDenied
    (py "HTTP method is outside the effective grant")
  require (request.scheme ∈ grant.schemes) .outboundHttpDenied
    (py "HTTP scheme is outside the effective grant")
  require (request.credentialRoute.all (· ∈ grant.credentialRoutes)) .outboundHttpDenied
    (py "credential route is outside the effective grant")
  require (request.limits.isWithin grant.limits) .outboundHttpLimitExceeded
    (py "requested HTTP limits exceed the effective grant")

/-- The checks of `require_response` on what was transferred. -/
def requireUsage (limits : HttpTransferLimits) (body : Bytes) (usage : HttpTransferUsage) :
    Except PyError Unit := do
  require (usage.requestCount ≤ limits.maxRequests) .outboundHttpLimitExceeded
    (py "HTTP request count exceeds the requested limit")
  require (usage.responseBytes ≤ limits.maxResponseBodyBytes) .outboundHttpLimitExceeded
    (py "HTTP response usage exceeds the requested limit")
  require (usage.decompressedResponseBytes ≤ limits.maxDecompressedResponseBytes)
    .outboundHttpLimitExceeded (py "HTTP decompressed usage exceeds the requested limit")
  require (usage.decompressedResponseBytes = body.length) .outboundHttpLimitExceeded
    (py "HTTP decompressed usage does not match the published response body")
  require (usage.redirectCount ≤ limits.maxRedirects) .outboundHttpLimitExceeded
    (py "HTTP redirect count exceeds the requested limit")
  require (usage.requestBytes + usage.responseWireBytes ≤ limits.maxTransferredBytes)
    .outboundHttpLimitExceeded (py "HTTP transferred bytes exceed the requested limit")

/-- The check of `require_response` on the duration. -/
def requireDuration (limits : HttpTransferLimits) (usage : HttpTransferUsage) :
    Except PyError Unit :=
  require (usage.durationMs ≤ limits.timeoutSeconds * 1000) .outboundHttpLimitExceeded
    (py "HTTP duration exceeds the requested limit")

/-- `OutboundHttpGrant.require_response`. -/
def requireResponse (grant : OutboundHttpGrant) (request : OutboundHttpRequest)
    (response : OutboundHttpResponse) : Except PyError Unit := do
  grant.requireRequest request
  require (200 ≤ response.statusCode) .outboundHttpResponseInvalid
    (py "outbound HTTP response must be a final response")
  require (headersSize response.headers ≤ request.limits.maxResponseHeaderBytes)
    .outboundHttpLimitExceeded (py "HTTP response headers exceed the requested limit")
  require (response.body.length ≤ request.limits.maxDecompressedResponseBytes)
    .outboundHttpLimitExceeded
    (py "HTTP decompressed response body exceeds the requested limit")
  requireUsage request.limits response.body response.usage
  requireDuration request.limits response.usage
  require (¬(request.method = .head ∧ response.body ≠ [])) .outboundHttpLimitExceeded
    (py "HEAD response contains a body")

end OutboundHttpGrant

/-- `NetworkOperationContext`; whether its cancellation signal is set is asked
    of the environment. -/
structure NetworkOperationContext where
  sessionId : Nat
  operationId : Nat
  grant : OutboundHttpGrant
  deadlineMonotonic : ℚ
  cancellable : Bool := false
  deadline_positive : 0 < deadlineMonotonic

/-- `replace(context, deadline_monotonic=deadline)`. -/
def NetworkOperationContext.withDeadline (context : NetworkOperationContext) (deadline : ℚ)
    (hpositive : 0 < deadline) : NetworkOperationContext :=
  { context with deadlineMonotonic := deadline, deadline_positive := hpositive }
