import MemSandbox.Lib.Coroutine
import MemSandbox.Network.Transport

/-! # The outbound HTTP gateway

    `network/gateway.py`: one request is admitted, sent, and followed through
    its redirects.  The policy, the resolver and the transport are not
    trusted: each call of one ends in any way, and the object it returns may
    be of another type or have fields of other types.

    Copies of immutable values are the values themselves, except where the
    copy runs a constructor that parses or checks.  `GatewayState.history` is
    not in the source: it is what the gateway has asked for, was answered and
    did, in order. -/

open Python

def REDIRECT_STATUSES : List Nat := [301, 302, 303, 307, 308]

def CONTROLLED_REQUEST_HEADERS : List Text :=
  [py "accept-encoding", py "authorization", py "connection", py "content-length", py "cookie",
    py "expect", py "host", py "proxy-authorization", py "proxy-connection", py "te", py "trailer",
    py "transfer-encoding", py "upgrade"]

def FRAMING_RESPONSE_HEADERS : List Text :=
  [py "connection", py "content-encoding", py "content-length", py "transfer-encoding"]

def SENSITIVE_RESPONSE_HEADERS : List Text :=
  [py "authentication-info", py "proxy-authenticate", py "proxy-authentication-info",
    py "set-cookie", py "set-cookie2", py "www-authenticate"]

/-! ## Section 1: What the gateway has seen -/

/-- How a call of a collaborator ends; `baseException` stands for exceptions
    such as `GeneratorExit`, which the gateway takes for failures. -/
inductive Reply (α : Type) where
  | returned (a : α)
  | raised (e : Raised)
  | baseException

/-- What `task.result()` does. -/
def Reply.result {α : Type} : Reply α → Except Raised α
  | .returned a => .ok a
  | .raised e => .error e
  | .baseException => .error (.error ⟨.collaboratorFailed, []⟩)

/-- The fields of a `NetworkPolicyDecision` of a policy. -/
structure PolicyReply where
  outcome : Option NetworkPolicyOutcome
  reason : Option NetworkPolicyReason

/-- The fields of a `NetworkResolution` of a resolver. -/
structure ResolutionReply where
  hostname : Option Text
  addresses : Option (List (Option Text))
  canonicalHostname : Option (Option Text)

/-- The fields of a `HttpTransportResponse` of a transport; `exact` is false
    for an instance of a subclass. -/
structure TransportReply where
  exact : Bool
  statusCode : Option Int
  headers : Option (List (Option (Text × Text)))
  body : Option Bytes
  headerBytes : Option Int
  headerWireBytes : Option Int
  metadataWireBytes : Option Int
  bodyWireBytes : Option Int
  wireBytes : Option Int
  bodyOmitted : Option Bool

/-- One entry of the history; a reply is `none` where the object is of
    another type. -/
inductive GatewayEvent where
  | evaluated (facts : NetworkPolicyRequest) (reply : Reply (Option PolicyReply))
  | resolved (hostname : Text) (port : Nat) (reply : Reply (Option ResolutionReply))
  | sent (attempt : HttpTransportRequest)
  | answered (reply : Reply (Option TransportReply))
  | accepted (response : HttpTransportResponse)
  | followed (url : NormalizedHttpUrl)
  | built (response : OutboundHttpResponse)
  | failed (e : Raised)

structure GatewayState where
  now : ℚ
  history : List GatewayEvent

/-- The state with more history. -/
def GatewayState.record (s : GatewayState) (events : List GatewayEvent) : GatewayState :=
  { s with history := s.history ++ events }

abbrev Gateway := Coroutine GatewayState Raised

namespace Gateway

/-- The history grows. -/
def record (event : GatewayEvent) : Gateway Unit :=
  .step fun s r s' => r = .ok () ∧ s' = s.record [event]

/-- `raise` of the gateway itself. -/
def fail {α : Type} (e : PyError) : Gateway α := do
  record (.failed (.error e))
  throw (.error e)

/-- A synchronous part of the gateway. -/
def check {α : Type} : Except PyError α → Gateway α
  | .ok a => pure a
  | .error e => fail e

/-- `loop.time()`. -/
def time : Gateway ℚ :=
  .step fun s r s' => ∃ t, s.now ≤ t ∧ r = .ok t ∧ s' = { s with now := t }

/-- `_cancellation_is_active`; the signal is code of the caller. -/
def cancellationIsActive (context : NetworkOperationContext) : Gateway Bool :=
  if context.cancellable then
    .step fun s r s' => (∃ b, r = .ok b ∧ s' = s) ∨ ∃ e, r = .error e ∧ s' = s.record [.failed e]
  else
    pure false

/-- `_caller_is_cancelling`. -/
def callerIsCancelling : Gateway Bool := .step fun s r s' => ∃ b, r = .ok b ∧ s' = s

/-- The clock has not reached the deadline. -/
def requireTime (context : NetworkOperationContext) : Gateway Unit := do
  let now ← time
  check (require (now < context.deadlineMonotonic) .outboundHttpTimeout
    (py "outbound HTTP operation exceeded its deadline"))

/-- `_require_active`. -/
def requireActive (context : NetworkOperationContext) : Gateway Unit := do
  let active ← cancellationIsActive context
  check (require (active = false) .outboundHttpCancelled
    (py "outbound HTTP operation was cancelled"))
  requireTime context

/-! ## Section 2: Calls of collaborators -/

/-- `operation()`: what is recorded before the coroutine of the collaborator
    exists, and how a call that raises is recorded. -/
def invoke {α : Type} (begun : List GatewayEvent) (ended : Reply α → GatewayEvent) : Gateway Unit :=
  .step fun s r s' =>
    (r = .ok () ∧ s' = s.record begun) ∨
    ∃ reply : Reply α, ∃ e, reply.result = .error e ∧ r = .error e ∧
      s' = s.record (begun ++ [ended reply])

/-- `asyncio.wait((task,), timeout=remaining)`: the gateway is cancelled, the
    time is over, or the task is done. -/
def waitFor {α : Type} (ended : Reply α → GatewayEvent) : Gateway (Option (Except Raised α)) :=
  .await fun s r s' =>
    (r = .error .cancelledError ∧ s' = s.record [.failed .cancelledError]) ∨
    (r = .ok none ∧ s' = s) ∨
    ∃ reply : Reply α, r = .ok (some reply.result) ∧ s' = s.record [ended reply]

/-- `_await_collaborator` once its task exists. -/
def awaitTask {α : Type} (ended : Reply α → GatewayEvent) (context : NetworkOperationContext) :
    Gateway α := do
  match ← waitFor ended with
  | none => fail ⟨.outboundHttpTimeout, py "outbound HTTP operation exceeded its deadline"⟩
  | some result =>
    requireTime context
    let result ← .ofExcept result
    requireActive context
    return result

/-- `_await_collaborator`; `remaining` is positive before the deadline. -/
def awaitCollaborator {α : Type} (begun : Except PyError (List GatewayEvent))
    (ended : Reply α → GatewayEvent) (context : NetworkOperationContext) : Gateway α := do
  requireActive context
  requireTime context
  let begun ← check begun
  invoke begun ended
  awaitTask ended context

/-- What the caller of a collaborator has after its `except` clauses. -/
inductive Collaborated (α : Type) where
  | returned (a : α)
  | failed
  | stable (cls : ErrorClass)

/-- The `except` clauses around `_await_collaborator`; `stable` are the classes
    of failures that the caller raises again under its own message. -/
def handle {α : Type} (stable : List ErrorClass) (context : NetworkOperationContext) :
    Raised → Gateway (Collaborated α)
  | .exit => throw .exit
  | .cancelledError => do
    if ← callerIsCancelling then throw .cancelledError else return .failed
  | .error e =>
    if e.cls = .outboundHttpCancelled then do
      if ← cancellationIsActive context then return .stable .outboundHttpCancelled
      else return .failed
    else if e.cls ∈ stable then
      return .stable e.cls
    else
      return .failed

/-- A call of a collaborator within its `try` statement. -/
def collaborate {α : Type} (stable : List ErrorClass) (context : NetworkOperationContext)
    (x : Gateway α) : Gateway (Collaborated α) :=
  tryCatch (do return .returned (← x)) (handle stable context)

end Gateway

/-! ## Section 3: Policy and resolution -/

/-- `_validated_policy_decision`. -/
def validatedPolicyDecision : Option PolicyReply → Option NetworkPolicyDecision
  | some ⟨some outcome, some reason⟩ => (NetworkPolicyDecision.new outcome reason).toOption
  | _ => none

section Library

variable [NetworkLibrary]

/-- `_copy_resolved_addresses`. -/
def copyResolvedAddresses (addresses : List ResolvedHttpAddress) :
    Except PyError (List ResolvedHttpAddress) :=
  addresses.mapM fun address => ResolvedHttpAddress.new address.value

/-- `_validated_resolution`. -/
def validatedResolution (resolution : Option ResolutionReply) (expectedHostname : Text) :
    Option NetworkResolution := do
  let resolution ← resolution
  let hostname ← resolution.hostname
  let addresses ← resolution.addresses
  let canonicalHostname ← resolution.canonicalHostname
  let validatedAddresses ← addresses.mapM fun address => do
    let value ← address
    (ResolvedHttpAddress.new value).toOption
  let validated ← (NetworkResolution.new hostname validatedAddresses canonicalHostname).toOption
  if validated.hostname = expectedHostname then some validated else none

namespace Gateway

/-- What the policy is asked. -/
def policyFacts (url : NormalizedHttpUrl) (method : HttpMethod) (redirectDepth : Nat)
    (addresses : List ResolvedHttpAddress) (canonicalHostname : Option Text)
    (phase : NetworkPolicyPhase) (context : NetworkOperationContext) :
    Except PyError NetworkPolicyRequest := do
  let addresses ← copyResolvedAddresses addresses
  NetworkPolicyRequest.new {
    policyId := context.grant.policyId
    sessionId := context.sessionId
    operationId := context.operationId
    phase, method
    scheme := url.scheme
    hostname := url.hostname
    port := url.port
    redirectDepth, addresses, canonicalHostname }

/-- `_require_policy`. -/
def requirePolicy (url : NormalizedHttpUrl) (method : HttpMethod) (redirectDepth : Nat)
    (addresses : List ResolvedHttpAddress) (canonicalHostname : Option Text)
    (phase : NetworkPolicyPhase) (context : NetworkOperationContext) : Gateway Unit := do
  let facts ← check (policyFacts url method redirectDepth addresses canonicalHostname phase context)
  let decision ← collaborate [.outboundHttpTimeout] context
    (awaitCollaborator (.ok []) (.evaluated facts) context)
  match decision with
  | .stable .outboundHttpCancelled =>
    fail ⟨.outboundHttpCancelled, py "network policy evaluation was cancelled"⟩
  | .stable _ => fail ⟨.outboundHttpTimeout, py "network policy evaluation timed out"⟩
  | .failed => fail ⟨.outboundHttpDenied, py "network policy evaluation failed closed"⟩
  | .returned decision =>
    match validatedPolicyDecision decision with
    | none => fail ⟨.outboundHttpDenied, py "network policy evaluation failed closed"⟩
    | some validated => do
      check (require (validated.outcome = .allow) .outboundHttpDenied
        (py "network policy denied the destination"))
      requireActive context

/-- `_resolve` of a name. -/
def resolveName (url : NormalizedHttpUrl) (context : NetworkOperationContext) :
    Gateway NetworkResolution := do
  let resolution ← collaborate [.outboundHttpTimeout, .outboundHttpResolutionFailed] context
    (awaitCollaborator (.ok []) (.resolved url.hostname url.port) context)
  match resolution with
  | .stable .outboundHttpCancelled =>
    fail ⟨.outboundHttpCancelled, py "controlled destination resolution was cancelled"⟩
  | .stable .outboundHttpTimeout =>
    fail ⟨.outboundHttpTimeout, py "controlled destination resolution timed out"⟩
  | .stable _ | .failed =>
    fail ⟨.outboundHttpResolutionFailed, py "controlled destination resolution failed"⟩
  | .returned resolution =>
    match validatedResolution resolution url.hostname with
    | none => fail ⟨.outboundHttpResolutionFailed, py "controlled destination resolution failed"⟩
    | some validated => do
      requireActive context
      return validated

/-- `_resolve`. -/
def resolve (url : NormalizedHttpUrl) (context : NetworkOperationContext) :
    Gateway NetworkResolution :=
  match url.ipLiteral with
  | some literal => check (NetworkResolution.new url.hostname [literal] none)
  | none => resolveName url context

end Gateway

/-! ## Section 4: Requests and responses of an attempt -/

/-- `_require_supported_request`. -/
def requireSupportedRequest (request : OutboundHttpRequest) : Except PyError Unit := do
  require (request.credentialRoute = none) .outboundHttpDenied
    (py "credential routing is not available in this transport")
  let step := fun (seen : List Text) (header : HttpHeader) => do
    let name := lower header.name
    require (name ∉ seen) .outboundHttpDenied
      (py "duplicate HTTP request headers are not supported")
    require (¬(name ∈ CONTROLLED_REQUEST_HEADERS ∨ startsWith name (py "proxy-")))
      .outboundHttpDenied (py "HTTP request header is controlled by the gateway")
    return name :: seen
  let _ ← request.headers.foldlM step []
  return

/-- `_transport_headers`. -/
def transportHeaders (url : NormalizedHttpUrl) (requestHeaders : List HttpHeader) :
    Except PyError (List HttpHeader) := do
  let host ← HttpHeader.new (py "Host") url.authority
  let connection ← HttpHeader.new (py "Connection") (py "close")
  let acceptEncoding ← HttpHeader.new (py "Accept-Encoding") (py "gzip, deflate")
  return host :: connection :: acceptEncoding :: requestHeaders

/-- `_copy_transport_request`. -/
def copyTransportRequest (request : HttpTransportRequest) : Except PyError HttpTransportRequest := do
  let url := request.destination.url
  let url ← NormalizedHttpUrl.new url.scheme url.hostname url.port url.target url.canonicalUrl
  let address ← ResolvedHttpAddress.new request.destination.address.value
  let headers ← request.headers.mapM fun header => HttpHeader.new header.name header.value
  return { request with destination := ⟨url, address⟩, headers }

/-- `_response_omits_body`. -/
def responseOmitsBody (method : HttpMethod) (statusCode : Nat) : Bool :=
  method = .head || statusCode ∈ [204, 205, 304]

/-- `_redirect_location`. -/
def redirectLocation (headers : List HttpHeader) : Except PyError (Option Text) := do
  let values := headerValues headers (py "location")
  require (values.length ≤ 1) .outboundHttpResponseInvalid
    (py "HTTP redirect has multiple locations")
  require (values.head? ≠ some []) .outboundHttpResponseInvalid
    (py "HTTP redirect location is empty")
  return values.head?

/-- The refusal of a malformed response. -/
def invalidResponse {α : Type} : Except PyError α :=
  raise .outboundHttpResponseInvalid (py "HTTP transport returned an invalid response")

/-- The field of an untrusted object. -/
def requireField {α : Type} : Option α → Except PyError α
  | some a => .ok a
  | none => invalidResponse

/-- `_require_transport_headers`. -/
def requireTransportHeaders (headers : Option (List (Option (Text × Text)))) :
    Except PyError (List HttpHeader) := do
  let headers ← requireField headers
  headers.mapM fun header => do
    let (name, value) ← requireField header
    requireField (HttpHeader.new name value).toOption

/-- `_require_transport_response`: the response built again of its fields. -/
def validatedTransportResponse (response : TransportReply) : Except PyError HttpTransportResponse := do
  if !response.exact then
    invalidResponse
  let status ← requireField response.statusCode
  let headers ← requireTransportHeaders response.headers
  let body ← requireField response.body
  let bodyOmitted ← requireField response.bodyOmitted
  let headerBytes ← requireField response.headerBytes
  let headerWireBytes ← requireField response.headerWireBytes
  let metadataWireBytes ← requireField response.metadataWireBytes
  let bodyWireBytes ← requireField response.bodyWireBytes
  let wireBytes ← requireField response.wireBytes
  rewrap (HttpTransportResponse.new status headers body headerBytes headerWireBytes
      metadataWireBytes bodyWireBytes wireBytes bodyOmitted)
    (fun cls => cls.isTypeError || cls.isValueError) .outboundHttpResponseInvalid
    (py "HTTP transport returned an invalid response")

/-- `validated.body_omitted` as it has to be. -/
def expectedBodyOmitted (method : HttpMethod) (response : HttpTransportResponse) :
    Except PyError Bool :=
  if responseOmitsBody method response.statusCode then
    .ok true
  else if response.statusCode ∈ REDIRECT_STATUSES then do
    let location ← redirectLocation response.headers
    return location.isSome
  else
    .ok false

/-- The check of a declared content length. -/
def requireContentLength (response : HttpTransportResponse) : Except PyError Unit :=
  match headerValues response.headers (py "content-length") with
  | [] => .ok ()
  | [value] => do
    let declared ← parseHttpContentLength value
    require (¬(response.bodyOmitted = false ∧ declared ≠ response.body.length))
      .outboundHttpResponseInvalid (py "HTTP response content length does not match its body")
  | _ => raise .outboundHttpResponseInvalid (py "HTTP response has ambiguous content length")

/-- `_require_transport_response`. -/
def requireTransportResponse (response : TransportReply) (request : HttpTransportRequest) :
    Except PyError HttpTransportResponse := do
  let validated ← validatedTransportResponse response
  require (validated.headerBytes ≤ request.maxResponseHeaderBytes) .outboundHttpLimitExceeded
    (py "HTTP response headers exceed the requested limit")
  require (validated.body.length ≤ request.maxResponseBodyBytes) .outboundHttpLimitExceeded
    (py "HTTP response body exceeds the requested limit")
  require (validated.wireBytes ≤ request.maxResponseWireBytes) .outboundHttpLimitExceeded
    (py "HTTP response wire bytes exceed the requested limit")
  let expected ← expectedBodyOmitted request.method validated
  require (validated.bodyOmitted = expected) .outboundHttpResponseInvalid
    (py "HTTP transport returned inconsistent body evidence")
  requireContentLength validated
  return validated

/-- `_normalize_redirect`. -/
def normalizeRedirect (current : NormalizedHttpUrl) (location : Text) :
    Except PyError NormalizedHttpUrl :=
  match NetworkLibrary.urljoin current.canonicalUrl location with
  | none => raise .outboundHttpResponseInvalid (py "HTTP redirect location is invalid")
  | some redirected =>
    rewrap (normalizeHttpUrl redirected)
      (fun cls => cls = .outboundHttpRequestInvalid || cls.isValueError)
      .outboundHttpResponseInvalid (py "HTTP redirect location is invalid")

/-- `_published_headers`. -/
def publishedHeaders (headers : List HttpHeader) : List HttpHeader :=
  headers.filter fun header =>
    lower header.name ∉ FRAMING_RESPONSE_HEADERS ++ SENSITIVE_RESPONSE_HEADERS

/-! ## Section 5: Decompression -/

/-- A decompressor of `zlib` after `decompress(data, max_length)`: its output,
    its unconsumed tail, and what `flush(length)` adds to the output, with
    `eof` and `unused_data` after it. -/
structure Decompressor where
  output : Bytes
  unconsumedTail : Bytes
  flush : Nat → Option (Bytes × Bool × Bytes)

/-- `zlib`: `decompressobj(bits).decompress(data, max_length)`; `none` stands
    for `zlib.error`. -/
class ZlibLibrary where
  decompress : Int → Bytes → Nat → Option Decompressor

section Zlib

variable [ZlibLibrary]

/-- What one window size makes of the data. -/
inductive Decompressed where
  | invalid
  | exceeded
  | output (output : Bytes)

/-- The body of the loop of `_decompress`. -/
def decompressWith (bits : Int) (data : Bytes) (maximum : Nat) : Decompressed :=
  match ZlibLibrary.decompress bits data (maximum + 1) with
  | none => .invalid
  | some decompressor =>
    if maximum < decompressor.output.length ∨ decompressor.unconsumedTail ≠ [] then
      .exceeded
    else
      match decompressor.flush (maximum - decompressor.output.length + 1) with
      | none => .invalid
      | some (rest, eof, unusedData) =>
        if maximum < (decompressor.output ++ rest).length then .exceeded
        else if !eof || unusedData ≠ [] then .invalid
        else .output (decompressor.output ++ rest)

/-- `_decompress`. -/
def decompress (data : Bytes) (maximum : Nat) : List Int → Except PyError Bytes
  | [] => raise .outboundHttpResponseInvalid (py "HTTP response content encoding is malformed")
  | bits :: windowBits =>
    match decompressWith bits data maximum with
    | .exceeded => raise .outboundHttpLimitExceeded
        (py "HTTP decompressed response body exceeds the requested limit")
    | .invalid => decompress data maximum windowBits
    | .output output => .ok output

def MAX_WBITS : Int := 15

/-- The body of a response of one content encoding. -/
def decodeBody (body : Bytes) (maximum : Nat) (encoding : Text) : Except PyError Bytes := do
  require (CodePoint.ofChar ',' ∉ encoding) .outboundHttpResponseInvalid
    (py "HTTP response content encoding is unsupported")
  if encoding = [] ∨ encoding = py "identity" then
    return body
  else if encoding = py "gzip" then
    decompress body maximum [MAX_WBITS + 16]
  else if encoding = py "deflate" then
    decompress body maximum [MAX_WBITS, -MAX_WBITS]
  else
    raise .outboundHttpResponseInvalid (py "HTTP response content encoding is unsupported")

/-- `_decode_response`. -/
def decodeResponse (response : HttpTransportResponse) (maximum : Nat) :
    Except PyError (Bytes × List HttpHeader) := do
  let encodings := (headerValues response.headers (py "content-encoding")).map (lower ∘ strip)
  require (encodings.length ≤ 1) .outboundHttpResponseInvalid
    (py "HTTP response has multiple content encodings")
  let body ← decodeBody response.body maximum (encodings.head?.getD (py "identity"))
  require (body.length ≤ maximum) .outboundHttpLimitExceeded
    (py "HTTP decompressed response body exceeds the requested limit")
  return (body, publishedHeaders response.headers)

/-- The body and the headers that a response is published with. -/
def publishedResponse (method : HttpMethod) (response : HttpTransportResponse) (maximum : Nat) :
    Except PyError (Bytes × List HttpHeader) := do
  if responseOmitsBody method response.statusCode then
    require (response.body = []) .outboundHttpResponseInvalid
      (py "bodyless transport response contains a body")
    return ([], publishedHeaders response.headers)
  else
    decodeResponse response maximum

/-! ## Section 6: The attempts of one request -/

/-- The variables of the loop of `_send_bounded`. -/
structure Attempts where
  current : NormalizedHttpUrl
  requestCount : Nat := 0
  redirectCount : Nat := 0
  encodedResponseBytes : Nat := 0
  responseWireBytes : Nat := 0

/-- The next transport request within what remains of the limits. -/
def nextAttempt (request : OutboundHttpRequest) (attempts : Attempts)
    (address : ResolvedHttpAddress) : Except PyError HttpTransportRequest := do
  let limits := request.limits
  let remainingTransfer : Int :=
    limits.maxTransferredBytes - request.body.length - attempts.responseWireBytes
  require (0 ≤ remainingTransfer) .outboundHttpLimitExceeded
    (py "HTTP transferred bytes exceed the requested limit")
  let remainingResponse : Int := limits.maxResponseBodyBytes - attempts.encodedResponseBytes
  require (0 ≤ remainingResponse) .outboundHttpLimitExceeded
    (py "HTTP response body exceeds the requested limit")
  let headers ← transportHeaders attempts.current request.headers
  require (headersSize headers ≤ limits.maxRequestHeaderBytes) .outboundHttpLimitExceeded
    (py "HTTP request headers exceed the requested limit")
  return {
    method := request.method
    destination := ⟨attempts.current, address⟩
    headers
    maxResponseHeaderBytes := limits.maxResponseHeaderBytes
    maxResponseBodyBytes := (min remainingResponse remainingTransfer).toNat
    maxResponseWireBytes := remainingTransfer.toNat }

namespace Gateway

/-- `_send_attempt`. -/
def sendAttempt (request : HttpTransportRequest) (context : NetworkOperationContext) :
    Gateway TransportReply := do
  let response ← collaborate
    [.outboundHttpTimeout, .outboundHttpLimitExceeded, .outboundHttpResponseInvalid] context
    (awaitCollaborator ((copyTransportRequest request).map fun copy => [.sent copy]) .answered
      context)
  match response with
  | .stable .outboundHttpCancelled =>
    fail ⟨.outboundHttpCancelled, py "outbound HTTP transport was cancelled"⟩
  | .stable .outboundHttpTimeout =>
    fail ⟨.outboundHttpTimeout, py "outbound HTTP transport timed out"⟩
  | .stable .outboundHttpLimitExceeded =>
    fail ⟨.outboundHttpLimitExceeded, py "outbound HTTP transport exceeded a limit"⟩
  | .stable _ => fail ⟨.outboundHttpResponseInvalid, py "outbound HTTP response is invalid"⟩
  | .failed => fail ⟨.outboundHttpTransportFailed, py "outbound HTTP transport attempt failed"⟩
  | .returned none =>
    fail ⟨.outboundHttpResponseInvalid,
      py "outbound HTTP transport returned an invalid response"⟩
  | .returned (some response) => do
    requireActive context
    return response

/-- The loop of `_send_bounded` up to the transport request: the address that
    may be dialled. -/
def requireAdmission (request : OutboundHttpRequest) (context : NetworkOperationContext)
    (attempts : Attempts) : Gateway ResolvedHttpAddress := do
  requireActive context
  check (require (attempts.requestCount < request.limits.maxRequests) .outboundHttpLimitExceeded
    (py "HTTP request count exceeds the requested limit"))
  check (require (attempts.current.scheme ∈ context.grant.schemes) .outboundHttpDenied
    (py "redirect scheme is outside the effective grant"))
  requirePolicy attempts.current request.method attempts.redirectCount [] none .preResolution context
  requireActive context
  let resolution ← resolve attempts.current context
  requireActive context
  match resolution.addresses with
  | [] => fail ⟨.outboundHttpResolutionFailed, py "controlled resolution returned no addresses"⟩
  | address :: _ => do
    check (require (resolution.addresses.all fun address => address.classification = .global)
      .outboundHttpDenied (py "resolved destination contains a prohibited address"))
    requirePolicy attempts.current request.method attempts.redirectCount resolution.addresses
      resolution.canonicalHostname .postResolution context
    requireActive context
    return address

/-- The loop of `_send_bounded` after the last response. -/
def publish (request : OutboundHttpRequest) (context : NetworkOperationContext) (started : ℚ)
    (attempts : Attempts) (response : HttpTransportResponse) : Gateway OutboundHttpResponse := do
  let (body, headers) ← check (publishedResponse request.method response
    request.limits.maxDecompressedResponseBytes)
  requireActive context
  let now ← time
  let durationMs := (now - started) * 1000
  let usage ← check (HttpTransferUsage.new attempts.requestCount request.body.length
    attempts.encodedResponseBytes attempts.responseWireBytes body.length attempts.redirectCount
    durationMs)
  let built ← check (OutboundHttpResponse.new response.statusCode headers body usage)
  record (.built built)
  check (context.grant.requireResponse request built)
  return built

/-- The loop of `_send_bounded`. -/
def attempt (request : OutboundHttpRequest) (context : NetworkOperationContext) (started : ℚ)
    (attempts : Attempts) : Gateway (Attempts ⊕ OutboundHttpResponse) := do
  let limits := request.limits
  let address ← requireAdmission request context attempts
  let next ← check (nextAttempt request attempts address)
  let rawResponse ← sendAttempt next context
  requireActive context
  let rawResponse ← check (requireTransportResponse rawResponse next)
  let attempts : Attempts := { attempts with
    requestCount := attempts.requestCount + 1
    encodedResponseBytes := attempts.encodedResponseBytes + rawResponse.body.length
    responseWireBytes := attempts.responseWireBytes + rawResponse.wireBytes }
  check (require (request.body.length + attempts.responseWireBytes ≤ limits.maxTransferredBytes)
    .outboundHttpLimitExceeded (py "HTTP transferred bytes exceed the requested limit"))
  record (.accepted rawResponse)
  let location ← check (redirectLocation rawResponse.headers)
  match if rawResponse.statusCode ∈ REDIRECT_STATUSES then location else none with
  | some location => do
    check (require (attempts.redirectCount < limits.maxRedirects) .outboundHttpLimitExceeded
      (py "HTTP redirect count exceeds the requested limit"))
    let current ← check (normalizeRedirect attempts.current location)
    record (.followed current)
    return .inl { attempts with current, redirectCount := attempts.redirectCount + 1 }
  | none => do
    let built ← publish request context started attempts rawResponse
    return .inr built

/-- `_send_bounded`. -/
def sendBounded (request : OutboundHttpRequest) (context : NetworkOperationContext) (started : ℚ) :
    Gateway OutboundHttpResponse := do
  let current ← check (normalizeHttpUrl request.url)
  .loop (attempt request context started) { current }

/-- `send`. -/
def send (request : OutboundHttpRequest) (authority : NetworkOperationContext) :
    Gateway OutboundHttpResponse := do
  check (authority.grant.requireRequest request)
  check (requireSupportedRequest request)
  requireActive authority
  let now ← time
  let deadline := min authority.deadlineMonotonic (now + request.limits.timeoutSeconds)
  let ⟨hdeadline⟩ ← check (ensure (0 < deadline) .valueError
    (py "deadline_monotonic must be positive and finite"))
  let effectiveContext := authority.withDeadline deadline hdeadline
  requireActive effectiveContext
  let started ← time
  sendBounded request effectiveContext started

end Gateway
end Zlib
end Library
