import MemSandbox.Network.Destination

/-! # One transport attempt

    `network/transport.py`: what the gateway asks of a transport, and the
    response that a transport builds of what it has read.  The counters of a
    response are claims of the transport; the constructor checks that they are
    consistent with its headers, its body and each other. -/

open Python

/-! ## Section 1: Requests -/

/-- `AdmittedHttpDestination`. -/
structure AdmittedHttpDestination where
  url : NormalizedHttpUrl
  address : ResolvedHttpAddress
  deriving DecidableEq

/-- `HttpTransportRequest`. -/
structure HttpTransportRequest where
  method : HttpMethod
  destination : AdmittedHttpDestination
  headers : List HttpHeader
  maxResponseHeaderBytes : Nat
  maxResponseBodyBytes : Nat
  maxResponseWireBytes : Nat
  deriving DecidableEq

/-! ## Section 2: Framing -/

def MINIMUM_STATUS_FRAMING_BYTES : Nat := 17

/-- `value.strip(" \t")`. -/
def stripBlanks (t : Text) : Text :=
  ((t.dropWhile (· ∈ py " \t")).reverse.dropWhile (· ∈ py " \t")).reverse

def isAsciiDigit (c : CodePoint) : Bool := 0x30 ≤ c.val && c.val ≤ 0x39

/-- `parse_http_content_length`. -/
def parseHttpContentLength (value : Text) : Except PyError Nat := do
  let normalized := stripBlanks value
  let maximum := Text.ofNat (2 ^ 63 - 1)
  require (normalized ≠ [] ∧ normalized.length ≤ maximum.length ∧ normalized.all isAsciiDigit ∧
      ¬(normalized.length = maximum.length ∧ maximum < normalized))
    .outboundHttpResponseInvalid (py "HTTP response content length is invalid")
  return normalized.foldl (fun n c => 10 * n + (c.val - 0x30)) 0

/-- `_headers_wire_size`; every byte of a Latin-1 text is one character. -/
def headersWireSize (headers : List HttpHeader) : Except PyError Nat := do
  require (headers.all fun header => header.value.all fun c => c.val < 256) .valueError
    (py "response headers must be representable on the HTTP wire")
  return (headers.map fun header => header.name.length + 2 + header.value.length + 2).sum

/-- `len(f"{n:x}")` -/
def hexLength (n : Nat) : Nat := (Nat.toDigits 16 n).length

section Library

variable [NetworkLibrary]

/-- The values of the headers of one name. -/
def headerValues (headers : List HttpHeader) (name : Text) : List Text :=
  (headers.filter fun header => lower header.name = name).map HttpHeader.value

/-- `_single_header`. -/
def singleHeader (headers : List HttpHeader) (name : Text) : Except PyError (Option Text) := do
  let values := (headerValues headers name).map stripBlanks
  require (values.length ≤ 1) .outboundHttpResponseInvalid
    (py "HTTP response has multiple " ++ name ++ py " headers")
  return values.head?

/-- `_require_supported_response_framing`. -/
def requireSupportedResponseFraming (headers : List HttpHeader) (bodyBytes bodyWireBytes
    metadataWireBytes headerWireBytes : Nat) (bodyOmitted : Bool) : Except PyError Unit := do
  let transferEncoding ← singleHeader headers (py "transfer-encoding")
  let contentLength ← singleHeader headers (py "content-length")
  require (¬(transferEncoding.isSome ∧ contentLength.isSome)) .valueError
    (py "response framing must not be ambiguous")
  match transferEncoding with
  | none => return
  | some transferEncoding =>
    require ((split (CodePoint.ofChar ',') transferEncoding).map (lower ∘ strip) = [py "chunked"])
      .valueError (py "response transfer encoding must be supported")
    if bodyOmitted then
      return
    let minimum := if bodyBytes = 0 then 3 else bodyBytes + hexLength bodyBytes + 7
    require (minimum ≤ bodyWireBytes) .valueError
      (py "body_wire_bytes must include chunk framing")
    require (headerWireBytes + MINIMUM_STATUS_FRAMING_BYTES + 2 ≤ metadataWireBytes) .valueError
      (py "metadata_wire_bytes must include the trailer terminator")

/-! ## Section 3: Responses -/

/-- `HttpTransportResponse`. -/
structure HttpTransportResponse where
  statusCode : Nat
  headers : List HttpHeader
  body : Bytes
  headerBytes : Nat
  headerWireBytes : Nat
  metadataWireBytes : Nat
  bodyWireBytes : Nat
  wireBytes : Nat
  bodyOmitted : Bool
  final : 200 ≤ statusCode ∧ statusCode ≤ 599
  headers_within : headersSize headers ≤ headerBytes
  body_within : body.length ≤ bodyWireBytes
  omitted : ¬(bodyOmitted = true ∧ (body ≠ [] ∨ bodyWireBytes ≠ 0))
  wire_sum : wireBytes = metadataWireBytes + bodyWireBytes

/-- A counter that a transport claims. -/
def requireCounter (name : Text) (value : Int) : Except PyError Nat := do
  require (0 ≤ value) .valueError (name ++ py " must not be negative")
  return value.toNat

/-- `HttpTransportResponse(…)`. -/
def HttpTransportResponse.new (statusCode : Int) (headers : List HttpHeader) (body : Bytes)
    (headerBytes headerWireBytes metadataWireBytes bodyWireBytes wireBytes : Int)
    (bodyOmitted : Bool) : Except PyError HttpTransportResponse := do
  let ⟨hfinal⟩ ← ensure (200 ≤ statusCode ∧ statusCode ≤ 599) .valueError
    (py "status_code must be between 200 and 599")
  let headerBytes ← requireCounter (py "header_bytes") headerBytes
  let headerWireBytes ← requireCounter (py "header_wire_bytes") headerWireBytes
  let metadataWireBytes ← requireCounter (py "metadata_wire_bytes") metadataWireBytes
  let bodyWireBytes ← requireCounter (py "body_wire_bytes") bodyWireBytes
  let wireBytes ← requireCounter (py "wire_bytes") wireBytes
  let ⟨hheaders⟩ ← ensure (headersSize headers ≤ headerBytes) .valueError
    (py "header_bytes must include the response headers")
  let wireSize ← headersWireSize headers
  require (wireSize ≤ headerWireBytes) .valueError
    (py "header_wire_bytes must include the response headers")
  require (headerWireBytes ≤ headerBytes) .valueError
    (py "header_bytes must include raw header wire bytes")
  require (headerWireBytes + MINIMUM_STATUS_FRAMING_BYTES ≤ metadataWireBytes) .valueError
    (py "metadata_wire_bytes must include the final response head")
  let ⟨hbody⟩ ← ensure (body.length ≤ bodyWireBytes) .valueError
    (py "body_wire_bytes must include the encoded body")
  let ⟨homitted⟩ ← ensure (¬(bodyOmitted = true ∧ (body ≠ [] ∨ bodyWireBytes ≠ 0))) .valueError
    (py "omitted response bodies must not include body bytes")
  requireSupportedResponseFraming headers body.length bodyWireBytes metadataWireBytes
    headerWireBytes bodyOmitted
  let ⟨hwire⟩ ← ensure (wireBytes = metadataWireBytes + bodyWireBytes) .valueError
    (py "wire_bytes must equal metadata and body wire bytes")
  return {
    statusCode := statusCode.toNat
    headers, body, headerBytes, headerWireBytes, metadataWireBytes, bodyWireBytes, wireBytes
    bodyOmitted
    final := by omega
    headers_within := hheaders
    body_within := hbody
    omitted := homitted
    wire_sum := hwire }

end Library
