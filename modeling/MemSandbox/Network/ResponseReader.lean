import MemSandbox.Network.StreamReader
import MemSandbox.Network.Gateway

/-! # Reading a response

    `network/transport.py`: the heads of a response and its body, as one
    transport attempt reads them, and the response that is built of them.

    Only `StreamReader.read` depends on how the bytes arrive: `arrivals` says
    how many are there when it is asked for more. -/

open Python

/-! ## Section 1: Heads -/

/-- A byte of `b"0123456789"`. -/
def isDigitByte (b : Byte) : Bool := 0x30 ≤ b.val && b.val ≤ 0x39

/-- `int(value, 10)` -/
def decimalNumeral (value : Bytes) : Nat := value.foldl (fun n b => 10 * n + (b.val - 0x30)) 0

/-- The refusal of a status line. -/
def invalidStatusLine {α : Type} : Except PyError α :=
  raise .outboundHttpResponseInvalid (py "HTTP response status line is invalid")

/-- `_parse_status_line`. -/
def parseStatusLine (line : Bytes) : Except PyError Nat :=
  match partition (ascii " ") line with
  | none => invalidStatusLine
  | some (version, rest) =>
    match partition (ascii " ") rest with
    | none => invalidStatusLine
    | some (code, reason) => do
      require ((version = ascii "HTTP/1.0" ∨ version = ascii "HTTP/1.1") ∧ code.length = 3 ∧
          code.all isDigitByte = true ∧ reason.any isControlByte = false)
        .outboundHttpResponseInvalid (py "HTTP response status line is invalid")
      let status := decimalNumeral code
      require (100 ≤ status ∧ status ≤ 599) .outboundHttpResponseInvalid
        (py "HTTP response status is outside its range")
      return status

/-- What `_read_response_head` returns. -/
structure HeadRead where
  status : Nat
  headers : List HttpHeader
  headerBytes : Nat
  headerWireBytes : Nat
  wireBytes : Nat

/-- `_read_response_head`, of the bytes up to the empty line. -/
def parseResponseHead (raw : Bytes) (maximumHeaderBytes maximumWireBytes : Nat) :
    Except PyError HeadRead := do
  require (raw.length ≤ maximumWireBytes) .outboundHttpLimitExceeded
    (py "HTTP response wire bytes exceed the requested limit")
  match splitAll cr [10] (raw.take (raw.length - 4)) with
  | [] => invalidStatusLine
  | statusLine :: lines =>
    require (statusLine ≠ [] ∧ statusLine.length ≤ 1024) .outboundHttpResponseInvalid
      (py "HTTP response status line is invalid")
    let status ← parseStatusLine statusLine
    let headers ← parseHeaderLines lines
    let wireHeaderBytes := raw.length - statusLine.length - 4
    let accountedHeaderBytes := max wireHeaderBytes (headersSize headers)
    require (accountedHeaderBytes ≤ maximumHeaderBytes) .outboundHttpLimitExceeded
      (py "HTTP response headers exceed the requested limit")
    return ⟨status, headers, accountedHeaderBytes, wireHeaderBytes, raw.length⟩

/-- `b"\r\n\r\n"` -/
def headEnd : Bytes := crlf ++ crlf

/-- `_read_response_head`. -/
def readResponseHead (reader : StreamReader) (maximumHeaderBytes maximumWireBytes : Nat) :
    Except PyError (HeadRead × StreamReader) :=
  match reader.readuntil headEnd with
  | .error .limitOverrun =>
    raise .outboundHttpLimitExceeded (py "HTTP response headers exceed the requested limit")
  | .error .incompleteRead =>
    raise .outboundHttpResponseInvalid (py "HTTP response headers are incomplete")
  | .ok (raw, reader) => do
    let head ← parseResponseHead raw maximumHeaderBytes maximumWireBytes
    return (head, reader)

theorem readResponseHead_eq_ok {reader reader' : StreamReader} {maximumHeaderBytes
    maximumWireBytes : Nat} {head : HeadRead} :
    readResponseHead reader maximumHeaderBytes maximumWireBytes = .ok (head, reader') ↔
      ∃ raw, reader.readuntil headEnd = .ok (raw, reader') ∧
        parseResponseHead raw maximumHeaderBytes maximumWireBytes = .ok head := by
  unfold readResponseHead
  match hread : reader.readuntil headEnd with
  | .error .limitOverrun => simp [raise]
  | .error .incompleteRead => simp [raise]
  | .ok (raw, reader₁) =>
    dsimp only
    rw [Except.bind_eq_ok_iff]
    constructor
    · rintro ⟨parsed, hparsed, h⟩
      cases h
      exact ⟨raw, rfl, hparsed⟩
    · rintro ⟨raw', h, hparsed⟩
      cases h
      exact ⟨head, hparsed, rfl⟩

/-- What is read up to a separator stands before it. -/
theorem StreamReader.readuntil_eq_ok {reader reader' : StreamReader} {sep raw : Bytes}
    (h : reader.readuntil sep = .ok (raw, reader')) :
    ∃ before, raw = before ++ sep ∧ reader.buffer = raw ++ reader'.buffer ∧
      reader'.limit = reader.limit := by
  unfold readuntil at h
  split at h
  · rename_i before after hparts
    split at h
    · cases h
      refine ⟨before, rfl, ?_, rfl⟩
      rw [List.append_assoc]
      exact partition_append hparts
    · cases h
  · split at h <;> cases h

theorem readResponseHead_shorter {reader reader' : StreamReader} {maximumHeaderBytes
    maximumWireBytes : Nat} {head : HeadRead}
    (h : readResponseHead reader maximumHeaderBytes maximumWireBytes = .ok (head, reader')) :
    reader'.buffer.length < reader.buffer.length := by
  obtain ⟨raw, hread, -⟩ := readResponseHead_eq_ok.mp h
  obtain ⟨before, rfl, hbuffer, -⟩ := StreamReader.readuntil_eq_ok hread
  rw [hbuffer]
  simp only [List.length_append, headEnd, crlf, List.length_cons]
  omega

/-- What `_read_final_response_head` returns. -/
structure FinalHead where
  status : Nat
  headers : List HttpHeader
  remainingHeaderBytes : Nat
  headerBytes : Nat
  headerWireBytes : Nat
  wireBytes : Nat

/-- The loop of `_read_final_response_head`, from its counters on. -/
def readHeads (reader : StreamReader) (maximumHeaderBytes maximumWireBytes : Nat)
    (remainingHeaderBytes remainingWireBytes headerWireBytes informationalCount : Nat) :
    Except PyError (FinalHead × StreamReader) :=
  match _hhead : readResponseHead reader remainingHeaderBytes remainingWireBytes with
  | .error e => .error e
  | .ok (head, reader') => do
    let remainingHeaderBytes := remainingHeaderBytes - head.headerBytes
    let remainingWireBytes := remainingWireBytes - head.wireBytes
    let headerWireBytes := headerWireBytes + head.headerWireBytes
    require (head.status ≠ 101) .outboundHttpResponseInvalid
      (py "HTTP protocol upgrades are not supported")
    if head.status < 200 then
      require (informationalCount + 1 ≤ 8) .outboundHttpResponseInvalid
        (py "HTTP response contains too many informational messages")
      readHeads reader' maximumHeaderBytes maximumWireBytes remainingHeaderBytes remainingWireBytes
        headerWireBytes (informationalCount + 1)
    else
      return (⟨head.status, head.headers, remainingHeaderBytes,
        maximumHeaderBytes - remainingHeaderBytes, headerWireBytes,
        maximumWireBytes - remainingWireBytes⟩, reader')
termination_by reader.buffer.length
decreasing_by exact readResponseHead_shorter _hhead

/-- `_read_final_response_head`. -/
def readFinalResponseHead (reader : StreamReader) (maximumHeaderBytes maximumWireBytes : Nat) :
    Except PyError (FinalHead × StreamReader) :=
  readHeads reader maximumHeaderBytes maximumWireBytes maximumHeaderBytes maximumWireBytes 0 0

/-! ## Section 2: Bodies -/

/-- `StreamReader.read(n)`: of the bytes to come those that have arrived, at
    least one, and none at the end of the stream. -/
def StreamReader.read (reader : StreamReader) (n arrived : Nat) : Bytes × StreamReader :=
  (reader.buffer.take (min n (max 1 arrived)),
    { reader with buffer := reader.buffer.drop (min n (max 1 arrived)) })

/-- The loop of `_read_to_eof`, from what it has read. -/
def readToEof (reader : StreamReader) (arrivals : Nat → Nat) (maximum maximumWireBytes : Nat)
    (body : Bytes) : Except PyError (Bytes × StreamReader) :=
  match _hchunk : reader.read (min (64 * 1024)
      (min (maximum - body.length + 1) (maximumWireBytes - body.length + 1)))
      (arrivals body.length) with
  | ([], reader') => .ok (body, reader')
  | (b :: rest, reader') => do
    let body := body ++ b :: rest
    require (body.length ≤ maximum) .outboundHttpLimitExceeded
      (py "HTTP response body exceeds the requested limit")
    require (body.length ≤ maximumWireBytes) .outboundHttpLimitExceeded
      (py "HTTP response wire bytes exceed the requested limit")
    readToEof reader' arrivals maximum maximumWireBytes body
termination_by reader.buffer.length
decreasing_by
  have hlength := congrArg (fun parts => parts.1.length + parts.2.buffer.length) _hchunk
  simp only [StreamReader.read, List.length_take, List.length_drop, List.length_cons] at hlength
  omega

section Library

variable [NetworkLibrary]

/-- What `_read_response_body` returns. -/
structure BodyRead where
  body : Bytes
  bodyWireBytes : Nat
  trailerHeaderBytes : Nat
  trailerHeaderWireBytes : Nat
  trailerWireBytes : Nat
  omitted : Bool

/-- `_read_response_body`. -/
def readResponseBody (reader : StreamReader) (arrivals : Nat → Nat) (request : HttpTransportRequest)
    (status : Nat) (headers : List HttpHeader) (remainingHeaderBytes remainingWireBytes : Nat) :
    Except PyError (BodyRead × StreamReader) := do
  let transferEncoding ← singleHeader headers (py "transfer-encoding")
  let contentLength ← singleHeader headers (py "content-length")
  require (¬(transferEncoding.isSome ∧ contentLength.isSome)) .outboundHttpResponseInvalid
    (py "HTTP response contains conflicting body framing")
  if request.method = .head ∨ status ∈ [204, 205, 304] then
    return (⟨[], 0, 0, 0, 0, true⟩, reader)
  let location ←
    if status ∈ [301, 302, 303, 307, 308] then singleHeader headers (py "location") else .ok none
  if location.any (· ≠ []) then
    return (⟨[], 0, 0, 0, 0, true⟩, reader)
  match transferEncoding with
  | some transferEncoding =>
    require ((split (CodePoint.ofChar ',') transferEncoding).map (lower ∘ strip) = [py "chunked"])
      .outboundHttpResponseInvalid (py "HTTP response transfer encoding is unsupported")
    let ((body, wire, trailerHeader, trailerHeaderWire, trailerWire), reader) ←
      readChunkedBody reader request.maxResponseBodyBytes remainingHeaderBytes remainingWireBytes
    return (⟨body, wire, trailerHeader, trailerHeaderWire, trailerWire, false⟩, reader)
  | none =>
    match contentLength with
    | some contentLength =>
      let length ← parseHttpContentLength contentLength
      require (length ≤ request.maxResponseBodyBytes) .outboundHttpLimitExceeded
        (py "HTTP response body exceeds the requested limit")
      require (length ≤ remainingWireBytes) .outboundHttpLimitExceeded
        (py "HTTP response wire bytes exceed the requested limit")
      let (body, reader) ← readExactly reader length
      return (⟨body, length, 0, 0, 0, false⟩, reader)
    | none =>
      let (body, reader) ←
        readToEof reader arrivals request.maxResponseBodyBytes remainingWireBytes []
      return (⟨body, body.length, 0, 0, 0, false⟩, reader)

/-! ## Section 3: Attempts -/

/-- The `limit` of the reader of an attempt. -/
def readerLimit (request : HttpTransportRequest) : Nat :=
  max (min (request.maxResponseHeaderBytes + 1028) (request.maxResponseWireBytes + 1028)) 4096

/-- What an attempt has read of what the peer sends. -/
def readResponse (sent : Bytes) (arrivals : Nat → Nat) (request : HttpTransportRequest) :
    Except PyError (FinalHead × BodyRead) := do
  let (head, reader) ← readFinalResponseHead ⟨sent, readerLimit request⟩
    request.maxResponseHeaderBytes request.maxResponseWireBytes
  let (body, _) ← readResponseBody reader arrivals request head.status head.headers
    head.remainingHeaderBytes (request.maxResponseWireBytes - head.wireBytes)
  return (head, body)

/-- The response that `_send_once` makes of what it has read. -/
def buildResponse (head : FinalHead) (body : BodyRead) : Except PyError HttpTransportResponse :=
  HttpTransportResponse.new head.status head.headers body.body
    (head.headerBytes + body.trailerHeaderBytes : Nat)
    (head.headerWireBytes + body.trailerHeaderWireBytes : Nat)
    (head.wireBytes + body.trailerWireBytes : Nat) body.bodyWireBytes
    (head.wireBytes + body.trailerWireBytes + body.bodyWireBytes : Nat) body.omitted

/-- `_send_once`, once the request has been sent, without cancellation. -/
def sendOnce (sent : Bytes) (arrivals : Nat → Nat) (request : HttpTransportRequest) :
    Except PyError HttpTransportResponse := do
  let (head, body) ← readResponse sent arrivals request
  buildResponse head body

/-- The `except` clauses of `AsyncioHttpTransport.send`, for what its peer sends. -/
def transportOutcome (response : Except PyError HttpTransportResponse) :
    Except PyError HttpTransportResponse :=
  match response with
  | .ok response => .ok response
  | .error e =>
    if e.cls = .outboundHttpLimitExceeded then
      raise .outboundHttpLimitExceeded (py "outbound HTTP transport exceeded a limit")
    else if e.cls = .outboundHttpResponseInvalid then
      raise .outboundHttpResponseInvalid (py "outbound HTTP transport response is invalid")
    else
      raise .outboundHttpTransportFailed (py "outbound HTTP transport attempt failed")

/-- The fields of a response, as the gateway finds them. -/
def HttpTransportResponse.reply (response : HttpTransportResponse) : TransportReply where
  exact := true
  statusCode := some response.statusCode
  headers := some (response.headers.map fun header => some (header.name, header.value))
  body := some response.body
  headerBytes := some response.headerBytes
  headerWireBytes := some response.headerWireBytes
  metadataWireBytes := some response.metadataWireBytes
  bodyWireBytes := some response.bodyWireBytes
  wireBytes := some response.wireBytes
  bodyOmitted := some response.bodyOmitted

end Library
