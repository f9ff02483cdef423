import MemSandbox.Network.Transport
import MemSandbox.Lib.Separators

/-! # Reading a response body from a stream

    `network/transport.py`: header lines, and a chunked body with its trailers,
    as they are read from an `asyncio.StreamReader`.  A reader is what the peer
    sends until it closes the connection, less what has been read of it; how
    the bytes arrive does not matter to `readuntil` and `readexactly`. -/

open Python

/-! ## Section 1: The stream -/

def cr : Byte := 13

def crlf : Bytes := [cr, 10]

/-- `asyncio.StreamReader`: the bytes to come, and the `limit` of the buffer. -/
structure StreamReader where
  buffer : Bytes
  limit : Nat
  deriving DecidableEq

/-- `LimitOverrunError` and `IncompleteReadError`. -/
inductive ReadError where
  | limitOverrun
  | incompleteRead
  deriving DecidableEq

namespace StreamReader

/-- `StreamReader.readuntil`: the bytes up to the separator, which stands within
    the limit; without one the buffer fills up or the stream ends. -/
def readuntil (reader : StreamReader) (sep : Bytes) : Except ReadError (Bytes × StreamReader) :=
  match partition sep reader.buffer with
  | some (before, after) =>
    if before.length ≤ reader.limit then
      .ok (before ++ sep, { reader with buffer := after })
    else
      .error .limitOverrun
  | none =>
    if reader.limit + sep.length ≤ reader.buffer.length then
      .error .limitOverrun
    else
      .error .incompleteRead

/-- `StreamReader.readexactly`. -/
def readexactly (reader : StreamReader) (n : Nat) : Except ReadError (Bytes × StreamReader) :=
  if n ≤ reader.buffer.length then
    .ok (reader.buffer.take n, { reader with buffer := reader.buffer.drop n })
  else
    .error .incompleteRead

end StreamReader

/-- `_read_line`. -/
def readLine (reader : StreamReader) (maximum : Nat) : Except PyError (Bytes × StreamReader) :=
  match reader.readuntil crlf with
  | .error .limitOverrun =>
    raise .outboundHttpLimitExceeded (py "HTTP response framing exceeds its limit")
  | .error .incompleteRead =>
    raise .outboundHttpResponseInvalid (py "HTTP response framing is incomplete")
  | .ok (raw, reader) =>
    if maximum < raw.length then
      raise .outboundHttpLimitExceeded (py "HTTP response framing exceeds its limit")
    else
      .ok (raw.take (raw.length - 2), reader)

/-- `_read_exactly`. -/
def readExactly (reader : StreamReader) (length : Nat) : Except PyError (Bytes × StreamReader) :=
  match reader.readexactly length with
  | .error _ => raise .outboundHttpResponseInvalid (py "HTTP response body is incomplete")
  | .ok (data, reader) => .ok (data, reader)

theorem readLine_eq_ok {reader reader' : StreamReader} {maximum : Nat} {line : Bytes} :
    readLine reader maximum = .ok (line, reader') ↔
      partition crlf reader.buffer = some (line, reader'.buffer) ∧
        reader'.limit = reader.limit ∧ line.length ≤ reader.limit ∧ line.length + 2 ≤ maximum := by
  unfold readLine StreamReader.readuntil
  cases hparts : partition crlf reader.buffer with
  | none =>
    dsimp only
    by_cases hfull : reader.limit + crlf.length ≤ reader.buffer.length
    · simp [hfull]
    · simp [hfull]
  | some parts =>
    obtain ⟨before, after⟩ := parts
    by_cases hlimit : before.length ≤ reader.limit
    · have hlength : (before ++ crlf).length = before.length + 2 := List.length_append
      dsimp only
      rw [if_pos hlimit]
      dsimp only
      rw [hlength]
      by_cases hmax : maximum < before.length + 2
      · rw [if_pos hmax]
        constructor
        · intro h
          cases h
        · rintro ⟨hsome, -, -, hle⟩
          cases hsome
          omega
      · rw [if_neg hmax, Nat.add_sub_cancel, List.take_left]
        constructor
        · intro h
          cases h
          exact ⟨rfl, rfl, hlimit, by omega⟩
        · rintro ⟨hsome, hsame, -, -⟩
          cases hsome
          rw [← hsame]
    · dsimp only
      rw [if_neg hlimit]
      constructor
      · intro h
        cases h
      · rintro ⟨hsome, -, hle, -⟩
        cases hsome
        exact absurd hle hlimit

theorem readLine_shorter {reader reader' : StreamReader} {maximum : Nat} {line : Bytes}
    (h : readLine reader maximum = .ok (line, reader')) :
    reader'.buffer.length < reader.buffer.length := by
  rw [partition_append (readLine_eq_ok.mp h).1]
  simp only [List.length_append, crlf, List.length_cons]
  omega

theorem readExactly_eq_ok {reader reader' : StreamReader} {length : Nat} {data : Bytes} :
    readExactly reader length = .ok (data, reader') ↔
      reader.buffer = data ++ reader'.buffer ∧ reader'.limit = reader.limit ∧
        data.length = length := by
  unfold readExactly StreamReader.readexactly
  by_cases hle : length ≤ reader.buffer.length
  · rw [if_pos hle]
    dsimp only
    constructor
    · intro h
      cases h
      exact ⟨(List.take_append_drop _ _).symm, rfl, List.length_take_of_le hle⟩
    · rintro ⟨hbuffer, hsame, rfl⟩
      rw [hbuffer, List.take_left, List.drop_left, ← hsame]
  · rw [if_neg hle]
    dsimp only
    constructor
    · intro h
      cases h
    · rintro ⟨hbuffer, -, rfl⟩
      rw [hbuffer, List.length_append] at hle
      omega

theorem readExactly_shorter {reader reader' : StreamReader} {length : Nat} {data : Bytes}
    (h : readExactly reader length = .ok (data, reader')) :
    reader'.buffer.length ≤ reader.buffer.length := by
  rw [(readExactly_eq_ok.mp h).1, List.length_append]
  omega

/-! ## Section 2: Header lines -/

/-- `raw.decode("latin-1")`. -/
def decodeLatin1 (raw : Bytes) : Text := raw.map CodePoint.ofByte

/-- `raw.decode("ascii")`. -/
def decodeAscii (raw : Bytes) : Except PyError Text := do
  require (∀ b ∈ raw, b.val < 128) .unicodeDecodeError (py "ordinal not in range(128)")
  return decodeLatin1 raw

def isBlank (b : Byte) : Bool := b.val = 32 || b.val = 9

/-- `raw.strip(b" \t")`. -/
def stripBlankBytes (raw : Bytes) : Bytes := stripEnds isBlank raw

/-- A byte that no header value may contain. -/
def isControlByte (b : Byte) : Bool := (b.val < 32 && b.val ≠ 9) || b.val = 127

/-- One round of `_parse_header_lines`. -/
def parseHeaderLine (line : Bytes) : Except PyError HttpHeader := do
  require (line.head?.any isBlank = false) .outboundHttpResponseInvalid
    (py "HTTP response header line is invalid")
  match partition (ascii ":") line with
  | none =>
    raise .outboundHttpResponseInvalid (py "HTTP response header line is invalid")
  | some (rawName, rawValue) =>
    let header := do
      let name ← decodeAscii rawName
      let valueBytes := stripBlankBytes rawValue
      require (valueBytes.any isControlByte = false) .valueError []
      HttpHeader.new name (decodeLatin1 valueBytes)
    rewrap header (fun cls => cls = .outboundHttpRequestInvalid || cls.isValueError)
      .outboundHttpResponseInvalid (py "HTTP response header is invalid")

/-- `_parse_header_lines`. -/
def parseHeaderLines (lines : List Bytes) : Except PyError (List HttpHeader) :=
  lines.mapM parseHeaderLine

/-! ## Section 3: Trailers and chunks -/

/-- The loop of `_read_trailers`, from its counters on. -/
def readTrailerLines (reader : StreamReader) (maximumBytes maximumWireBytes : Nat)
    (logicalHeaderBytes headerWireBytes wireBytes : Nat) :
    Except PyError ((Nat × Nat × Nat) × StreamReader) :=
  match hline : readLine reader (maximumBytes + 2) with
  | .error e => .error e
  | .ok (line, reader') => do
    let wireBytes := wireBytes + (line.length + 2)
    require (wireBytes ≤ maximumWireBytes) .outboundHttpLimitExceeded
      (py "HTTP response wire bytes exceed the requested limit")
    if line = [] then
      return ((max logicalHeaderBytes headerWireBytes, headerWireBytes, wireBytes), reader')
    let parsed ← parseHeaderLines [line]
    let logicalHeaderBytes := logicalHeaderBytes + headersSize parsed
    let headerWireBytes := headerWireBytes + (line.length + 2)
    require (max logicalHeaderBytes headerWireBytes ≤ maximumBytes) .outboundHttpLimitExceeded
      (py "HTTP response trailers exceed the requested header limit")
    readTrailerLines reader' maximumBytes maximumWireBytes logicalHeaderBytes headerWireBytes
      wireBytes
termination_by reader.buffer.length
decreasing_by exact readLine_shorter hline

/-- `_read_trailers`. -/
def readTrailers (reader : StreamReader) (maximumBytes maximumWireBytes : Nat) :
    Except PyError ((Nat × Nat × Nat) × StreamReader) :=
  readTrailerLines reader maximumBytes maximumWireBytes 0 0 0

/-- The characters of a chunk size. -/
def isHexByte (b : Byte) : Bool := b ∈ ascii "0123456789abcdefABCDEF"

/-- `int(c, 16)` of one character. -/
def hexByteValue (b : Byte) : Nat :=
  if b.val < 0x3A then b.val - 0x30 else if b.val < 0x47 then b.val - 0x37 else b.val - 0x57

/-- `int(value, 16)` -/
def hexNumeral (value : Bytes) : Nat := value.foldl (fun n b => 16 * n + hexByteValue b) 0

/-- `size_value.lstrip(b"0") or b"0"` -/
def significantSize (sizeValue : Bytes) : Bytes :=
  let significant := sizeValue.dropWhile (· ∈ ascii "0")
  if significant = [] then ascii "0" else significant

/-- The loop of `_read_chunked_body`, from its counters on. -/
def readChunks (reader : StreamReader) (maximumBodyBytes maximumTrailerBytes
    maximumWireBytes : Nat) (body : Bytes) (wireBytes : Nat) :
    Except PyError ((Bytes × Nat × Nat × Nat × Nat) × StreamReader) :=
  match _hline : readLine reader 4096 with
  | .error e => .error e
  | .ok (line, reader') => do
    let wireBytes := wireBytes + (line.length + 2)
    require (wireBytes ≤ maximumWireBytes) .outboundHttpLimitExceeded
      (py "HTTP response wire bytes exceed the requested limit")
    require (contains (ascii ";") line = false) .outboundHttpResponseInvalid
      (py "HTTP chunk extensions are unsupported")
    require (line ≠ [] ∧ line.all isHexByte = true) .outboundHttpResponseInvalid
      (py "HTTP chunk size is invalid")
    require ((significantSize line).length ≤ 16) .outboundHttpLimitExceeded
      (py "HTTP response body exceeds the requested limit")
    let size := hexNumeral (significantSize line)
    if size = 0 then
      let (trailers, reader') ←
        readTrailers reader' maximumTrailerBytes (maximumWireBytes - wireBytes)
      return ((body, wireBytes, trailers), reader')
    require (size ≤ maximumBodyBytes - body.length) .outboundHttpLimitExceeded
      (py "HTTP response body exceeds the requested limit")
    require (size + 2 ≤ maximumWireBytes - wireBytes) .outboundHttpLimitExceeded
      (py "HTTP response wire bytes exceed the requested limit")
    match hchunk : readExactly reader' (size + 2) with
    | .error e => .error e
    | .ok (chunk, reader'') =>
      require (chunk.drop (chunk.length - 2) = crlf) .outboundHttpResponseInvalid
        (py "HTTP chunk terminator is invalid")
      readChunks reader'' maximumBodyBytes maximumTrailerBytes maximumWireBytes
        (body ++ chunk.take (chunk.length - 2)) (wireBytes + (size + 2))
termination_by reader.buffer.length
decreasing_by exact lt_of_le_of_lt (readExactly_shorter hchunk) (readLine_shorter _hline)

/-- `_read_chunked_body`. -/
def readChunkedBody (reader : StreamReader) (maximumBodyBytes maximumTrailerBytes
    maximumWireBytes : Nat) : Except PyError ((Bytes × Nat × Nat × Nat × Nat) × StreamReader) :=
  readChunks reader maximumBodyBytes maximumTrailerBytes maximumWireBytes [] 0
