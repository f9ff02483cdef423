import MemSandbox.Network.ChunkedBody
import MemSandbox.Network.ResponseReader

/-! # Reader and gateway

    What the reader of a response accepts, and which of that the response and
    then the gateway accept.  The reader counts the bytes that it reads, and the
    response asks for the bytes of its headers as they would be written out,
    with one blank after each colon; a peer need not send that blank.

    * **Section 1** heads;
    * **Section 2** bodies;
    * **Section 3** the response;
    * **Section 4** the gateway. -/

open Python

/-! ## Section 1: Heads -/

/-- The head of a response. -/
structure ResponseHead where
  statusLine : Bytes
  lines : List TrailerLine

namespace ResponseHead

/-- The bytes of the head. -/
def encode (head : ResponseHead) : Bytes :=
  head.statusLine ++ (crlf ++ (head.lines.flatMap TrailerLine.encode ++ crlf))

def headers (head : ResponseHead) : List HttpHeader := head.lines.map TrailerLine.header

/-- The bytes of the header lines. -/
def headerWireBytes (head : ResponseHead) : Nat :=
  (head.lines.map fun line => line.encode.length).sum

/-- What the head counts as headers. -/
def headerBytes (head : ResponseHead) : Nat := max head.headerWireBytes (headersSize head.headers)

theorem length_encode (head : ResponseHead) :
    head.encode.length = head.statusLine.length + 4 + head.headerWireBytes := by
  simp only [encode, headerWireBytes, List.length_append, List.length_flatMap, crlf,
    List.length_cons, List.length_nil]
  omega

end ResponseHead

/-- Lines that are each followed by the separator, or each preceded by it. -/
theorem flatMap_crlf (lines : List Bytes) :
    lines.flatMap (crlf ++ ·) ++ crlf = crlf ++ lines.flatMap (· ++ crlf) := by
  induction lines with
  | nil => rfl
  | cons line lines ih =>
    rw [List.flatMap_cons, List.flatMap_cons, List.append_assoc, ih]
    simp only [List.append_assoc]

theorem parseHeaderLines_eq_ok {lines : List Bytes} {headers : List HttpHeader}
    (h : parseHeaderLines lines = .ok headers) :
    ∃ spelled : List TrailerLine, spelled.map TrailerLine.line = lines ∧
      spelled.map TrailerLine.header = headers := by
  induction lines generalizing headers with
  | nil =>
    cases h
    exact ⟨[], rfl, rfl⟩
  | cons line lines ih =>
    unfold parseHeaderLines at h
    rw [List.mapM_cons, Except.bind_eq_ok_iff] at h
    obtain ⟨header, hheader, h⟩ := h
    rw [Except.bind_eq_ok_iff] at h
    obtain ⟨rest, hrest, h⟩ := h
    cases h
    obtain ⟨spelled, rfl, rfl⟩ := ih hrest
    exact ⟨⟨line, header, parseHeaderLine_eq_ok.mp hheader⟩ :: spelled, rfl, rfl⟩

/-- A status line has a version, a code and the blanks between them. -/
theorem parseStatusLine_eq_ok {line : Bytes} {status : Nat} (h : parseStatusLine line = .ok status) :
    13 ≤ line.length ∧ 100 ≤ status ∧ status ≤ 599 := by
  unfold parseStatusLine at h
  split at h
  · exact absurd h raise_ne_ok
  · rename_i version rest hversion
    split at h
    · exact absurd h raise_ne_ok
    · rename_i code reason hcode
      rw [Except.bind_eq_ok_iff] at h
      obtain ⟨_, hline, h⟩ := h
      rw [Except.bind_eq_ok_iff] at h
      obtain ⟨_, hrange, h⟩ := h
      cases h
      rw [require_eq_ok] at hline hrange
      refine ⟨?_, hrange⟩
      have hlength : version.length = 8 := by
        rcases hline.1 with rfl | rfl
        · rfl
        · rfl
      rw [partition_append hversion, partition_append hcode]
      have hblank : (ascii " ").length = 1 := rfl
      simp only [List.length_append]
      omega

/-- What is read of a head. -/
structure HeadParsed (raw : Bytes) (maximumHeaderBytes maximumWireBytes : Nat) (read : HeadRead)
    (head : ResponseHead) : Prop where
  encodes : raw = head.encode
  status_line : 13 ≤ head.statusLine.length
  status : 100 ≤ read.status ∧ read.status ≤ 599
  headers : read.headers = head.headers
  header_bytes : read.headerBytes = head.headerBytes
  header_wire : read.headerWireBytes = head.headerWireBytes
  wire : read.wireBytes = head.encode.length
  header_within : head.headerBytes ≤ maximumHeaderBytes
  wire_within : head.encode.length ≤ maximumWireBytes

theorem parseResponseHead_sound {before : Bytes} {maximumHeaderBytes maximumWireBytes : Nat}
    {read : HeadRead}
    (h : parseResponseHead (before ++ headEnd) maximumHeaderBytes maximumWireBytes = .ok read) :
    ∃ head, HeadParsed (before ++ headEnd) maximumHeaderBytes maximumWireBytes read head := by
  unfold parseResponseHead at h
  rw [Except.bind_eq_ok_iff] at h
  obtain ⟨_, hwire, h⟩ := h
  have hend : (before ++ headEnd).length - 4 = before.length := by
    rw [List.length_append]
    exact Nat.add_sub_cancel _ _
  rw [hend, List.take_left] at h
  rw [require_eq_ok] at hwire
  match hsplit : splitAll cr [10] before with
  | [] =>
    rw [hsplit] at h
    exact absurd h raise_ne_ok
  | statusLine :: lines =>
    rw [hsplit] at h
    dsimp only at h
    rw [Except.bind_eq_ok_iff] at h
    obtain ⟨_, -, h⟩ := h
    rw [Except.bind_eq_ok_iff] at h
    obtain ⟨status, hstatus, h⟩ := h
    rw [Except.bind_eq_ok_iff] at h
    obtain ⟨headers, hheaders, h⟩ := h
    rw [Except.bind_eq_ok_iff] at h
    obtain ⟨_, hwithin, h⟩ := h
    obtain ⟨spelled, rfl, rfl⟩ := parseHeaderLines_eq_ok hheaders
    obtain ⟨hline, hrange⟩ := parseStatusLine_eq_ok hstatus
    let head : ResponseHead := ⟨statusLine, spelled⟩
    have hencodes : before ++ headEnd = head.encode := by
      have hjoin : before = statusLine ++ (spelled.map TrailerLine.line).flatMap (crlf ++ ·) :=
        splitAll_join hsplit
      have hlines : head.lines.flatMap TrailerLine.encode =
          (spelled.map TrailerLine.line).flatMap (· ++ crlf) := by
        rw [List.flatMap_map]
        rfl
      show before ++ (crlf ++ crlf) = _
      rw [ResponseHead.encode, hlines, ← List.append_assoc crlf, ← flatMap_crlf, hjoin]
      simp only [List.append_assoc]
      rfl
    have hheader : (before ++ headEnd).length - statusLine.length - 4 = head.headerWireBytes := by
      rw [hencodes, head.length_encode]
      show statusLine.length + 4 + _ - statusLine.length - 4 = _
      omega
    rw [hheader, require_eq_ok] at hwithin
    rw [hheader] at h
    cases h
    rw [hencodes] at hwire
    exact ⟨head, hencodes, hline, hrange, rfl, rfl, rfl, congrArg List.length hencodes, hwithin, hwire⟩

/-- What is read of the heads of a response, from the counters on. -/
structure HeadsRead (reader rest : StreamReader) (maximumHeaderBytes maximumWireBytes : Nat)
    (remainingHeaderBytes remainingWireBytes headerWireBytes informationalCount : Nat)
    (read : FinalHead) (informational : List ResponseHead) (final : ResponseHead) : Prop where
  buffer : reader.buffer =
    informational.flatMap ResponseHead.encode ++ (final.encode ++ rest.buffer)
  limit : rest.limit = reader.limit
  few : informational.length + informationalCount ≤ 8
  status_line : 13 ≤ final.statusLine.length
  status : 200 ≤ read.status ∧ read.status ≤ 599
  headers : read.headers = final.headers
  remaining : read.remainingHeaderBytes +
    ((informational.map ResponseHead.headerBytes).sum + final.headerBytes) = remainingHeaderBytes
  header_bytes : read.headerBytes = maximumHeaderBytes - read.remainingHeaderBytes
  header_wire : read.headerWireBytes = headerWireBytes +
    ((informational.map ResponseHead.headerWireBytes).sum + final.headerWireBytes)
  wire_within : (informational.map fun head => head.encode.length).sum + final.encode.length ≤
    remainingWireBytes
  wire : read.wireBytes = maximumWireBytes - (remainingWireBytes -
    ((informational.map fun head => head.encode.length).sum + final.encode.length))

section Heads

variable {reader reader' rest : StreamReader} {maximumHeaderBytes maximumWireBytes : Nat}
  {remainingHeaderBytes remainingWireBytes headerWireBytes informationalCount : Nat}

theorem readResponseHead_sound {read : HeadRead}
    (h : readResponseHead reader maximumHeaderBytes maximumWireBytes = .ok (read, reader')) :
    ∃ head : ResponseHead, reader.buffer = head.encode ++ reader'.buffer ∧
      reader'.limit = reader.limit ∧
      HeadParsed head.encode maximumHeaderBytes maximumWireBytes read head := by
  obtain ⟨raw, hread, hparsed⟩ := readResponseHead_eq_ok.mp h
  obtain ⟨before, rfl, hbuffer, hlimit⟩ := StreamReader.readuntil_eq_ok hread
  obtain ⟨head, hhead⟩ := parseResponseHead_sound hparsed
  have hencodes := hhead.encodes
  rw [hencodes] at hbuffer hhead
  exact ⟨head, hbuffer, hlimit, hhead⟩

/-- One turn of the loop. -/
theorem readHeads_of_head {read : HeadRead}
    (h : readResponseHead reader remainingHeaderBytes remainingWireBytes = .ok (read, reader')) :
    readHeads reader maximumHeaderBytes maximumWireBytes remainingHeaderBytes remainingWireBytes
      headerWireBytes informationalCount = (do
        require (read.status ≠ 101) .outboundHttpResponseInvalid
          (py "HTTP protocol upgrades are not supported")
        if read.status < 200 then
          require (informationalCount + 1 ≤ 8) .outboundHttpResponseInvalid
            (py "HTTP response contains too many informational messages")
          readHeads reader' maximumHeaderBytes maximumWireBytes
            (remainingHeaderBytes - read.headerBytes) (remainingWireBytes - read.wireBytes)
            (headerWireBytes + read.headerWireBytes) (informationalCount + 1)
        else
          return (⟨read.status, read.headers, remainingHeaderBytes - read.headerBytes,
            maximumHeaderBytes - (remainingHeaderBytes - read.headerBytes),
            headerWireBytes + read.headerWireBytes,
            maximumWireBytes - (remainingWireBytes - read.wireBytes)⟩, reader')) := by
  rw [readHeads]
  split
  · rename_i herror
    rw [h] at herror
    cases herror
  · rename_i hok
    rw [h] at hok
    cases hok
    rfl

theorem readHeads_sound {read : FinalHead}
    (h : readHeads reader maximumHeaderBytes maximumWireBytes remainingHeaderBytes
      remainingWireBytes headerWireBytes informationalCount = .ok (read, rest))
    (hfew : informationalCount ≤ 8) :
    ∃ informational final, HeadsRead reader rest maximumHeaderBytes maximumWireBytes
      remainingHeaderBytes remainingWireBytes headerWireBytes informationalCount read informational
      final := by
  -- the heads are read off a stream that gets shorter
  induction hn : reader.buffer.length using Nat.strong_induction_on generalizing reader
    remainingHeaderBytes remainingWireBytes headerWireBytes informationalCount with
  | _ n ih =>
    match hhead : readResponseHead reader remainingHeaderBytes remainingWireBytes with
    | .error e =>
      rw [readHeads] at h
      split at h
      · cases h
      · rename_i hok
        rw [hhead] at hok
        cases hok
    | .ok (one, reader') =>
      obtain ⟨head, hbuffer, hlimit, hparsed⟩ := readResponseHead_sound hhead
      rw [readHeads_of_head hhead, Except.bind_eq_ok_iff] at h
      obtain ⟨_, -, h⟩ := h
      have hheader := hparsed.header_within
      have hwire := hparsed.wire_within
      rw [hparsed.header_bytes, hparsed.header_wire, hparsed.wire] at h
      by_cases hstatus : one.status < 200
      · rw [if_pos hstatus, Except.bind_eq_ok_iff] at h
        obtain ⟨_, hcount, h⟩ := h
        rw [require_eq_ok] at hcount
        have hshorter := readResponseHead_shorter hhead
        obtain ⟨informational, final, hread⟩ := ih _ (hn ▸ hshorter) h hcount rfl
        have hfew' := hread.few
        have hremaining := hread.remaining
        have hheaderWire := hread.header_wire
        have hwireWithin := hread.wire_within
        have hwireBytes := hread.wire
        refine ⟨head :: informational, final, ?_, hread.limit.trans hlimit, ?_, hread.status_line,
          hread.status, hread.headers, ?_, hread.header_bytes, ?_, ?_, ?_⟩
        · rw [hbuffer, hread.buffer, List.flatMap_cons, List.append_assoc]
        · rw [List.length_cons]
          omega
        · rw [List.map_cons, List.sum_cons]
          omega
        · rw [hheaderWire, List.map_cons, List.sum_cons]
          omega
        · rw [List.map_cons, List.sum_cons]
          omega
        · rw [hwireBytes, List.map_cons, List.sum_cons]
          congr 1
          omega
      · rw [if_neg hstatus] at h
        cases h
        refine ⟨[], head, hbuffer, hlimit, ?_, hparsed.status_line, ?_, hparsed.headers, ?_, rfl, ?_,
          ?_, ?_⟩
        · rw [List.length_nil, Nat.zero_add]
          exact hfew
        · exact ⟨Nat.le_of_not_lt hstatus, hparsed.status.2⟩
        · rw [List.map_nil, List.sum_nil, Nat.zero_add]
          exact Nat.sub_add_cancel hheader
        · rw [List.map_nil, List.sum_nil, Nat.zero_add]
        · rw [List.map_nil, List.sum_nil, Nat.zero_add]
          exact hwire
        · rw [List.map_nil, List.sum_nil, Nat.zero_add]

end Heads
