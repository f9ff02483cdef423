import MemSandbox.Network.StreamReader
import MemSandbox.Network.Admission

/-! # Chunked messages

    What a chunked body is, without extensions, and that the reader decodes
    exactly that: `readChunkedBody` returns what a message carries when the
    stream starts with a message within the limits, and raises one of its two
    errors otherwise. -/

open Python

/-! ## Section 1: Header lines -/

/-- A line that spells a header: blanks around the value do not count. -/
structure HeaderLine (line : Bytes) (header : HttpHeader) : Prop where
  spells : ∃ name before value after,
    line = name ++ (ascii ":" ++ (before ++ (value ++ after))) ∧
      (∀ b ∈ before, isBlank b = true) ∧ (∀ b ∈ after, isBlank b = true) ∧
      Trimmed isBlank value ∧ header.name = decodeLatin1 name ∧ header.value = decodeLatin1 value

theorem mem_decodeLatin1 {raw : Bytes} {b : Byte} (h : b ∈ raw) :
    CodePoint.ofByte b ∈ decodeLatin1 raw := List.mem_map_of_mem h

/-- The characters of a header name are printable ASCII, without a colon. -/
theorem isTokenCharacter_val {c : CodePoint} (h : isTokenCharacter c = true) :
    0x21 ≤ c.val ∧ c.val < 0x7F ∧ c.val ≠ 0x3A := by
  have htable : (py "!#$%&'*+-.^_`|~").all
      (fun c => decide (0x21 ≤ c.val ∧ c.val < 0x7F ∧ c.val ≠ 0x3A)) = true := by decide
  simp only [isTokenCharacter, isAlphanumeric, Bool.or_eq_true, Bool.and_eq_true,
    decide_eq_true_eq] at h
  rcases h with ((⟨h1, h2⟩ | ⟨h1, h2⟩) | ⟨h1, h2⟩) | h
  · omega
  · omega
  · omega
  · exact of_decide_eq_true (List.all_eq_true.mp htable c h)

namespace HttpHeader

theorem name_character (header : HttpHeader) {c : CodePoint} (h : c ∈ header.name) :
    isTokenCharacter c = true := by
  have htoken := header.name_token
  simp only [isHeaderName, Bool.and_eq_true, List.all_eq_true] at htoken
  exact htoken.2 c h

theorem name_ne_nil (header : HttpHeader) : header.name ≠ [] := by
  have htoken := header.name_token
  simp only [isHeaderName, Bool.and_eq_true, decide_eq_true_eq] at htoken
  exact htoken.1

theorem value_character (header : HttpHeader) {c : CodePoint} (h : c ∈ header.value) :
    isControlCharacter c = false := by
  have hprintable := header.printable
  rw [List.any_eq_false] at hprintable
  exact Bool.eq_false_iff.mpr (hprintable c h)

/-- The constructor takes the fields of a header. -/
theorem new_fields (header : HttpHeader) : HttpHeader.new header.name header.value = .ok header := by
  have hutf8 := header.utf8
  unfold new
  rw [dif_pos header.name_token, dif_pos header.printable]
  split
  · rename_i hnone
    rw [utf8Length, Option.map_eq_none_iff] at hnone
    rw [ValidUtf8, hnone] at hutf8
    cases hutf8
  · rename_i size hsize
    rw [dif_pos (header.bounded size hsize)]

end HttpHeader

/-- The bytes of a Latin-1 text are its characters. -/
theorem decodeLatin1_injective : Function.Injective decodeLatin1 := by
  apply List.map_injective_iff.mpr
  intro a b hab
  exact Fin.ext (Fin.mk.inj hab)

theorem length_decodeLatin1 (raw : Bytes) : (decodeLatin1 raw).length = raw.length :=
  List.length_map _

theorem decodeAscii_eq_ok {raw : Bytes} {text : Text} :
    decodeAscii raw = .ok text ↔ (∀ b ∈ raw, b.val < 128) ∧ text = decodeLatin1 raw := by
  unfold decodeAscii
  rw [Except.bind_eq_ok_iff]
  constructor
  · rintro ⟨_, hascii, htext⟩
    exact ⟨require_eq_ok.mp hascii, (Except.ok.inj htext).symm⟩
  · rintro ⟨hascii, rfl⟩
    exact ⟨(), require_eq_ok.mpr hascii, rfl⟩

/-- The reader takes exactly the lines that spell a header. -/
theorem parseHeaderLine_eq_ok {line : Bytes} {header : HttpHeader} :
    parseHeaderLine line = .ok header ↔ HeaderLine line header := by
  unfold parseHeaderLine
  rw [Except.bind_eq_ok_iff]
  constructor
  · rintro ⟨_, -, h⟩
    split at h
    · exact absurd h raise_ne_ok
    · rename_i name rest hparts
      obtain ⟨text, hname, h⟩ := Except.bind_eq_ok_iff.mp (rewrap_eq_ok.mp h)
      obtain ⟨_, -, hnew⟩ := Except.bind_eq_ok_iff.mp h
      obtain ⟨htrim, before, after, hrest, hbefore, hafter⟩ := stripEnds_eq_iff.mp
        (show stripEnds isBlank rest = stripBlankBytes rest from rfl)
      obtain ⟨hheader, hvalue⟩ := HttpHeader.new_eq_ok hnew
      refine ⟨name, before, stripBlankBytes rest, after, ?_, hbefore, hafter, htrim, ?_, hvalue⟩
      · rw [← hrest]
        exact partition_append hparts
      · rw [hheader, (decodeAscii_eq_ok.mp hname).2]
  · rintro ⟨name, before, value, after, rfl, hbefore, hafter, htrim, hname, hvalue⟩
    -- the name is printable ASCII without a colon, since the header has it
    have hcharacter : ∀ b ∈ name, 0x21 ≤ b.val ∧ b.val < 0x7F ∧ b.val ≠ 0x3A := by
      intro b hb
      have hmem := mem_decodeLatin1 hb
      rw [← hname] at hmem
      exact isTokenCharacter_val (header.name_character hmem)
    have hcolon : (58 : Byte) ∉ name := fun h => (hcharacter _ h).2.2 rfl
    have hne : name ≠ [] := by
      rintro rfl
      exact header.name_ne_nil hname
    have hstrip : stripBlankBytes (before ++ (value ++ after)) = value :=
      stripEnds_eq_iff.mpr ⟨htrim, before, after, rfl, hbefore, hafter⟩
    have hcontrol : value.any isControlByte = false := by
      rw [List.any_eq_false]
      intro b hb
      have hmem := mem_decodeLatin1 hb
      rw [← hvalue] at hmem
      exact Bool.eq_false_iff.mp (header.value_character hmem)
    refine ⟨(), require_eq_ok.mpr ?_, ?_⟩
    · cases name with
      | nil => exact absurd rfl hne
      | cons b name =>
        have hb := hcharacter b List.mem_cons_self
        show isBlank b = false
        simp only [isBlank, Bool.or_eq_false_iff, decide_eq_false_iff_not]
        omega
    · have hparts : partition (ascii ":") (name ++ (ascii ":" ++ (before ++ (value ++ after)))) =
          some (name, before ++ (value ++ after)) := partition_of_not_mem hcolon _
      rw [hparts]
      apply rewrap_eq_ok.mpr
      rw [Except.bind_eq_ok_iff]
      refine ⟨decodeLatin1 name, decodeAscii_eq_ok.mpr ⟨?_, rfl⟩, ?_⟩
      · intro b hb
        have := hcharacter b hb
        omega
      · have hnew : HttpHeader.new (decodeLatin1 name) (decodeLatin1 value) = .ok header := by
          rw [← hname, ← hvalue]
          exact header.new_fields
        rw [hstrip]
        exact Except.bind_eq_ok_iff.mpr ⟨(), require_eq_ok.mpr hcontrol, hnew⟩

theorem HeaderLine.no_cr {line : Bytes} {header : HttpHeader} (h : HeaderLine line header) :
    cr ∉ line := by
  obtain ⟨name, before, value, after, rfl, hbefore, hafter, -, hname, hvalue⟩ := h.spells
  have hblank : isBlank cr = false := rfl
  intro hmem
  rcases List.mem_append.mp hmem with hcr | hmem
  · have hcr := mem_decodeLatin1 hcr
    rw [← hname] at hcr
    exact absurd (isTokenCharacter_val (header.name_character hcr)).1 (by decide)
  rcases List.mem_append.mp hmem with hcr | hmem
  · cases List.mem_singleton.mp hcr
  rcases List.mem_append.mp hmem with hcr | hmem
  · rw [hbefore _ hcr] at hblank
    cases hblank
  rcases List.mem_append.mp hmem with hcr | hcr
  · have hcr := mem_decodeLatin1 hcr
    rw [← hvalue] at hcr
    cases header.value_character hcr
  · rw [hafter _ hcr] at hblank
    cases hblank

theorem HeaderLine.ne_nil {line : Bytes} {header : HttpHeader} (h : HeaderLine line header) :
    line ≠ [] := by
  obtain ⟨name, before, value, after, rfl, -⟩ := h.spells
  simp [ascii]

/-! ## Section 2: Messages -/

/-- A line that spells a number in hexadecimal and is as long as the reader takes. -/
structure SizeLine (line : Bytes) (size : Nat) : Prop where
  ne_nil : line ≠ []
  digits : ∀ b ∈ line, isHexByte b = true
  short : line.length ≤ 4094
  value : hexNumeral line = size

structure Chunk where
  line : Bytes
  data : Bytes
  spells : SizeLine line data.length
  data_ne_nil : data ≠ []

structure TrailerLine where
  line : Bytes
  header : HttpHeader
  spells : HeaderLine line header

/-- A chunked body: chunks, a chunk of size zero, and trailers. -/
structure ChunkedMessage where
  chunks : List Chunk
  last : Bytes
  trailers : List TrailerLine
  last_zero : SizeLine last 0

def Chunk.encode (chunk : Chunk) : Bytes := chunk.line ++ (crlf ++ (chunk.data ++ crlf))

def TrailerLine.encode (trailer : TrailerLine) : Bytes := trailer.line ++ crlf

namespace ChunkedMessage

/-- The bytes of the message. -/
def encode (message : ChunkedMessage) : Bytes :=
  message.chunks.flatMap Chunk.encode ++ (message.last ++ (crlf ++
    (message.trailers.flatMap TrailerLine.encode ++ crlf)))

/-- What the message carries. -/
def body (message : ChunkedMessage) : Bytes := message.chunks.flatMap Chunk.data

/-- The bytes up to the trailers. -/
def bodyWireBytes (message : ChunkedMessage) : Nat :=
  (message.chunks.map fun chunk => chunk.encode.length).sum + (message.last.length + 2)

def trailerHeaderWireBytes (message : ChunkedMessage) : Nat :=
  (message.trailers.map fun trailer => trailer.encode.length).sum

/-- What the trailers count as headers: the more of their bytes and those of
    the headers they spell. -/
def trailerHeaderBytes (message : ChunkedMessage) : Nat :=
  max (headersSize (message.trailers.map TrailerLine.header)) message.trailerHeaderWireBytes

def trailerWireBytes (message : ChunkedMessage) : Nat := message.trailerHeaderWireBytes + 2

/-- The sizes of the message are within the limits. -/
structure Within (message : ChunkedMessage) (maximumBodyBytes maximumTrailerBytes
    maximumWireBytes : Nat) : Prop where
  body : message.body.length ≤ maximumBodyBytes
  trailers : message.trailerHeaderBytes ≤ maximumTrailerBytes
  wire : message.bodyWireBytes + message.trailerWireBytes ≤ maximumWireBytes

/-- Body and trailers are counted apart and together are the message. -/
theorem wire_eq_length (message : ChunkedMessage) :
    message.bodyWireBytes + message.trailerWireBytes = message.encode.length := by
  simp only [encode, bodyWireBytes, trailerWireBytes, trailerHeaderWireBytes, List.length_append,
    List.length_flatMap, crlf, List.length_cons, List.length_nil]
  omega

end ChunkedMessage

/-! ## Section 3: Chunk sizes -/

theorem hexNumeral_cons (b : Byte) (rest : Bytes) :
    hexNumeral (b :: rest) = hexByteValue b * 16 ^ rest.length + hexNumeral rest := by
  have hfold : ∀ (digits : Bytes) (n : Nat),
      digits.foldl (fun n b => 16 * n + hexByteValue b) n =
        n * 16 ^ digits.length + digits.foldl (fun n b => 16 * n + hexByteValue b) 0 := by
    intro digits
    induction digits with
    | nil => intro n; simp
    | cons d digits ih =>
      intro n
      rw [List.foldl_cons, List.foldl_cons, ih, ih (16 * 0 + hexByteValue d), List.length_cons,
        pow_succ]
      ring
  unfold hexNumeral
  rw [List.foldl_cons, Nat.mul_zero, Nat.zero_add, hfold]

theorem hexByteValue_pos {b : Byte} (h : isHexByte b = true) (hzero : b ∉ ascii "0") :
    1 ≤ hexByteValue b := by
  have htable : (ascii "0123456789abcdefABCDEF").all
      (fun b => b ∈ ascii "0" || decide (1 ≤ hexByteValue b)) = true := by decide
  have hrow := List.all_eq_true.mp htable b (of_decide_eq_true h)
  rw [decide_eq_false hzero, Bool.false_or] at hrow
  exact of_decide_eq_true hrow

/-- Leading zeros do not count. -/
theorem hexNumeral_dropWhile (line : Bytes) :
    hexNumeral (line.dropWhile (· ∈ ascii "0")) = hexNumeral line := by
  induction line with
  | nil => rfl
  | cons b line ih =>
    by_cases hb : b ∈ ascii "0"
    · have hvalue : hexByteValue b = 0 := by
        rw [List.mem_singleton.mp hb]
        rfl
      rw [List.dropWhile_cons, if_pos (decide_eq_true hb), ih, hexNumeral_cons, hvalue, Nat.zero_mul,
        Nat.zero_add]
    · rw [List.dropWhile_cons, if_neg (by simpa using hb)]

theorem hexNumeral_significantSize (line : Bytes) :
    hexNumeral (significantSize line) = hexNumeral line := by
  have hdrop := hexNumeral_dropWhile line
  unfold significantSize
  dsimp only
  by_cases hempty : line.dropWhile (· ∈ ascii "0") = []
  · rw [if_pos hempty]
    rw [hempty] at hdrop
    exact hdrop
  · rw [if_neg hempty, hdrop]

/-- A size with more than sixteen significant digits is beyond every limit. -/
theorem le_hexNumeral_of_significant {line : Bytes} (hdigits : ∀ b ∈ line, isHexByte b = true)
    (hlong : 16 < (significantSize line).length) : 2 ^ 64 ≤ hexNumeral line := by
  unfold significantSize at hlong
  dsimp only at hlong
  by_cases hempty : line.dropWhile (· ∈ ascii "0") = []
  · rw [if_pos hempty] at hlong
    exact absurd hlong (by decide)
  · rw [if_neg hempty] at hlong
    match hdrop : line.dropWhile (· ∈ ascii "0") with
    | [] => exact absurd hdrop hempty
    | b :: rest =>
      have hhead := head_dropWhile line (show _ = some b by rw [hdrop]; rfl)
      have hmem : b ∈ line := by
        apply (List.dropWhile_suffix (· ∈ ascii "0")).subset
        rw [hdrop]
        exact List.mem_cons_self
      have hpos := hexByteValue_pos (hdigits b hmem) (of_decide_eq_false hhead)
      have hrest : 16 ≤ rest.length := by
        rw [hdrop, List.length_cons] at hlong
        omega
      calc 2 ^ 64 = 1 * 16 ^ 16 := by norm_num
        _ ≤ hexByteValue b * 16 ^ rest.length :=
          Nat.mul_le_mul hpos (Nat.pow_le_pow_right (by omega) hrest)
        _ ≤ hexNumeral (b :: rest) := by
          rw [hexNumeral_cons]
          exact Nat.le_add_right _ _
        _ = hexNumeral line := by rw [← hdrop, hexNumeral_dropWhile]

theorem not_mem_of_hex {line : Bytes} (hdigits : ∀ b ∈ line, isHexByte b = true) {b : Byte}
    (hb : isHexByte b = false) : b ∉ line := by
  intro hmem
  rw [hdigits b hmem] at hb
  cases hb

/-! ## Section 4: Trailers -/

section Trailers

variable {reader reader' rest : StreamReader} {maximumBytes maximumWireBytes : Nat}
  {logical headerWire wire : Nat} {line : Bytes} {result : Nat × Nat × Nat}

theorem readTrailerLines_of_line (h : readLine reader (maximumBytes + 2) = .ok (line, reader')) :
    readTrailerLines reader maximumBytes maximumWireBytes logical headerWire wire = (do
      require (wire + (line.length + 2) ≤ maximumWireBytes) .outboundHttpLimitExceeded
        (py "HTTP response wire bytes exceed the requested limit")
      if line = [] then
        return ((max logical headerWire, headerWire, wire + (line.length + 2)), reader')
      let parsed ← parseHeaderLines [line]
      require (max (logical + headersSize parsed) (headerWire + (line.length + 2)) ≤ maximumBytes)
        .outboundHttpLimitExceeded (py "HTTP response trailers exceed the requested header limit")
      readTrailerLines reader' maximumBytes maximumWireBytes (logical + headersSize parsed)
        (headerWire + (line.length + 2)) (wire + (line.length + 2))) := by
  rw [readTrailerLines]
  split
  · rename_i hline
    rw [h] at hline
    cases hline
  · rename_i hline
    rw [h] at hline
    cases hline
    rfl

theorem parseHeaderLines_singleton {headers : List HttpHeader} :
    parseHeaderLines [line] = .ok headers ↔ ∃ header, HeaderLine line header ∧ headers = [header] := by
  unfold parseHeaderLines
  rw [List.mapM_cons, Except.bind_eq_ok_iff]
  constructor
  · rintro ⟨header, hheader, h⟩
    exact ⟨header, parseHeaderLine_eq_ok.mp hheader, (Except.ok.inj h).symm⟩
  · rintro ⟨header, hheader, rfl⟩
    exact ⟨header, parseHeaderLine_eq_ok.mpr hheader, rfl⟩

/-- What the counters of the trailers have become. -/
structure TrailersRead (reader rest : StreamReader) (maximumBytes maximumWireBytes : Nat)
    (logical headerWire wire : Nat) (trailers : List TrailerLine) (result : Nat × Nat × Nat) :
    Prop where
  buffer : reader.buffer = trailers.flatMap TrailerLine.encode ++ (crlf ++ rest.buffer)
  limit : rest.limit = reader.limit
  logical_eq : result.1 = max (logical + headersSize (trailers.map TrailerLine.header))
    (headerWire + (trailers.map fun trailer => trailer.encode.length).sum)
  headerWire_eq : result.2.1 = headerWire + (trailers.map fun trailer => trailer.encode.length).sum
  wire_eq : result.2.2 = wire + (trailers.map fun trailer => trailer.encode.length).sum + 2
  within : result.1 ≤ maximumBytes
  wire_within : result.2.2 ≤ maximumWireBytes

theorem readTrailerLines_sound (hmax : max logical headerWire ≤ maximumBytes)
    (h : readTrailerLines reader maximumBytes maximumWireBytes logical headerWire wire =
      .ok (result, rest)) :
    ∃ trailers, TrailersRead reader rest maximumBytes maximumWireBytes logical headerWire wire
      trailers result := by
  -- each line is shorter than the stream before it
  induction hn : reader.buffer.length using Nat.strong_induction_on
    generalizing reader logical headerWire wire with
  | _ n ih =>
    match hline : readLine reader (maximumBytes + 2) with
    | .error e =>
      rw [readTrailerLines] at h
      split at h
      · cases h
      · rename_i hok
        rw [hline] at hok
        cases hok
    | .ok (line, reader') =>
      obtain ⟨hparts, hlimit, -, -⟩ := readLine_eq_ok.mp hline
      have hbuffer := partition_append hparts
      rw [readTrailerLines_of_line hline, Except.bind_eq_ok_iff] at h
      obtain ⟨_, hwire, h⟩ := h
      rw [require_eq_ok] at hwire
      by_cases hempty : line = []
      · rw [if_pos hempty] at h
        cases h
        subst hempty
        exact ⟨[], hbuffer, hlimit, rfl, rfl, rfl, hmax, hwire⟩
      · rw [if_neg hempty, Except.bind_eq_ok_iff] at h
        obtain ⟨parsed, hparsed, h⟩ := h
        rw [Except.bind_eq_ok_iff] at h
        obtain ⟨_, hbytes, h⟩ := h
        obtain ⟨header, hheader, rfl⟩ := parseHeaderLines_singleton.mp hparsed
        obtain ⟨trailers, hread⟩ :=
          ih _ (hn ▸ readLine_shorter hline) (require_eq_ok.mp hbytes) h rfl
        refine ⟨⟨line, header, hheader⟩ :: trailers, ?_, hread.limit.trans hlimit, ?_, ?_, ?_,
          hread.within, hread.wire_within⟩
        · rw [hbuffer, hread.buffer]
          simp [TrailerLine.encode]
        · rw [hread.logical_eq]
          simp [TrailerLine.encode, headersSize, crlf, Nat.add_assoc]
        · rw [hread.headerWire_eq]
          simp [TrailerLine.encode, crlf, Nat.add_assoc]
        · rw [hread.wire_eq]
          simp [TrailerLine.encode, crlf, Nat.add_assoc]

/-- A stream that begins with trailers within the limits is read so. -/
theorem TrailersRead.read {trailers : List TrailerLine}
    (h : TrailersRead reader rest maximumBytes maximumWireBytes logical headerWire wire trailers
      result) (hlimit : min maximumBytes maximumWireBytes ≤ reader.limit) :
    readTrailerLines reader maximumBytes maximumWireBytes logical headerWire wire =
      .ok (result, rest) := by
  obtain ⟨bytes, headerBytes, wireBytes⟩ := result
  obtain ⟨hbuffer, hsame, hlogical, hheader, hwire, hwithin, hwireWithin⟩ := h
  dsimp only at hlogical hheader hwire hwithin hwireWithin
  induction trailers generalizing reader logical headerWire wire with
  | nil =>
    have hline : readLine reader (maximumBytes + 2) = .ok ([], rest) := by
      refine readLine_eq_ok.mpr ⟨?_, hsame, Nat.zero_le _, by simp⟩
      rw [hbuffer]
      exact partition_of_not_mem List.not_mem_nil _
    rw [readTrailerLines_of_line hline]
    simp only [List.map_nil, List.sum_nil, headersSize, Nat.add_zero] at hlogical hheader hwire
    subst hlogical hheader hwire
    exact Except.bind_eq_ok_iff.mpr ⟨(), require_eq_ok.mpr hwireWithin, rfl⟩
  | cons trailer trailers ih =>
    have hlength : trailer.encode.length = trailer.line.length + 2 := List.length_append
    simp only [List.map_cons, List.sum_cons, hlength] at hlogical hheader hwire
    have hsize : headersSize (trailer.header :: trailers.map TrailerLine.header) =
        headersSize [trailer.header] + headersSize (trailers.map TrailerLine.header) := by
      simp [headersSize]
    rw [hsize] at hlogical
    let next : StreamReader :=
      ⟨trailers.flatMap TrailerLine.encode ++ (crlf ++ rest.buffer), reader.limit⟩
    have hline : readLine reader (maximumBytes + 2) = .ok (trailer.line, next) := by
      refine readLine_eq_ok.mpr ⟨?_, rfl, by omega, by omega⟩
      rw [hbuffer]
      show partition crlf (trailer.line ++ crlf ++ _ ++ _) = _
      rw [List.append_assoc, List.append_assoc]
      exact partition_of_not_mem trailer.spells.no_cr _
    have hparsed := parseHeaderLines_singleton.mpr ⟨_, trailer.spells, rfl⟩
    have hnext : readTrailerLines next maximumBytes maximumWireBytes
        (logical + headersSize [trailer.header]) (headerWire + (trailer.line.length + 2))
        (wire + (trailer.line.length + 2)) = .ok ((bytes, headerBytes, wireBytes), rest) :=
      ih hlimit rfl hsame (by omega) (by omega) (by omega)
    rw [readTrailerLines_of_line hline]
    apply Except.bind_eq_ok_iff.mpr
    refine ⟨(), require_eq_ok.mpr (by omega), ?_⟩
    rw [if_neg trailer.spells.ne_nil]
    apply Except.bind_eq_ok_iff.mpr
    refine ⟨_, hparsed, ?_⟩
    exact Except.bind_eq_ok_iff.mpr ⟨(), require_eq_ok.mpr (by omega), hnext⟩

end Trailers

/-! ## Section 5: Chunks -/

section Chunks

variable {reader reader' rest : StreamReader}
  {maximumBodyBytes maximumTrailerBytes maximumWireBytes : Nat} {body : Bytes} {wire : Nat}
  {line : Bytes} {result : Bytes × Nat × Nat × Nat × Nat}

/-- What one round of the loop does behind the size line. -/
theorem readChunks_of_line (h : readLine reader 4096 = .ok (line, reader')) :
    readChunks reader maximumBodyBytes maximumTrailerBytes maximumWireBytes body wire = (do
      require (wire + (line.length + 2) ≤ maximumWireBytes) .outboundHttpLimitExceeded
        (py "HTTP response wire bytes exceed the requested limit")
      require (contains (ascii ";") line = false) .outboundHttpResponseInvalid
        (py "HTTP chunk extensions are unsupported")
      require (line ≠ [] ∧ line.all isHexByte = true) .outboundHttpResponseInvalid
        (py "HTTP chunk size is invalid")
      require ((significantSize line).length ≤ 16) .outboundHttpLimitExceeded
        (py "HTTP response body exceeds the requested limit")
      if hexNumeral (significantSize line) = 0 then
        let (trailers, reader'') ← readTrailers reader' maximumTrailerBytes
          (maximumWireBytes - (wire + (line.length + 2)))
        return ((body, wire + (line.length + 2), trailers), reader'')
      require (hexNumeral (significantSize line) ≤ maximumBodyBytes - body.length)
        .outboundHttpLimitExceeded (py "HTTP response body exceeds the requested limit")
      require (hexNumeral (significantSize line) + 2 ≤
          maximumWireBytes - (wire + (line.length + 2)))
        .outboundHttpLimitExceeded (py "HTTP response wire bytes exceed the requested limit")
      let (chunk, reader'') ← readExactly reader' (hexNumeral (significantSize line) + 2)
      require (chunk.drop (chunk.length - 2) = crlf) .outboundHttpResponseInvalid
        (py "HTTP chunk terminator is invalid")
      readChunks reader'' maximumBodyBytes maximumTrailerBytes maximumWireBytes
        (body ++ chunk.take (chunk.length - 2))
        (wire + (line.length + 2) + (hexNumeral (significantSize line) + 2))) := by
  rw [readChunks]
  split
  · rename_i hline
    rw [h] at hline
    cases hline
  · rename_i hline
    rw [h] at hline
    cases hline
    dsimp only
    iterate 4 refine congrArg (Bind.bind _) (funext fun _ => ?_)
    by_cases hzero : hexNumeral (significantSize line) = 0
    · rw [if_pos hzero, if_pos hzero]
    · rw [if_neg hzero, if_neg hzero]
      iterate 2 refine congrArg (Bind.bind _) (funext fun _ => ?_)
      split
      · rename_i hchunk
        rw [hchunk]
        rfl
      · rename_i hchunk
        rw [hchunk]
        rfl

theorem sizeLine_of_read (hne : line ≠ []) (hdigits : line.all isHexByte = true)
    (hshort : line.length + 2 ≤ 4096) : SizeLine line (hexNumeral (significantSize line)) :=
  ⟨hne, List.all_eq_true.mp hdigits, by omega, (hexNumeral_significantSize line).symm⟩

/-- What the reader has made of a message that begins with these chunks. -/
structure ChunksRead (reader rest : StreamReader) (maximumBodyBytes maximumTrailerBytes
    maximumWireBytes : Nat) (body : Bytes) (wire : Nat) (message : ChunkedMessage)
    (result : Bytes × Nat × Nat × Nat × Nat) : Prop where
  buffer : reader.buffer = message.encode ++ rest.buffer
  limit : rest.limit = reader.limit
  body_eq : result.1 = body ++ message.body
  wire_eq : result.2.1 = wire + message.bodyWireBytes
  trailers_eq : result.2.2 =
    (message.trailerHeaderBytes, message.trailerHeaderWireBytes, message.trailerWireBytes)
  body_within : result.1.length ≤ maximumBodyBytes
  trailers_within : message.trailerHeaderBytes ≤ maximumTrailerBytes
  wire_within : result.2.1 + message.trailerWireBytes ≤ maximumWireBytes

/-- The message with a chunk before it. -/
def ChunkedMessage.cons (chunk : Chunk) (message : ChunkedMessage) : ChunkedMessage :=
  { message with chunks := chunk :: message.chunks }

theorem ChunkedMessage.encode_cons (chunk : Chunk) (message : ChunkedMessage) :
    (message.cons chunk).encode = chunk.encode ++ message.encode := by
  simp [ChunkedMessage.encode, ChunkedMessage.cons]

theorem ChunkedMessage.body_cons (chunk : Chunk) (message : ChunkedMessage) :
    (message.cons chunk).body = chunk.data ++ message.body := by
  simp [ChunkedMessage.body, ChunkedMessage.cons]

theorem ChunkedMessage.bodyWireBytes_cons (chunk : Chunk) (message : ChunkedMessage) :
    (message.cons chunk).bodyWireBytes = chunk.encode.length + message.bodyWireBytes := by
  simp [ChunkedMessage.bodyWireBytes, ChunkedMessage.cons, Nat.add_assoc]

theorem Chunk.length_encode (chunk : Chunk) :
    chunk.encode.length = chunk.line.length + 2 + (chunk.data.length + 2) := by
  simp [Chunk.encode, crlf]
  omega

/-- What `readTrailers` has counted are the sizes of the trailers. -/
theorem TrailersRead.result_eq {maximumBytes maximumWire : Nat} {message : ChunkedMessage}
    {counters : Nat × Nat × Nat}
    (h : TrailersRead reader rest maximumBytes maximumWire 0 0 0 message.trailers counters) :
    counters =
      (message.trailerHeaderBytes, message.trailerHeaderWireBytes, message.trailerWireBytes) := by
  obtain ⟨-, -, hlogical, hheader, hwire, -, -⟩ := h
  rw [Nat.zero_add, Nat.zero_add] at hlogical
  rw [Nat.zero_add] at hheader hwire
  exact Prod.ext hlogical (Prod.ext hheader hwire)

theorem readChunks_sound (hbody : body.length ≤ maximumBodyBytes)
    (h : readChunks reader maximumBodyBytes maximumTrailerBytes maximumWireBytes body wire =
      .ok (result, rest)) :
    ∃ message, ChunksRead reader rest maximumBodyBytes maximumTrailerBytes maximumWireBytes body
      wire message result := by
  induction hn : reader.buffer.length using Nat.strong_induction_on
    generalizing reader body wire with
  | _ n ih =>
    match hline : readLine reader 4096 with
    | .error e =>
      rw [readChunks] at h
      split at h
      · cases h
      · rename_i hok
        rw [hline] at hok
        cases hok
    | .ok (line, reader') =>
      obtain ⟨hparts, hlimit, -, hshort⟩ := readLine_eq_ok.mp hline
      have hbuffer := partition_append hparts
      rw [readChunks_of_line hline] at h
      obtain ⟨_, hwire, h⟩ := Except.bind_eq_ok_iff.mp h
      obtain ⟨_, -, h⟩ := Except.bind_eq_ok_iff.mp h
      obtain ⟨_, hhex, h⟩ := Except.bind_eq_ok_iff.mp h
      obtain ⟨_, -, h⟩ := Except.bind_eq_ok_iff.mp h
      rw [require_eq_ok] at hwire hhex
      have hspells := sizeLine_of_read hhex.1 hhex.2 hshort
      by_cases hzero : hexNumeral (significantSize line) = 0
      · rw [if_pos hzero] at h
        obtain ⟨⟨counters, reader''⟩, htrailers, h⟩ := Except.bind_eq_ok_iff.mp h
        cases h
        obtain ⟨trailers, hread⟩ := readTrailerLines_sound (Nat.zero_le _) htrailers
        let message : ChunkedMessage := ⟨[], line, trailers, hzero ▸ hspells⟩
        have hcounters := @TrailersRead.result_eq _ _ _ _ message _ hread
        have hwithin := hread.within
        have hwireWithin := hread.wire_within
        rw [hcounters] at hwithin hwireWithin
        refine ⟨message, ?_, hread.limit.trans hlimit, ?_, ?_, hcounters, hbody, hwithin, ?_⟩
        · rw [hbuffer, hread.buffer]
          simp [ChunkedMessage.encode, message]
        · exact (List.append_nil _).symm
        · simp [ChunkedMessage.bodyWireBytes, message]
        · dsimp only at hwireWithin ⊢
          omega
      · rw [if_neg hzero] at h
        obtain ⟨_, hsize, h⟩ := Except.bind_eq_ok_iff.mp h
        obtain ⟨_, hroom, h⟩ := Except.bind_eq_ok_iff.mp h
        obtain ⟨⟨chunk, reader''⟩, hchunk, h⟩ := Except.bind_eq_ok_iff.mp h
        obtain ⟨_, hend, h⟩ := Except.bind_eq_ok_iff.mp h
        rw [require_eq_ok] at hsize hroom hend
        obtain ⟨hrest, hsame, hlength⟩ := readExactly_eq_ok.mp hchunk
        have hdata : (chunk.take (chunk.length - 2)).length = hexNumeral (significantSize line) := by
          rw [List.length_take]
          omega
        have hsplit : chunk = chunk.take (chunk.length - 2) ++ crlf := by
          rw [← hend, List.take_append_drop]
        have hne : chunk.take (chunk.length - 2) ≠ [] := by
          intro hempty
          rw [hempty] at hdata
          exact hzero hdata.symm
        have hnext : (body ++ chunk.take (chunk.length - 2)).length ≤ maximumBodyBytes := by
          rw [List.length_append]
          omega
        have hshorter : reader''.buffer.length < n := by
          rw [← hn]
          exact lt_of_le_of_lt (readExactly_shorter hchunk) (readLine_shorter hline)
        obtain ⟨message, hread⟩ := ih _ hshorter hnext h rfl
        let first : Chunk := ⟨line, chunk.take (chunk.length - 2), hdata ▸ hspells, hne⟩
        refine ⟨message.cons first, ?_, hread.limit.trans (hsame.trans hlimit), ?_, ?_,
          hread.trailers_eq, hread.body_within, hread.trailers_within, hread.wire_within⟩
        · rw [hbuffer, hrest, hread.buffer, ChunkedMessage.encode_cons]
          show _ = line ++ (crlf ++ (chunk.take (chunk.length - 2) ++ crlf)) ++ _ ++ _
          rw [← hsplit]
          simp
        · rw [hread.body_eq, ChunkedMessage.body_cons, List.append_assoc]
        · rw [hread.wire_eq, ChunkedMessage.bodyWireBytes_cons, Chunk.length_encode]
          show _ = wire + (line.length + 2 + ((chunk.take (chunk.length - 2)).length + 2) + _)
          omega

theorem SizeLine.read {size : Nat} {tail : Bytes} (h : SizeLine line size)
    (hbuffer : reader.buffer = line ++ (crlf ++ tail)) (hlimit : 4094 ≤ reader.limit) :
    readLine reader 4096 = .ok (line, ⟨tail, reader.limit⟩) := by
  have hshort := h.short
  refine readLine_eq_ok.mpr ⟨?_, rfl, by omega, by omega⟩
  rw [hbuffer]
  exact partition_of_not_mem (not_mem_of_hex h.digits rfl) _

theorem SizeLine.significant {size : Nat} (h : SizeLine line size) (hsize : size < 2 ^ 64) :
    (significantSize line).length ≤ 16 ∧ hexNumeral (significantSize line) = size := by
  refine ⟨?_, (hexNumeral_significantSize line).trans h.value⟩
  by_contra hlong
  have hlarge := le_hexNumeral_of_significant h.digits (Nat.lt_of_not_le hlong)
  rw [h.value] at hlarge
  omega

theorem SizeLine.no_extension {size : Nat} (h : SizeLine line size) :
    contains (ascii ";") line = false := by
  rw [Bool.eq_false_iff]
  intro hcontains
  exact not_mem_of_hex h.digits rfl (contains_singleton.mp hcontains)

/-- A stream that begins with a message within the limits is read so. -/
theorem ChunksRead.read {message : ChunkedMessage}
    (h : ChunksRead reader rest maximumBodyBytes maximumTrailerBytes maximumWireBytes body wire
      message result)
    (hbody : maximumBodyBytes < 2 ^ 63) (hline : 4094 ≤ reader.limit)
    (hlimit : min maximumTrailerBytes maximumWireBytes ≤ reader.limit) :
    readChunks reader maximumBodyBytes maximumTrailerBytes maximumWireBytes body wire =
      .ok (result, rest) := by
  obtain ⟨chunks, last, trailers, hlast⟩ := message
  induction chunks generalizing reader body wire with
  | nil =>
    obtain ⟨hbuffer, hsame, hresult, hwire, hcounters, hwithin, htrailers, hwireWithin⟩ := h
    obtain ⟨bytes, wireBytes, counters⟩ := result
    dsimp only at hresult hwire hcounters hwithin hwireWithin
    set message : ChunkedMessage := ⟨[], last, trailers, hlast⟩ with hmessage
    have hencode : message.encode ++ rest.buffer =
        last ++ (crlf ++ (trailers.flatMap TrailerLine.encode ++ (crlf ++ rest.buffer))) := by
      simp [ChunkedMessage.encode, hmessage]
    have hlength : message.bodyWireBytes = last.length + 2 := Nat.zero_add _
    have hread := hlast.read (hbuffer.trans hencode) hline
    obtain ⟨hsignificant, hzero⟩ := hlast.significant (by norm_num)
    have hcounted : TrailersRead
        ⟨trailers.flatMap TrailerLine.encode ++ (crlf ++ rest.buffer), reader.limit⟩ rest
        maximumTrailerBytes (maximumWireBytes - (wire + (last.length + 2))) 0 0 0 trailers
        counters := by
      rw [hcounters]
      refine ⟨rfl, hsame, ?_, (Nat.zero_add _).symm, ?_, htrailers, ?_⟩
      · rw [Nat.zero_add, Nat.zero_add]
        rfl
      · rw [Nat.zero_add]
        rfl
      · dsimp only
        omega
    have htail := hcounted.read (show min maximumTrailerBytes _ ≤ reader.limit by omega)
    rw [readChunks_of_line hread]
    apply Except.bind_eq_ok_iff.mpr
    refine ⟨(), require_eq_ok.mpr (by omega), ?_⟩
    apply Except.bind_eq_ok_iff.mpr
    refine ⟨(), require_eq_ok.mpr hlast.no_extension, ?_⟩
    apply Except.bind_eq_ok_iff.mpr
    refine ⟨(), require_eq_ok.mpr ⟨hlast.ne_nil, List.all_eq_true.mpr hlast.digits⟩, ?_⟩
    apply Except.bind_eq_ok_iff.mpr
    refine ⟨(), require_eq_ok.mpr hsignificant, ?_⟩
    rw [if_pos hzero]
    apply Except.bind_eq_ok_iff.mpr
    refine ⟨_, htail, ?_⟩
    have hbytes : body = bytes := by
      rw [hresult]
      exact (List.append_nil _).symm
    rw [hwire, hlength, ← hbytes]
    rfl
  | cons chunk chunks ih =>
    have hdata : 1 ≤ chunk.data.length := List.length_pos_iff.mpr chunk.data_ne_nil
    set message : ChunkedMessage := ⟨chunks, last, trailers, hlast⟩ with hmessage
    obtain ⟨hbuffer, hsame, hresult, hwire, hcounters, hwithin, htrailers, hwireWithin⟩ := h
    have hcons : (⟨chunk :: chunks, last, trailers, hlast⟩ : ChunkedMessage) =
      message.cons chunk := rfl
    rw [hcons, ChunkedMessage.encode_cons] at hbuffer
    rw [hcons, ChunkedMessage.body_cons] at hresult
    rw [hcons, ChunkedMessage.bodyWireBytes_cons, Chunk.length_encode] at hwire
    have hlong : (body ++ (chunk.data ++ message.body)).length ≤ maximumBodyBytes :=
      hresult ▸ hwithin
    rw [List.length_append, List.length_append] at hlong
    have hfirst : reader.buffer =
        chunk.line ++ (crlf ++ (chunk.data ++ crlf ++ (message.encode ++ rest.buffer))) := by
      rw [hbuffer]
      simp [Chunk.encode]
    have hread := chunk.spells.read hfirst hline
    obtain ⟨hsignificant, hsize⟩ := chunk.spells.significant (by omega)
    have hpart : (chunk.data ++ crlf).length = chunk.data.length + 2 := List.length_append
    have hchunk : readExactly ⟨chunk.data ++ crlf ++ (message.encode ++ rest.buffer), reader.limit⟩
        (chunk.data.length + 2) =
        .ok (chunk.data ++ crlf, ⟨message.encode ++ rest.buffer, reader.limit⟩) :=
      readExactly_eq_ok.mpr ⟨rfl, rfl, hpart⟩
    have hremaining : ChunksRead ⟨message.encode ++ rest.buffer, reader.limit⟩ rest
        maximumBodyBytes maximumTrailerBytes maximumWireBytes (body ++ chunk.data)
        (wire + (chunk.line.length + 2) + (chunk.data.length + 2)) message result := by
      refine ⟨rfl, hsame, ?_, ?_, hcounters, hwithin, htrailers, hwireWithin⟩
      · rw [hresult, List.append_assoc]
      · rw [hwire]
        omega
    have hnext := @ih ⟨message.encode ++ rest.buffer, reader.limit⟩ _ _ hline hlimit hremaining
    rw [readChunks_of_line hread]
    apply Except.bind_eq_ok_iff.mpr
    refine ⟨(), require_eq_ok.mpr (by omega), ?_⟩
    apply Except.bind_eq_ok_iff.mpr
    refine ⟨(), require_eq_ok.mpr chunk.spells.no_extension, ?_⟩
    apply Except.bind_eq_ok_iff.mpr
    refine ⟨(), require_eq_ok.mpr ⟨chunk.spells.ne_nil, List.all_eq_true.mpr chunk.spells.digits⟩, ?_⟩
    apply Except.bind_eq_ok_iff.mpr
    refine ⟨(), require_eq_ok.mpr hsignificant, ?_⟩
    rw [hsize, if_neg (by omega)]
    apply Except.bind_eq_ok_iff.mpr
    refine ⟨(), require_eq_ok.mpr (by omega), ?_⟩
    apply Except.bind_eq_ok_iff.mpr
    refine ⟨(), require_eq_ok.mpr (by omega), ?_⟩
    apply Except.bind_eq_ok_iff.mpr
    refine ⟨_, hchunk, ?_⟩
    apply Except.bind_eq_ok_iff.mpr
    rw [hpart, Nat.add_sub_cancel, List.drop_left, List.take_left]
    exact ⟨(), require_eq_ok.mpr rfl, hnext⟩

/-! ## Section 6: Errors -/

/-- The errors of the reader. -/
def IsReadError (cls : ErrorClass) : Prop :=
  cls = .outboundHttpResponseInvalid ∨ cls = .outboundHttpLimitExceeded

theorem readLine_raises (maximum : Nat) : Raises IsReadError (readLine reader maximum) := by
  unfold readLine
  split
  · exact Raises.raise_iff.mpr (.inr rfl)
  · exact Raises.raise_iff.mpr (.inl rfl)
  · split
    · exact Raises.raise_iff.mpr (.inr rfl)
    · exact Raises.ok

theorem readExactly_raises (length : Nat) : Raises IsReadError (readExactly reader length) := by
  unfold readExactly
  split
  · exact Raises.raise_iff.mpr (.inl rfl)
  · exact Raises.ok

theorem HttpHeader.new_raises (name value : Text) :
    Raises (fun cls => cls = .outboundHttpRequestInvalid ∨ cls = .outboundHttpLimitExceeded)
      (HttpHeader.new name value) := by
  unfold HttpHeader.new
  split
  · split
    · split
      · exact Raises.raise_iff.mpr (.inl rfl)
      · split
        · exact Raises.ok
        · exact Raises.raise_iff.mpr (.inr rfl)
    · exact Raises.raise_iff.mpr (.inl rfl)
  · exact Raises.raise_iff.mpr (.inl rfl)

/-- A header that is too long leaves as such, everything else as an invalid line. -/
theorem parseHeaderLine_raises (line : Bytes) : Raises IsReadError (parseHeaderLine line) := by
  unfold parseHeaderLine
  apply Raises.bind (Raises.of_require (.inl rfl))
  intro _ _
  split
  · exact Raises.raise_iff.mpr (.inl rfl)
  · apply Raises.of_rewrap (.inl rfl)
    apply Raises.bind
    · unfold decodeAscii
      apply Raises.bind (Raises.of_require (.inl rfl))
      exact fun _ _ => Raises.ok
    intro _ _
    apply Raises.bind (Raises.of_require (.inl rfl))
    intro _ _
    apply (HttpHeader.new_raises _ _).mono
    rintro cls (rfl | rfl)
    · exact .inl rfl
    · exact .inr (.inr rfl)

theorem parseHeaderLines_raises (lines : List Bytes) :
    Raises IsReadError (parseHeaderLines lines) := by
  induction lines with
  | nil => exact Raises.ok
  | cons line lines ih =>
    unfold parseHeaderLines at ih ⊢
    rw [List.mapM_cons]
    apply (parseHeaderLine_raises line).bind
    intro _ _
    apply ih.bind
    exact fun _ _ => Raises.ok

theorem readTrailerLines_raises (maximumBytes maximumWireBytes logical headerWire wire : Nat) :
    Raises IsReadError
      (readTrailerLines reader maximumBytes maximumWireBytes logical headerWire wire) := by
  induction hn : reader.buffer.length using Nat.strong_induction_on
    generalizing reader logical headerWire wire with
  | _ n ih =>
    match hline : readLine reader (maximumBytes + 2) with
    | .error e =>
      rw [readTrailerLines]
      split
      · rename_i hfail
        exact Raises.error_iff.mpr ((readLine_raises _).of_error _ hfail)
      · rename_i hok
        rw [hline] at hok
        cases hok
    | .ok (line, reader') =>
      rw [readTrailerLines_of_line hline]
      apply Raises.bind (Raises.of_require (.inr rfl))
      intro _ _
      split
      · exact Raises.ok
      apply (parseHeaderLines_raises _).bind
      intro _ _
      apply Raises.bind (Raises.of_require (.inr rfl))
      exact fun _ _ => ih _ (hn ▸ readLine_shorter hline) _ _ _ rfl

theorem readChunks_raises (maximumBodyBytes maximumTrailerBytes maximumWireBytes : Nat)
    (body : Bytes) (wire : Nat) :
    Raises IsReadError
      (readChunks reader maximumBodyBytes maximumTrailerBytes maximumWireBytes body wire) := by
  induction hn : reader.buffer.length using Nat.strong_induction_on
    generalizing reader body wire with
  | _ n ih =>
    match hline : readLine reader 4096 with
    | .error e =>
      rw [readChunks]
      split
      · rename_i hfail
        exact Raises.error_iff.mpr ((readLine_raises _).of_error _ hfail)
      · rename_i hok
        rw [hline] at hok
        cases hok
    | .ok (line, reader') =>
      rw [readChunks_of_line hline]
      apply Raises.bind (Raises.of_require (.inr rfl))
      intro _ _
      apply Raises.bind (Raises.of_require (.inl rfl))
      intro _ _
      apply Raises.bind (Raises.of_require (.inl rfl))
      intro _ _
      apply Raises.bind (Raises.of_require (.inr rfl))
      intro _ _
      split
      · apply Raises.bind (readTrailerLines_raises _ _ _ _ _)
        exact fun _ _ => Raises.ok
      apply Raises.bind (Raises.of_require (.inr rfl))
      intro _ _
      apply Raises.bind (Raises.of_require (.inr rfl))
      intro _ _
      apply Raises.bind (readExactly_raises _)
      rintro ⟨chunk, reader''⟩ hchunk
      apply Raises.bind (Raises.of_require (.inl rfl))
      intro _ _
      have hshorter : reader''.buffer.length < n := by
        rw [← hn]
        exact lt_of_le_of_lt (readExactly_shorter hchunk) (readLine_shorter hline)
      exact ih _ hshorter _ _ rfl

end Chunks

/-- Within limits that fit in 63 bits and with a buffer for every line, the reader
    returns what a chunked message carries, and its sizes, exactly when the stream
    begins with one within the limits; otherwise it raises one of its errors. -/
theorem readChunkedBody_exact (reader : StreamReader)
    (maximumBodyBytes maximumTrailerBytes maximumWireBytes : Nat)
    (hbody : maximumBodyBytes < 2 ^ 63) (hline : 4094 ≤ reader.limit)
    (hlimit : min maximumTrailerBytes maximumWireBytes ≤ reader.limit) :
    (∀ body bodyWire trailerHeader trailerHeaderWire trailerWire rest,
      readChunkedBody reader maximumBodyBytes maximumTrailerBytes maximumWireBytes =
          .ok ((body, bodyWire, trailerHeader, trailerHeaderWire, trailerWire), rest) ↔
        ∃ message : ChunkedMessage,
          message.Within maximumBodyBytes maximumTrailerBytes maximumWireBytes ∧
          reader.buffer = message.encode ++ rest.buffer ∧ rest.limit = reader.limit ∧
          body = message.body ∧ bodyWire = message.bodyWireBytes ∧
          trailerHeader = message.trailerHeaderBytes ∧
          trailerHeaderWire = message.trailerHeaderWireBytes ∧
          trailerWire = message.trailerWireBytes ∧
          bodyWire + trailerWire = message.encode.length) ∧
    Raises IsReadError
      (readChunkedBody reader maximumBodyBytes maximumTrailerBytes maximumWireBytes) := by
  refine ⟨fun body bodyWire trailerHeader trailerHeaderWire trailerWire rest => ⟨?_, ?_⟩,
    readChunks_raises _ _ _ _ _⟩
  · intro h
    obtain ⟨message, hread⟩ := readChunks_sound (Nat.zero_le _) h
    obtain ⟨hbuffer, hsame, hresult, hwire, hcounters, hwithin, htrailers, hwireWithin⟩ := hread
    dsimp only at hresult hwire hcounters hwithin hwireWithin
    rw [List.nil_append] at hresult
    rw [Nat.zero_add] at hwire
    simp only [Prod.mk.injEq] at hcounters
    obtain ⟨htrailer, hheader, htail⟩ := hcounters
    rw [hresult] at hwithin
    rw [hwire] at hwireWithin
    refine ⟨message, ⟨hwithin, htrailers, hwireWithin⟩, hbuffer, hsame, hresult, hwire, htrailer,
      hheader, htail, ?_⟩
    rw [hwire, htail, message.wire_eq_length]
  · rintro ⟨message, hwithin, hbuffer, hsame, rfl, rfl, rfl, rfl, rfl, -⟩
    have hread : ChunksRead reader rest maximumBodyBytes maximumTrailerBytes maximumWireBytes [] 0
        message (message.body, message.bodyWireBytes, message.trailerHeaderBytes,
          message.trailerHeaderWireBytes, message.trailerWireBytes) :=
      ⟨hbuffer, hsame, rfl, (Nat.zero_add _).symm, rfl, hwithin.body, hwithin.trailers, hwithin.wire⟩
    exact hread.read hbody hline hlimit

/-- One chunk of three bytes, and no trailers. -/
def greeting : ChunkedMessage where
  chunks := [{
    line := ascii "003"
    data := ascii "abc"
    spells := ⟨by decide, List.all_eq_true.mp rfl, by decide, rfl⟩
    data_ne_nil := by decide }]
  last := ascii "0"
  trailers := []
  last_zero := ⟨by decide, List.all_eq_true.mp rfl, by decide, rfl⟩

theorem readChunkedBody_exact_greeting :
    readChunkedBody ⟨ascii "003\r\nabc\r\n0\r\n\r\nHTTP", 4096⟩ 3 0 20 =
      .ok ((ascii "abc", 13, 0, 0, 2), ⟨ascii "HTTP", 4096⟩) :=
  ((readChunkedBody_exact ⟨ascii "003\r\nabc\r\n0\r\n\r\nHTTP", 4096⟩ 3 0 20 (by norm_num)
    (by decide) (by decide)).1 (ascii "abc") 13 0 0 2 ⟨ascii "HTTP", 4096⟩).mpr
    ⟨greeting, ⟨by decide, by decide, by decide⟩, rfl, rfl, rfl, rfl, rfl, rfl, rfl, rfl⟩
