import MemSandbox.Lib.Text

/-! # The tar format

    What Python's `tarfile` writes in the PAX format, and how it reads one
    header block:

    - `createHeader`, `paxRecord`, `memberBytes`, `archiveBytes` write,
    - `frombuf` reads a header block,
    - `frombuf_createHeader`: what is written is read back.

    A member of the PAX format whose name is too long or not ASCII, or whose
    size does not fit its field, is preceded by a member of type `x` with the
    values as text. -/

namespace Tar

open Python

/-! ## Section 1: Constants and slices -/

def BLOCKSIZE : Nat := 512
def RECORDSIZE : Nat := 10240

def REGTYPE : Byte := 48
def AREGTYPE : Byte := 0
def DIRTYPE : Byte := 53
def XHDTYPE : Byte := 120
def XGLTYPE : Byte := 103
def GNUTYPE_LONGNAME : Byte := 76
def GNUTYPE_LONGLINK : Byte := 75
def GNUTYPE_SPARSE : Byte := 83
def SOLARIS_XHDTYPE : Byte := 88

/-- `ustar`, a NUL and the version. -/
def POSIX_MAGIC : Bytes := ascii "ustar" ++ [0] ++ ascii "00"

/-- `ustar`, two blanks and a NUL. -/
def GNU_MAGIC : Bytes := ascii "ustar  " ++ [0]

/-- `b[start:stop]`. -/
def slice (b : List α) (start stop : Nat) : List α := (b.drop start).take (stop - start)

/-- `n * NUL`. -/
def zeros (n : Nat) : Bytes := List.replicate n 0

/-! ## Section 2: Writing -/

/-- `text.encode("ascii", "replace")`. -/
def asciiReplace (t : Text) : Bytes :=
  t.map fun c => if c.val < 128 then Fin.ofNat 256 c.val else 63

/-- A text without characters outside ASCII. -/
def isAscii (t : Text) : Bool := t.all fun c => c.val < 128

/-- `stn`: a text field. -/
def stn (s : Bytes) (length : Nat) : Bytes := s.take length ++ zeros (length - s.length)

/-- `%0*o`, for a number of at most so many octal digits. -/
def octal : Nat → Nat → Bytes
  | 0, _ => []
  | width + 1, n => octal width (n / 8) ++ [Fin.ofNat 256 (48 + n % 8)]

/-- `itn`: a number field of so many bytes. -/
def itn (n digits : Nat) : Bytes := octal (digits - 1) n ++ [0]

/-- The sum that `calc_chksums` takes of the bytes outside the checksum field. -/
def checksum (buf : Bytes) : Nat :=
  256 + ((slice buf 0 148).map Fin.val).sum + ((slice buf 156 512).map Fin.val).sum

/-- The value of a byte as a signed character. -/
def signedByte (b : Byte) : Int := if b.val < 128 then b.val else (b.val : Int) - 256

/-- The same sum over signed characters. -/
def signedChecksum (buf : Bytes) : Int :=
  256 + ((slice buf 0 148).map signedByte).sum + ((slice buf 156 512).map signedByte).sum

/-- The fields of a header, with its checksum field given. -/
def headerFields (name : Text) (mode size : Nat) (type : Byte) (chksum : Bytes) : List Bytes :=
  [stn (asciiReplace name) 100, itn mode 8, itn 0 8, itn 0 8, itn size 12, itn 0 12, chksum,
    [type], zeros 100, POSIX_MAGIC, zeros 32, zeros 32, zeros 8, zeros 8, zeros 155, zeros 12]

/-- `TarInfo._create_header`, for a member of no owner, link or device and of time 0. -/
def createHeader (name : Text) (mode size : Nat) (type : Byte) : Bytes :=
  let buf := (headerFields name mode size type (List.replicate 8 32)).flatten
  (headerFields name mode size type (octal 6 (checksum buf) ++ [0, 32])).flatten

/-- The bytes that fill up the last block of a payload. -/
def padding (size : Nat) : Nat := (BLOCKSIZE - size % BLOCKSIZE) % BLOCKSIZE

/-- `TarInfo._create_payload`. -/
def createPayload (payload : Bytes) : Bytes := payload ++ zeros (padding payload.length)

/-- ASCII bytes of a text of digits. -/
def digitBytes (n : Nat) : Bytes := asciiReplace (Text.ofNat n)

/-- The loop of `_create_pax_generic_header` that finds the length of a record,
    which counts its own digits; the fuel bounds how often it may grow. -/
def recordLength (l : Nat) : Nat → Nat → Option Nat
  | 0, _ => none
  | fuel + 1, p =>
    if l + (digitBytes p).length = p then some p
    else recordLength l fuel (l + (digitBytes p).length)

/-- The number of digits that `str` converts. -/
def maxDigits : Nat := 4300

/-- A PAX record: its length, the keyword and the value.  `none` stands for the
    `ValueError` of a length with too many digits. -/
def paxRecord (keyword value : Bytes) : Option Bytes := do
  let l := keyword.length + value.length + 3
  let p ← recordLength l (2 * l + 6) 0
  guard ((digitBytes p).length ≤ maxDigits)
  return digitBytes p ++ ascii " " ++ keyword ++ ascii "=" ++ value ++ ascii "\n"

/-- A member as `addfile` receives it: a directory, or a file with content. -/
structure Member where
  name : Text
  content : Option Bytes
  deriving DecidableEq

namespace Member

/-- The name that is written: that of a directory ends with a separator. -/
def written (m : Member) : Text :=
  match m.content with
  | some _ => m.name
  | none => if endsWith m.name (py "/") then m.name else m.name ++ py "/"

def type (m : Member) : Byte := if m.content.isSome then REGTYPE else DIRTYPE

def mode (m : Member) : Nat := if m.content.isSome then 0o644 else 0o755

def data (m : Member) : Bytes := m.content.getD []

/-- The name does not fit its field. -/
def namePax (m : Member) : Bool := !isAscii m.written || 100 < m.written.length

/-- The size does not fit its field. -/
def sizePax (m : Member) : Bool := 8 ^ 11 ≤ m.data.length

/-- The records of the PAX header; `none` stands for the errors of text that is
    not UTF-8 and of numbers that are too long. -/
def records (m : Member) : Option Bytes := do
  let path ←
    if m.namePax then do
      let value ← encodeUtf8 m.written
      paxRecord (ascii "path") value
    else some []
  let size ←
    if m.sizePax then do
      guard ((digitBytes m.data.length).length ≤ maxDigits)
      paxRecord (ascii "size") (digitBytes m.data.length)
    else some []
  return path ++ size

/-- The member's own header. -/
def header (m : Member) : Bytes :=
  createHeader m.written m.mode (if m.sizePax then 0 else m.data.length) m.type

/-- `TarInfo.create_pax_header`. -/
def headers (m : Member) : Option Bytes := do
  let records ← m.records
  if m.namePax || m.sizePax then
    return createHeader (py "././@PaxHeader") 0 records.length XHDTYPE ++ createPayload records ++
      m.header
  else
    return m.header

/-- What `TarFile.addfile` writes. -/
def bytes (m : Member) : Option Bytes := do
  let headers ← m.headers
  return headers ++ createPayload m.data

end Member

/-- What `addfile` writes for every member. -/
def contentBytes : List Member → Option Bytes
  | [] => some []
  | m :: rest => do
    let head ← m.bytes
    let tail ← contentBytes rest
    return head ++ tail

/-- What `TarFile.close` writes after so many bytes. -/
def trailer (offset : Nat) : Bytes :=
  let stop := offset + 2 * BLOCKSIZE
  zeros (2 * BLOCKSIZE + (RECORDSIZE - stop % RECORDSIZE) % RECORDSIZE)

/-- A whole archive. -/
def archiveBytes (members : List Member) : Option Bytes := do
  let content ← contentBytes members
  return content ++ trailer content.length

/-! ## Section 3: Reading a header -/

/-- The bytes before the first NUL. -/
def untilNul (s : Bytes) : Bytes := s.takeWhile (· ≠ 0)

/-- `nts`, for UTF-8. -/
def nts (s : Bytes) : Option Text := decodeUtf8 (untilNul s)

/-- ASCII whitespace, as `str.strip` has it. -/
def isSpace (c : CodePoint) : Bool :=
  (9 ≤ c.val && c.val ≤ 13) || (28 ≤ c.val && c.val ≤ 32)

/-- `text.strip()`. -/
def strip (t : Text) : Text := ((t.dropWhile isSpace).reverse.dropWhile isSpace).reverse

/-- An octal digit. -/
def octalDigit? (c : CodePoint) : Option Nat :=
  if 48 ≤ c.val ∧ c.val ≤ 55 then some (c.val - 48) else none

/-- Octal digits after a first one; between two of them an underscore may stand. -/
def octalRest : Text → Nat → Option Nat
  | [], n => some n
  | c :: rest, n =>
    match octalDigit? c with
    | some d => octalRest rest (8 * n + d)
    | none =>
      if c = 0x5F then
        match rest with
        | [] => none
        | d :: rest => (octalDigit? d).bind fun d => octalRest rest (8 * n + d)
      else
        none

/-- A non-empty text of octal digits. -/
def octalText : Text → Option Nat
  | [] => none
  | c :: rest => (octalDigit? c).bind (octalRest rest)

/-- What may follow the prefix `0o`. -/
def octalAfterPrefix : Text → Option Nat
  | [] => none
  | c :: rest => if c = 0x5F then octalText rest else octalText (c :: rest)

/-- `int(text, 8)` without a sign. -/
def octalUnsigned : Text → Option Nat
  | c :: d :: rest =>
    if c = 0x30 ∧ (d = 0x6F ∨ d = 0x4F) then octalAfterPrefix rest else octalText (c :: d :: rest)
  | t => octalText t

/-- `int(text, 8)`, of a text without whitespace around it. -/
def octalInt : Text → Option Int
  | [] => none
  | c :: rest =>
    if c = 0x2D then (octalUnsigned rest).map fun n => -(n : Int)
    else if c = 0x2B then (octalUnsigned rest).map fun n => (n : Int)
    else (octalUnsigned (c :: rest)).map fun n => (n : Int)

/-- The number that big-endian bytes denote. -/
def bigEndian (s : Bytes) : Nat := s.foldl (fun n b => 256 * n + b.val) 0

/-- `nti`: a number field. -/
def nti (s : Bytes) : Option Int :=
  match s with
  | [] => none
  | b :: rest =>
    if b = 0o200 then
      some (bigEndian rest)
    else if b = 0o377 then
      some (-((256 ^ rest.length : Nat) - (bigEndian rest : Int)))
    else if (untilNul s).all fun b => b.val < 128 then
      let digits := strip ((untilNul s).map fun b => Fin.ofNat 0x110000 b.val)
      if digits = [] then some 0 else octalInt digits
    else
      none

/-- A header as `TarInfo` holds it. -/
structure TarInfo where
  name : Text
  size : Int
  type : Byte

/-- `TarInfo.isdir`. -/
def TarInfo.isdir (info : TarInfo) : Bool := info.type = DIRTYPE

/-- The fields of the old sparse format are numbers. -/
def sparseFields (buf : Bytes) : Option Unit := do
  for i in List.range 4 do
    let _ ← nti (slice buf (386 + 24 * i) (386 + 24 * i + 12))
    let _ ← nti (slice buf (386 + 24 * i + 12) (386 + 24 * i + 24))
  let _ ← nti (slice buf 483 495)
  return ()

/-- The types that GNU tar defines. -/
def GNU_TYPES : List Byte := [GNUTYPE_LONGNAME, GNUTYPE_LONGLINK, GNUTYPE_SPARSE]

/-- `text.rstrip("/")`. -/
def rstripSlash (t : Text) : Text := (t.reverse.dropWhile (· = CodePoint.ofChar '/')).reverse

/-- The type and the name that `frombuf` settles on. -/
def settle (name linkPrefix : Text) (type : Byte) : Text × Byte :=
  let type := if type = AREGTYPE ∧ endsWith name (py "/") then DIRTYPE else type
  let name := if type = DIRTYPE then rstripSlash name else name
  (if linkPrefix ≠ [] ∧ type ∉ GNU_TYPES then linkPrefix ++ py "/" ++ name else name, type)

/-- `TarInfo.frombuf`, for UTF-8; `none` stands for its errors. -/
def frombuf (buf : Bytes) : Option TarInfo := do
  guard (buf.length = BLOCKSIZE ∧ ¬ buf.all (· = 0))
  let chksum ← nti (slice buf 148 156)
  guard (chksum = checksum buf ∨ chksum = signedChecksum buf)
  let name ← nts (slice buf 0 100)
  let _ ← nti (slice buf 100 108)
  let _ ← nti (slice buf 108 116)
  let _ ← nti (slice buf 116 124)
  let size ← nti (slice buf 124 136)
  let _ ← nti (slice buf 136 148)
  let type ← (slice buf 156 157).head?
  let _ ← nts (slice buf 157 257)
  let _ ← nts (slice buf 265 297)
  let _ ← nts (slice buf 297 329)
  let _ ← nti (slice buf 329 337)
  let _ ← nti (slice buf 337 345)
  let linkPrefix ← nts (slice buf 345 500)
  if type = GNUTYPE_SPARSE then sparseFields buf else some ()
  let (name, type) := settle name linkPrefix type
  return ⟨name, size, type⟩

end Tar
