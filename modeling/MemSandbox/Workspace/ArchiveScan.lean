import MemSandbox.Workspace.ArchiveNames
import MemSandbox.Lib.Tar

/-! # The physical members of an archive

    The first of the two readers of `workspace/archive_codec.py`: it goes
    through the header blocks itself, admits only the extensions it
    understands, and returns for every member the name it will have. -/

open Python Tar

namespace PortableWorkspaceArchiveCodec

/-! ## Section 1: Names in a header -/

/-- `_decode_header_path_field`. -/
def decodeHeaderPathField (field : Bytes) : Except PyError Text := do
  let name := untilNul field
  requireSound ((field.drop (name.length + 1)).all (· = 0))
    (py "archive member path contains embedded NUL data")
  match decodeUtf8 name with
  | none => corrupt (py "archive member path must be valid UTF-8")
  | some text => .ok text

/-- `_raw_header_name`. -/
def rawHeaderName (header : Bytes) : Except PyError Text := do
  let name ← decodeHeaderPathField (slice header 0 100)
  let fieldPrefix ← decodeHeaderPathField (slice header 345 500)
  if slice header 257 265 = POSIX_MAGIC then
    .ok (if fieldPrefix ≠ [] then fieldPrefix ++ py "/" ++ name else name)
  else if slice header 257 265 = GNU_MAGIC then do
    requireSound (fieldPrefix = [])
      (py "archive GNU header contains unsupported extended prefix data")
    .ok name
  else do
    requireSound (fieldPrefix = [])
      (py "archive non-POSIX header contains unsupported prefix semantics")
    .ok name

/-! ## Section 2: PAX records -/

/-- `_precheck_encoded_member_path`, on the bytes of the value. -/
def precheckEncodedMemberPath (value : Bytes) (limits : WorkspaceLimits) : Except PyError Unit :=
  if value = ascii "." ∨ value = ascii "./" then
    .ok ()
  else do
    let value := if startsWith value (ascii "./") then value.drop 2 else value
    let value :=
      if endsWith value (ascii "/") ∧ ¬ endsWith value (ascii "//") then value.dropLast else value
    requireBounded (SandboxPath.ROOT.length + 1 + value.length ≤ limits.maxPathBytes)
      (pathMessage limits)
    requireBounded ((value.splitOn (47 : Byte)).all (·.length ≤ limits.maxSegmentBytes))
      (segmentMessage limits)

/-- One record of a PAX payload, its key still encoded. -/
structure PaxRecord where
  key : Bytes
  value : Bytes
  rest : Bytes

/-- The length that starts a record; `int` takes at most so many digits. -/
def paxLength (digits : Bytes) : Except PyError Nat := do
  requireSound (digits ≠ [] ∧ ∀ b ∈ digits, 48 ≤ b.val ∧ b.val ≤ 57)
    (py "archive PAX record has an invalid length")
  requireSound (digits.length ≤ maxDigits) (py "archive PAX record length is invalid")
  .ok (digits.foldl (fun n b => 10 * n + (b.val - 48)) 0)

/-- The record that a payload starts with. -/
def paxRecordOf (payload : Bytes) : Except PyError PaxRecord := do
  let separator := payload.idxOf 32
  requireSound (separator < payload.length)
    (py "archive PAX record is missing its length separator")
  let recordLength ← paxLength (payload.take separator)
  requireSound (separator + 1 < recordLength ∧ recordLength ≤ payload.length)
    (py "archive PAX record length exceeds its payload")
  requireSound (payload[recordLength - 1]? = some 10)
    (py "archive PAX record is not newline terminated")
  let body := slice payload (separator + 1) (recordLength - 1)
  let equals := body.idxOf 61
  requireSound (0 < equals ∧ equals < body.length)
    (py "archive PAX record is not a key-value assignment")
  .ok ⟨body.take equals, body.drop (equals + 1), payload.drop recordLength⟩

/-- The path that a record sets, if it is one that does. -/
def paxPathOf (record : PaxRecord) (limits : WorkspaceLimits) : Except PyError (Option Text) :=
  match decodeUtf8 record.key with
  | none => corrupt (py "archive PAX key must be valid UTF-8")
  | some key => do
    requireSound (key ≠ py "size" ∧ startsWith key (py "GNU.sparse") = false)
      (py "archive PAX metadata changes unsupported payload semantics: " ++ key)
    if key = py "path" then do
      precheckEncodedMemberPath record.value limits
      match decodeUtf8 record.value with
      | none => corrupt (py "archive PAX path must be valid UTF-8")
      | some value => do
        let _ ← canonicalMemberName value true
        .ok (some value)
    else
      .ok none

/-- The loop of `_pax_path_from_payload`; the fuel is the length of the payload. -/
def paxLoop (limits : WorkspaceLimits) (maxRecords : Nat) :
    Nat → Bytes → Option Text → Nat → Except PyError (Option Text × Nat)
  | _, [], path, recordCount => .ok (path, recordCount)
  | 0, _ :: _, _, _ => raise .runtimeError (py "unreachable")
  | fuel + 1, payload, path, recordCount => do
    requireBounded (recordCount + 1 ≤ maxRecords)
      (py "archive contains more than " ++ Text.ofNat limits.maxNodes ++ py " PAX records")
    let record ← paxRecordOf payload
    let found ← paxPathOf record limits
    paxLoop limits maxRecords fuel record.rest (found <|> path) (recordCount + 1)

/-- `_pax_path_from_payload`. -/
def paxPathFromPayload (payload : Bytes) (limits : WorkspaceLimits) (maxRecords : Nat) :
    Except PyError (Option Text × Nat) :=
  paxLoop limits maxRecords payload.length payload none 0

/-! ## Section 3: The scan -/

/-- `_ScannedTarMember`. -/
structure ScannedTarMember where
  rawName : Text
  effectiveName : Text

/-- `_padded_block_bytes`. -/
def paddedBlockBytes (size : Nat) : Nat := (size + BLOCKSIZE - 1) / BLOCKSIZE * BLOCKSIZE

/-- `_require_complete_tar`. -/
def requireCompleteTar (encoded : Bytes) (contentEnd : Nat) : Except PyError Unit :=
  let trailer := encoded.drop contentEnd
  requireSound (contentEnd % BLOCKSIZE = 0 ∧ encoded.length % BLOCKSIZE = 0 ∧
      2 * BLOCKSIZE ≤ trailer.length ∧ trailer.all (· = 0))
    (py "archive must end with two zero blocks and zero-only block padding")

/-- The local variables of `_scan_tar_members`. -/
structure ScanState where
  members : List ScannedTarMember
  localPaxPending : Bool
  localPaxPath : Option Text
  globalPaxSeen : Bool
  paxRecordCount : Nat

def ScanState.start : ScanState := ⟨[], false, none, false, 0⟩

def UNSUPPORTED_EXTENSION_TYPES : List Byte :=
  [GNUTYPE_LONGNAME, GNUTYPE_LONGLINK, GNUTYPE_SPARSE, SOLARIS_XHDTYPE]

/-- A local PAX header. -/
def scanLocalPax (limits : WorkspaceLimits) (payload : Bytes) (s : ScanState) :
    Except PyError ScanState := do
  requireSound (s.localPaxPending = false) (py "archive contains stacked local PAX headers")
  let (path, parsedRecords) ← paxPathFromPayload payload limits (limits.maxNodes - s.paxRecordCount)
  .ok { s with
    localPaxPending := true
    localPaxPath := path
    paxRecordCount := s.paxRecordCount + parsedRecords }

/-- A global PAX header. -/
def scanGlobalPax (limits : WorkspaceLimits) (payload : Bytes) (s : ScanState) :
    Except PyError ScanState := do
  requireSound (s.localPaxPending = false)
    (py "archive global PAX header cannot follow a local PAX header")
  requireSound (s.globalPaxSeen = false) (py "archive contains multiple global PAX headers")
  let (path, parsedRecords) ← paxPathFromPayload payload limits (limits.maxNodes - s.paxRecordCount)
  requireSound (path = none) (py "archive global PAX path metadata is unsupported")
  .ok { s with globalPaxSeen := true, paxRecordCount := s.paxRecordCount + parsedRecords }

/-- A member. -/
def scanMember (limits : WorkspaceLimits) (header : Bytes) (info : TarInfo) (s : ScanState) :
    Except PyError ScanState := do
  let rawName ← rawHeaderName header
  validateRawHeaderName rawName info.isdir s.localPaxPath.isSome
  let effectiveName := s.localPaxPath.getD rawName
  let _ ← canonicalMemberName effectiveName info.isdir
  let members := s.members ++ [⟨rawName, effectiveName⟩]
  requireBounded (members.length ≤ limits.maxNodes)
    (py "archive contains more than " ++ Text.ofNat limits.maxNodes ++ py " members")
  .ok { s with members, localPaxPending := false, localPaxPath := none }

/-- What the loop does with one header and its payload. -/
def scanBlock (limits : WorkspaceLimits) (header payload : Bytes) (info : TarInfo)
    (s : ScanState) : Except PyError ScanState :=
  if info.type = XHDTYPE then
    scanLocalPax limits payload s
  else if info.type = XGLTYPE then
    scanGlobalPax limits payload s
  else if info.type ∈ UNSUPPORTED_EXTENSION_TYPES then
    corrupt (py "archive member uses an unsupported extension: " ++ info.name)
  else
    scanMember limits header info s

/-- The loop of `_scan_tar_members`; the fuel bounds the blocks that are left. -/
def scanLoop (encoded : Bytes) (limits : WorkspaceLimits) :
    Nat → Nat → ScanState → Except PyError (List ScannedTarMember)
  | 0, _, _ => raise .runtimeError (py "unreachable")
  | fuel + 1, cursor, s =>
    if cursor + BLOCKSIZE ≤ encoded.length then
      let header := slice encoded cursor (cursor + BLOCKSIZE)
      if header.all (· = 0) then do
        requireSound (s.localPaxPending = false) (py "archive local PAX header has no member")
        requireCompleteTar encoded cursor
        .ok s.members
      else
        match frombuf header with
        | none => corrupt (py "archive contains a malformed physical header")
        | some info => do
          requireSound (0 ≤ info.size) (py "archive physical member has a negative size")
          let payloadStart := cursor + BLOCKSIZE
          let payloadEnd := payloadStart + info.size.toNat
          let nextHeader := payloadStart + paddedBlockBytes info.size.toNat
          requireSound (payloadEnd ≤ encoded.length ∧ nextHeader ≤ encoded.length)
            (py "archive physical member payload is truncated")
          requireSound ((slice encoded payloadEnd nextHeader).all (· = 0))
            (py "archive physical member padding must be zero-filled")
          let next ← scanBlock limits header (slice encoded payloadStart payloadEnd) info s
          scanLoop encoded limits fuel nextHeader next
    else
      corrupt (py "archive is missing complete end-of-archive blocks")

/-- `_scan_tar_members`. -/
def scanTarMembers (encoded : Bytes) (limits : WorkspaceLimits) :
    Except PyError (List ScannedTarMember) :=
  scanLoop encoded limits (encoded.length / BLOCKSIZE + 1) 0 .start

end PortableWorkspaceArchiveCodec
