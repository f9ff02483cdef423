import MemSandbox.Workspace.ArchiveScan

/-! # The portable archive codec

    `workspace/archive_codec.py`.  Python's readers of gzip data and of tar
    archives are parameters: what they deliver is arbitrary, and so are the
    exceptions they raise.  The writer is the one of the tar library. -/

open Python Tar FileMap

namespace PortableWorkspaceArchiveCodec

/-! ## Section 1: The readers -/

/-- The payload of a member: what can be read of it, and the exception that
    ends it, if one does. -/
structure TarStream where
  content : Bytes
  failure : Option PyError

/-- A member as the tar reader delivers it, with what `extractfile` returns. -/
structure TarMember where
  name : Text
  type : Byte
  size : Int
  sparse : Bool
  paxKeys : List Text
  payload : Except PyError (Option TarStream)

/-- `TarInfo.isdir`. -/
def TarMember.isdir (member : TarMember) : Bool := member.type = DIRTYPE

/-- `tarfile.open(fileobj=io.BytesIO(encoded), mode="r:")` and the iteration over
    it: the members, and then an exception or the offset after the last. -/
class TarReader where
  read : Bytes → List TarMember × Except PyError Nat

/-- `gzip.GzipFile(fileobj=io.BytesIO(encoded), mode="rb")`: what the last of
    several reads of given sizes delivers. -/
class GzipReader where
  read : Bytes → List Nat → Except PyError Bytes

/-! ## Section 2: Expansion -/

def CHUNK_BYTES : Nat := 64 * 1024

def GZIP_MAGIC : Bytes := [0x1F, 0x8B]
def BZIP2_MAGIC : Bytes := ascii "BZh"
def XZ_MAGIC : Bytes := [0xFD] ++ ascii "7zXZ" ++ [0]
def ZSTD_MAGIC : Bytes := [0x28, 0xB5, 0x2F, 0xFD]
def ZIP_MAGICS : List Bytes :=
  [ascii "PK" ++ [3, 4], ascii "PK" ++ [5, 6], ascii "PK" ++ [7, 8]]

/-- The loop of `_read_bounded`; the fuel is one more than the bytes it may keep. -/
def readLoop (read : List Nat → Except PyError Bytes) (maxBytes : Nat) :
    Nat → List Nat → Bytes → Except PyError Bytes
  | 0, _, _ => raise .runtimeError (py "unreachable")
  | fuel + 1, asked, content => do
    let asked := asked ++ [min CHUNK_BYTES (maxBytes - content.length + 1)]
    let chunk ← read asked
    if chunk = [] then
      .ok content
    else do
      requireBounded (content.length + chunk.length ≤ maxBytes)
        (py "archive expands beyond the " ++ Text.ofNat maxBytes ++ py "-byte limit")
      readLoop read maxBytes fuel asked (content ++ chunk)

/-- `_read_bounded`. -/
def readBounded (read : List Nat → Except PyError Bytes) (maxBytes : Nat) :
    Except PyError Bytes :=
  readLoop read maxBytes (maxBytes + 1) [] []

/-- `_starts_with_valid_tar_header`. -/
def startsWithValidTarHeader (encoded : Bytes) : Bool :=
  BLOCKSIZE ≤ encoded.length && (frombuf (slice encoded 0 BLOCKSIZE)).isSome

/-- What `except (EOFError, OSError, gzip.BadGzipFile)` catches. -/
def isGzipError (c : ErrorClass) : Bool := c = .eofError || c.isOSError

/-- The magic of a compression that is not supported. -/
def isUnsupportedMagic (encoded : Bytes) : Bool :=
  startsWith encoded BZIP2_MAGIC || startsWith encoded XZ_MAGIC || startsWith encoded ZSTD_MAGIC ||
    ZIP_MAGICS.any fun magic => startsWith encoded magic

/-- `_expand_archive`. -/
def expandArchive [GzipReader] (encoded : Bytes) (maxBytes : Nat) : Except PyError Bytes :=
  if startsWith encoded GZIP_MAGIC then
    rewrap (readBounded (GzipReader.read encoded) maxBytes) isGzipError .snapshotCorruptError
      (py "archive is not valid gzip data")
  else if isUnsupportedMagic encoded && !startsWithValidTarHeader encoded then
    raise .snapshotIncompatibleError (py "archive compression profile is unsupported")
  else
    .ok encoded

/-! ## Section 3: Limits of a tree -/

/-- `_validate_entry_path_limits`. -/
def validateEntryPathLimits (path : SandboxPath) (limits : WorkspaceLimits) :
    Except PyError Unit := do
  requireSound (ValidUtf8 path.value ∧ ∀ part ∈ path.parts, ValidUtf8 part)
    (py "workspace entry path must be valid UTF-8")
  requireBounded (FitsBytes limits.maxPathBytes path.value) (pathMessage limits)
  requireBounded (∀ part ∈ path.parts, FitsBytes limits.maxSegmentBytes part)
    (segmentMessage limits)

/-- The message of a file that is too long. -/
def fileMessage (path : SandboxPath) (size : Nat) (limits : WorkspaceLimits) : Text :=
  py "archive file " ++ path.value ++ py " contains " ++ Text.ofNat size ++
    py " bytes; limit is " ++ Text.ofNat limits.maxFileBytes ++ py " bytes"

/-- The message of a tree with too many nodes. -/
def nodeMessage (limits : WorkspaceLimits) : Text :=
  py "archive tree contains more than " ++ Text.ofNat limits.maxNodes ++ py " nodes"

/-- The message of files that are too long together. -/
def totalMessage (limits : WorkspaceLimits) : Text :=
  py "archive files contain more than " ++ Text.ofNat limits.maxTotalBytes ++ py " bytes"

/-- An entry is a directory. -/
def isDirectoryEntry (entry : WorkspaceSnapshotEntry) : Bool := entry.entry = .directory

/-- `"/".join(entry.path.parts)`. -/
def memberName (entry : WorkspaceSnapshotEntry) : Text := Python.join (py "/") entry.path.parts

/-- The loop of `_validate_tree_limits`. -/
def validateEntries (limits : WorkspaceLimits) :
    List WorkspaceSnapshotEntry → Except PyError Unit
  | [] => .ok ()
  | entry :: rest => do
    let portablePath ← memberPath (memberName entry) (isDirectoryEntry entry) limits
    requireSound (portablePath = some entry.path)
      (py "workspace entry path is not portable: " ++ entry.path.value)
    validateEntryPathLimits entry.path limits
    requireBounded (entry.size ≤ limits.maxFileBytes) (fileMessage entry.path entry.size limits)
    validateEntries limits rest

/-- `_validate_tree_limits`. -/
def validateTreeLimits (entries : List WorkspaceSnapshotEntry) (totalBytes : Nat)
    (limits : WorkspaceLimits) : Except PyError Unit := do
  requireBounded (entries.length + 1 ≤ limits.maxNodes) (nodeMessage limits)
  requireBounded (totalBytes ≤ limits.maxTotalBytes) (totalMessage limits)
  validateEntries limits entries

/-! ## Section 4: The members of the tar reader -/

/-- The local variables of `_decode_tar`. -/
structure DecodeState where
  entries : List (SandboxPath × WorkspaceSnapshotEntry)
  syntheticDirectories : List SandboxPath
  explicitPaths : List SandboxPath
  totalBytes : Nat
  retainedPathBytes : Nat
  rootMarkerSeen : Bool

def DecodeState.start : DecodeState := ⟨[], [], [], 0, 0, false⟩

/-- `_reject_sparse_member`. -/
def rejectSparseMember (member : TarMember) : Except PyError Unit :=
  requireSound (member.sparse = false ∧
      ∀ key ∈ member.paxKeys, startsWith key (py "GNU.sparse") = false)
    (py "archive sparse member is unsupported: " ++ member.name)

/-- `_reserve_path_metadata`. -/
def reservePathMetadata (path : SandboxPath) (retainedPathBytes : Nat)
    (limits : WorkspaceLimits) : Except PyError Nat := do
  let bytes ← encode path.value
  let retainedPathBytes := retainedPathBytes + bytes.length
  requireBounded (retainedPathBytes ≤ limits.maxSnapshotBytes)
    (py "archive canonical paths retain more than " ++ Text.ofNat limits.maxSnapshotBytes ++
      py " UTF-8 bytes")
  .ok retainedPathBytes

/-- `_check_node_limit`. -/
def checkNodeLimit (entries : List (SandboxPath × WorkspaceSnapshotEntry))
    (limits : WorkspaceLimits) : Except PyError Unit :=
  requireBounded (entries.length + 1 ≤ limits.maxNodes) (nodeMessage limits)

/-- The loop of `_ensure_parent_directories`. -/
def ensureParents (limits : WorkspaceLimits) :
    List Text → SandboxPath → DecodeState → Except PyError DecodeState
  | [], _, s => .ok s
  | segment :: rest, parent, s => do
    let parent ← parent.join segment limits.maxPathBytes limits.maxSegmentBytes
    match Dict.get? parent s.entries with
    | some existing => do
      requireSound (isDirectoryEntry existing)
        (py "archive path descends through a file: " ++ parent.value)
      ensureParents limits rest parent s
    | none => do
      let retainedPathBytes ← reservePathMetadata parent s.retainedPathBytes limits
      let entry ← WorkspaceSnapshotEntry.new parent .directory
      let entries := Dict.set parent entry s.entries
      checkNodeLimit entries limits
      ensureParents limits rest parent { s with
        entries, retainedPathBytes, syntheticDirectories := parent :: s.syntheticDirectories }

/-- `_ensure_parent_directories`. -/
def ensureParentDirectories (path : SandboxPath) (s : DecodeState) (limits : WorkspaceLimits) :
    Except PyError DecodeState :=
  ensureParents limits path.parts.dropLast .root s

/-- The loop of `_read_member`; the fuel bounds the bytes that are missing. -/
def readMemberLoop (failure : Option PyError) (expectedSize : Nat) :
    Nat → Bytes → Bytes → Except PyError Bytes
  | 0, _, content => .ok content
  | fuel + 1, remaining, content =>
    if content.length < expectedSize then
      let chunk := remaining.take (min CHUNK_BYTES (expectedSize - content.length))
      if chunk = [] then
        match failure with
        | some e => .error e
        | none => corrupt (py "archive file payload is truncated")
      else
        readMemberLoop failure expectedSize fuel (remaining.drop chunk.length) (content ++ chunk)
    else
      .ok content

/-- `_read_member`. -/
def readMember (stream : TarStream) (expectedSize : Nat) : Except PyError Bytes := do
  let content ← readMemberLoop stream.failure expectedSize expectedSize stream.content []
  requireSound (content.length = expectedSize)
    (py "archive file size does not match its payload")
  .ok content

/-- The kind of a member. -/
def memberKind (member : TarMember) : Except PyError NodeKind :=
  if member.isdir then
    .ok .directory
  else if member.type = REGTYPE ∨ member.type = AREGTYPE then
    .ok .file
  else
    corrupt (py "archive member has an unsupported type: " ++ member.name)

/-- A member whose path is there already. -/
def mergeExisting (member : TarMember) (kind : NodeKind) (path : SandboxPath)
    (existing : WorkspaceSnapshotEntry) (s : DecodeState) : Except PyError DecodeState :=
  if path ∈ s.syntheticDirectories ∧ kind = .directory ∧ path ∉ s.explicitPaths then do
    requireSound (member.size = 0) (py "archive directory has a non-zero size: " ++ member.name)
    .ok { s with
      syntheticDirectories := s.syntheticDirectories.filter (· ≠ path)
      explicitPaths := path :: s.explicitPaths }
  else if isDirectoryEntry existing ≠ (kind = .directory) then
    corrupt (py "archive path has conflicting node types: " ++ path.value)
  else
    corrupt (py "archive path is duplicated: " ++ path.value)

/-- The content of a file member, and the total with it. -/
def fileContent (member : TarMember) (path : SandboxPath) (totalBytes : Nat)
    (limits : WorkspaceLimits) : Except PyError (Bytes × Nat) := do
  requireSound (0 ≤ member.size) (py "archive file has a negative size: " ++ member.name)
  let size := member.size.toNat
  requireBounded (size ≤ limits.maxFileBytes) (fileMessage path size limits)
  requireBounded (totalBytes + size ≤ limits.maxTotalBytes) (totalMessage limits)
  match ← member.payload with
  | none => corrupt (py "archive file payload is missing: " ++ member.name)
  | some stream => do
    let content ← readMember stream size
    .ok (content, totalBytes + size)

/-- The value of a new entry, and the total with it. -/
def memberEntry (member : TarMember) (kind : NodeKind) (path : SandboxPath) (totalBytes : Nat)
    (limits : WorkspaceLimits) : Except PyError (Entry Bytes × Nat) :=
  match kind with
  | .directory => do
    requireSound (member.size = 0) (py "archive directory has a non-zero size: " ++ member.name)
    .ok (.directory, totalBytes)
  | .file => do
    let (content, totalBytes) ← fileContent member path totalBytes limits
    .ok (.file content, totalBytes)

/-- A member whose path is new. -/
def addMember (member : TarMember) (kind : NodeKind) (path : SandboxPath) (s : DecodeState)
    (limits : WorkspaceLimits) : Except PyError DecodeState := do
  requireBounded (s.entries.length + 2 ≤ limits.maxNodes) (nodeMessage limits)
  let retainedPathBytes ← reservePathMetadata path s.retainedPathBytes limits
  let (value, totalBytes) ← memberEntry member kind path s.totalBytes limits
  let entry ← WorkspaceSnapshotEntry.new path value
  let entries := Dict.set path entry s.entries
  checkNodeLimit entries limits
  .ok { s with
    entries, retainedPathBytes, totalBytes, explicitPaths := path :: s.explicitPaths }

/-- A member that is not the root marker. -/
def decodePathMember (member : TarMember) (path : SandboxPath) (s : DecodeState)
    (limits : WorkspaceLimits) : Except PyError DecodeState := do
  let s ← ensureParentDirectories path s limits
  let kind ← memberKind member
  match Dict.get? path s.entries with
  | some existing => mergeExisting member kind path existing s
  | none => addMember member kind path s limits

/-- The root marker. -/
def decodeRootMarker (member : TarMember) (s : DecodeState) : Except PyError DecodeState := do
  requireSound (s.rootMarkerSeen = false) (py "archive root marker is duplicated")
  requireSound (member.size = 0) (py "archive root marker directory has a non-zero size")
  .ok { s with rootMarkerSeen := true }

/-- What the loop of `_decode_tar` does with a member and its scanned names. -/
def decodeMember (member : TarMember) (scanned : ScannedTarMember) (s : DecodeState)
    (limits : WorkspaceLimits) : Except PyError DecodeState := do
  let parsedName ← canonicalMemberName member.name member.isdir
  let expectedName ← canonicalMemberName scanned.effectiveName member.isdir
  requireSound (parsedName = expectedName)
    (py "archive parser-effective path does not match validated headers")
  match ← memberPath scanned.effectiveName member.isdir limits with
  | none => decodeRootMarker member s
  | some path => decodePathMember member path s limits

/-- The loop of `_decode_tar`, on the scanned members that are left. -/
def decodeMembers (limits : WorkspaceLimits) :
    List TarMember → Nat → List ScannedTarMember → DecodeState →
      Except PyError (List ScannedTarMember × DecodeState)
  | [], _, scannedMembers, s => .ok (scannedMembers, s)
  | member :: rest, memberCount, scannedMembers, s => do
    requireBounded (memberCount + 1 ≤ limits.maxNodes)
      (py "archive contains more than " ++ Text.ofNat limits.maxNodes ++ py " members")
    rejectSparseMember member
    match scannedMembers with
    | [] => corrupt (py "archive parser returned an unexpected member")
    | scanned :: scannedMembers => do
      let s ← decodeMember member scanned s limits
      decodeMembers limits rest (memberCount + 1) scannedMembers s

/-! ## Section 5: Decoding -/

/-- What `except (EOFError, OSError, UnicodeError, tarfile.TarError, ValueError)` catches. -/
def isTarReaderError (c : ErrorClass) : Bool :=
  c = .eofError || c.isOSError || c = .tarError || c.isValueError

section

variable [TarReader]

/-- The `try` block of `_decode_tar`. -/
def readMembers (encoded : Bytes) (scannedMembers : List ScannedTarMember)
    (limits : WorkspaceLimits) : Except PyError DecodeState := do
  let (members, ending) := TarReader.read encoded
  let (omitted, s) ← decodeMembers limits members 0 scannedMembers .start
  let offset ← ending
  requireSound (omitted.isEmpty) (py "archive parser omitted a validated physical member")
  requireCompleteTar encoded offset
  .ok s

/-- `_decode_tar`. -/
def decodeTar (encoded : Bytes) (limits : WorkspaceLimits) :
    Except PyError (List WorkspaceSnapshotEntry) := do
  let scannedMembers ← scanTarMembers encoded limits
  let s ← rewrap (readMembers encoded scannedMembers limits) isTarReaderError
    .snapshotCorruptError (py "archive is not a valid portable tar stream")
  .ok ((sorted (·.1.value) s.entries).map Prod.snd)

variable [GzipReader] [Sha256]

/-- `DecodedWorkspaceTree`. -/
structure DecodedWorkspaceTree where
  entries : List WorkspaceSnapshotEntry
  treeStats : WorkspaceTreeStats

/-- `decode`. -/
def decode (encoded : Bytes) (limits : WorkspaceLimits) :
    Except PyError DecodedWorkspaceTree := do
  requireBounded (encoded.length ≤ limits.maxSnapshotBytes)
    (py "archive contains " ++ Text.ofNat encoded.length ++ py " input bytes; limit is " ++
      Text.ofNat limits.maxSnapshotBytes ++ py " bytes")
  let tarBytes ← expandArchive encoded limits.maxSnapshotBytes
  let entries ← decodeTar tarBytes limits
  let treeStats ← measureWorkspaceEntries entries
  validateTreeLimits entries treeStats.totalBytes limits
  .ok ⟨entries, treeStats⟩

end

/-! ## Section 6: Encoding -/

/-- The member that is written for an entry. -/
def memberOf (entry : WorkspaceSnapshotEntry) : Tar.Member where
  name := memberName entry
  content :=
    match entry.entry with
    | .directory => none
    | .file content => some content

/-- The message of `_BoundedArchiveWriter.write`. -/
def outputMessage (maxBytes : Nat) : Text :=
  py "archive expands beyond the " ++ Text.ofNat maxBytes ++ py "-byte output limit"

/-- The loop of `encode`, on what has been written; the headers of a member
    are built before any of it is written. -/
def writeMembers (maxBytes : Nat) : List Tar.Member → Bytes → Except PyError Bytes
  | [], output => .ok output
  | member :: rest, output =>
    match member.bytes with
    | none => corrupt (py "workspace entries could not be encoded as tar")
    | some bytes => do
      requireBounded (output.length + bytes.length ≤ maxBytes) (outputMessage maxBytes)
      writeMembers maxBytes rest (output ++ bytes)

/-- What closing the archive writes. -/
def closeArchive (maxBytes : Nat) (output : Bytes) : Except PyError Bytes := do
  let encoded := output ++ trailer output.length
  requireBounded (encoded.length ≤ maxBytes) (outputMessage maxBytes)
  .ok encoded

section

variable [Sha256]

/-- `encode`. -/
def encode (entries : List WorkspaceSnapshotEntry) (limits : WorkspaceLimits) :
    Except PyError Bytes := do
  let ordered := sorted (·.path.value) entries
  let treeStats ← measureWorkspaceEntries ordered
  validateTreeLimits ordered treeStats.totalBytes limits
  let output ← writeMembers limits.maxSnapshotBytes (ordered.map memberOf) []
  closeArchive limits.maxSnapshotBytes output

end

end PortableWorkspaceArchiveCodec
