import MemSandbox.Lib.Base64
import MemSandbox.Lib.Json
import MemSandbox.Workspace.SnapshotTree

/-! # The JSON snapshot codec

    `workspace/snapshot_codec.py`: a snapshot is an envelope with a payload
    and the digest of the payload's canonical bytes; decoding checks every
    field, the digest, and the tree that the entries describe.

    How deep the JSON reader nests, and what a float prints as, are the
    interpreter's. -/

open Python FileMap

/-- What the interpreter decides about JSON. -/
class JsonRuntime where
  maxDepth : Nat
  floatText : Text → Text

namespace JsonWorkspaceSnapshotCodec

def SCHEMA_VERSION : Nat := 1

/-! ## Section 1: JSON values -/

/-- `raise SnapshotCorruptError(message)`. -/
def corrupt (message : Text) : Except PyError α := raise .snapshotCorruptError message

/-- `_unique_object`. -/
def uniqueObject (pairs : List (Text × Json)) : Except PyError Json :=
  go pairs []
where
  go : List (Text × Json) → List (Text × Json) → Except PyError Json
    | [], result => .ok (.dict result)
    | (key, value) :: rest, result =>
      if key ∈ Dict.keys result then
        raise .duplicateKeyError key
      else
        go rest (Dict.set key value result)

/-- The reader of `_load_json_object`. -/
def reader [JsonRuntime] : Json.Reader PyError where
  maxDepth := JsonRuntime.maxDepth
  floatText := JsonRuntime.floatText
  objectPairsHook := uniqueObject
  malformed := ⟨.jsonDecodeError, py "Expecting value"⟩
  tooLong digits := ⟨.valueError,
    py "Exceeds the limit (4300 digits) for integer string conversion: value has " ++
      Text.ofNat digits ++ py " digits; use sys.set_int_max_str_digits() to increase the limit"⟩
  tooDeep := ⟨.recursionError, py "maximum recursion depth exceeded"⟩

/-- `_canonical_json`. -/
def canonicalJson (value : Json) : Except PyError Bytes :=
  match value.dumps.bind encodeUtf8 with
  | some bytes => .ok bytes
  | none => corrupt (py "snapshot contains non-serializable data")

/-- `_require_object`. -/
def requireObject (value : Json) (name : Text) : Except PyError (List (Text × Json)) :=
  match value with
  | .dict items => .ok items
  | _ => corrupt (name ++ py " must be an object")

/-- What `_load_json_object` catches of the reader. -/
def isJsonError : ErrorClass → Bool
  | .jsonDecodeError | .duplicateKeyError => true
  | _ => false

/-- `_load_json_object`. -/
def loadJsonObject [JsonRuntime] (encoded : Bytes) : Except PyError (List (Text × Json)) := do
  let message := py "snapshot is not valid canonical JSON"
  match decodeUtf8 encoded with
  | none => corrupt message
  | some text => do
    let value ← rewrap (Json.loads reader text) isJsonError .snapshotCorruptError message
    requireObject value (py "snapshot envelope")

/-- `_require_exact_keys`. -/
def requireExactKeys (value : List (Text × Json)) (expected : List Text) (name : Text) :
    Except PyError Unit :=
  require ((∀ key ∈ Dict.keys value, key ∈ expected) ∧ ∀ key ∈ expected, key ∈ Dict.keys value)
    .snapshotCorruptError (name ++ py " has missing or unsupported fields")

/-- `_require_integer`. -/
def requireInteger (value : Json) (name : Text) : Except PyError Nat :=
  match value with
  | .int (.ofNat n) => .ok n
  | _ => corrupt (name ++ py " must be a non-negative integer")

/-- `_parse_hash`. -/
def parseHash (value : Json) (name : Text) : Except PyError ContentHash :=
  match value with
  | .str text =>
    rewrap (ContentHash.new text) (fun c => c.isTypeError || c.isValueError) .snapshotCorruptError
      (name ++ py " must be a SHA-256 digest")
  | _ => corrupt (name ++ py " must be a SHA-256 digest")

/-- `value[key]`. -/
def field (value : List (Text × Json)) (key : Text) : Except PyError Json :=
  match Dict.get? key value with
  | some item => .ok item
  | none => raise .keyError key

section Codec

variable [Sha256]

/-! ## Section 2: Encoding -/

/-- One entry, as serialized. -/
def serializeEntry (entry : WorkspaceSnapshotEntry) : Json :=
  match entry.entry with
  | .directory =>
    .dict [(py "kind", .str NodeKind.directory.value), (py "path", .str entry.path.value)]
  | .file content =>
    .dict [(py "content_base64", .str (Base64.encode content)),
      (py "content_hash", .str (ContentHash.fromBytes content).value),
      (py "kind", .str NodeKind.file.value), (py "path", .str entry.path.value)]

/-- The payload that `encode` builds. -/
def payloadOf (entries : List WorkspaceSnapshotEntry) (stats : WorkspaceStats) : Json :=
  .dict [
    (py "entries", .list ((sorted (·.path.value) entries).map serializeEntry)),
    (py "node_count", .int stats.nodeCount),
    (py "revision", .int stats.revision),
    (py "root_hash", .str stats.rootHash.value),
    (py "schema_version", .int SCHEMA_VERSION),
    (py "total_bytes", .int stats.totalBytes)]

/-- The envelope that `encode` builds. -/
def envelopeOf (payload : Json) (digest : ContentHash) : Json :=
  .dict [
    (py "integrity", .dict [(py "algorithm", .str (py "sha256")), (py "digest", .str digest.value)]),
    (py "payload", payload)]

/-- The size check of both directions. -/
def requireSnapshotSize (limits : WorkspaceLimits) (size : Nat) : Except PyError Unit :=
  require (size ≤ limits.maxSnapshotBytes) .snapshotTooLargeError
    (py "snapshot contains " ++ Text.ofNat size ++ py " bytes; limit is " ++
      Text.ofNat limits.maxSnapshotBytes ++ py " bytes")

/-- `JsonWorkspaceSnapshotCodec.encode`. -/
def encode (entries : List WorkspaceSnapshotEntry) (stats : WorkspaceStats)
    (limits : WorkspaceLimits) : Except PyError WorkspaceSnapshotData := do
  let payload := payloadOf entries stats
  let payloadBytes ← canonicalJson payload
  let integrityHash := ContentHash.fromBytes payloadBytes
  let encoded ← canonicalJson (envelopeOf payload integrityHash)
  requireSnapshotSize limits encoded.length
  .ok {
    encoded
    schemaVersion := SCHEMA_VERSION
    integrityHash
    workspaceRevision := stats.revision
    rootHash := stats.rootHash }

/-! ## Section 3: Decoding entries -/

/-- `_decode_file_content`. -/
def decodeFileContent (item : List (Text × Json)) (limits : WorkspaceLimits) :
    Except PyError Bytes := do
  match ← field item (py "content_base64") with
  | .str encodedContent =>
    match Base64.decode encodedContent with
    | none => corrupt (py "snapshot file content is not valid base64")
    | some content => do
      require (content.length ≤ limits.maxFileBytes) .snapshotTooLargeError
        (py "snapshot file contains " ++ Text.ofNat content.length ++ py " bytes; limit is " ++
          Text.ofNat limits.maxFileBytes ++ py " bytes")
      let declared ← field item (py "content_hash")
      let hash ← parseHash declared (py "snapshot file content_hash")
      require (ContentHash.fromBytes content = hash) .snapshotCorruptError
        (py "snapshot file content hash does not match content")
      .ok content
  | _ => corrupt (py "snapshot file content must be base64 text")

/-- The kind of an entry with its content, and the total bytes so far. -/
def decodeKind (item : List (Text × Json)) (limits : WorkspaceLimits) (totalBytes : Nat) :
    Except PyError (Entry Bytes × Nat) :=
  match Dict.get? (py "kind") item with
  | some (.str kindValue) =>
    if kindValue = NodeKind.directory.value then do
      requireExactKeys item [py "kind", py "path"] (py "directory snapshot entry")
      .ok (.directory, totalBytes)
    else if kindValue = NodeKind.file.value then do
      requireExactKeys item [py "content_base64", py "content_hash", py "kind", py "path"]
        (py "file snapshot entry")
      let content ← decodeFileContent item limits
      require (totalBytes + content.length ≤ limits.maxTotalBytes) .snapshotTooLargeError
        (py "snapshot files contain more than " ++ Text.ofNat limits.maxTotalBytes ++ py " bytes")
      .ok (.file content, totalBytes + content.length)
    else
      corrupt (py "snapshot entry has an unsupported node kind")
  | _ => corrupt (py "snapshot entry has an unsupported node kind")

/-- The path of an entry, which comes after the previous one. -/
def decodePath (item : List (Text × Json)) (resolvePath : Text → Except PyError SandboxPath)
    (previousPath : Option Text) : Except PyError SandboxPath := do
  match ← field item (py "path") with
  | .str pathValue => do
    let path ← rewrap (resolvePath pathValue) ErrorClass.isExpected .snapshotCorruptError
      (py "snapshot entry contains an invalid path")
    require (path.isRoot = false) .snapshotCorruptError
      (py "snapshot entries must not contain the root")
    require (∀ previous ∈ previousPath, previous < path.value) .snapshotCorruptError
      (py "snapshot entries must be unique and lexically ordered")
    .ok path
  | _ => corrupt (py "snapshot entry path must be a string")

/-- `_decode_entries`. -/
def decodeEntries (limits : WorkspaceLimits) (resolvePath : Text → Except PyError SandboxPath) :
    List Json → Option Text → Nat → Except PyError (List WorkspaceSnapshotEntry)
  | [], _, _ => .ok []
  | value :: rest, previousPath, totalBytes => do
    let item ← requireObject value (py "snapshot entry")
    let (kind, totalBytes) ← decodeKind item limits totalBytes
    let path ← decodePath item resolvePath previousPath
    let entry ← WorkspaceSnapshotEntry.new path kind
    let entries ← decodeEntries limits resolvePath rest (some path.value) totalBytes
    .ok (entry :: entries)

/-! ## Section 4: Decoding a snapshot -/

/-- The integrity record: the digest of the payload, compared with the metadata. -/
def decodeIntegrity (envelope : List (Text × Json)) (data : WorkspaceSnapshotData) :
    Except PyError ContentHash := do
  let integrityValue ← field envelope (py "integrity")
  let integrity ← requireObject integrityValue (py "snapshot integrity")
  requireExactKeys integrity [py "algorithm", py "digest"] (py "snapshot integrity")
  let algorithm ← field integrity (py "algorithm")
  match algorithm with
  | .str name =>
    require (name = py "sha256") .snapshotCorruptError
      (py "snapshot integrity algorithm must be sha256")
  | _ => corrupt (py "snapshot integrity algorithm must be sha256")
  let digestValue ← field integrity (py "digest")
  let digest ← parseHash digestValue (py "snapshot integrity digest")
  require (data.integrityHash = digest) .snapshotCorruptError
    (py "snapshot metadata integrity hash does not match encoded bytes")
  .ok digest

/-- The payload, whose canonical bytes have the digest. -/
def decodePayload (envelope : List (Text × Json)) (digest : ContentHash) :
    Except PyError (List (Text × Json)) := do
  let payloadValue ← field envelope (py "payload")
  let payload ← requireObject payloadValue (py "snapshot payload")
  let payloadBytes ← canonicalJson (.dict payload)
  require (ContentHash.fromBytes payloadBytes = digest) .snapshotCorruptError
    (py "snapshot integrity digest does not match payload")
  requireExactKeys payload
    [py "entries", py "node_count", py "revision", py "root_hash", py "schema_version",
      py "total_bytes"] (py "snapshot payload")
  .ok payload

/-- The statistics that the payload declares, compared with the metadata. -/
def decodeStats (payload : List (Text × Json)) (data : WorkspaceSnapshotData) :
    Except PyError WorkspaceStats := do
  let versionValue ← field payload (py "schema_version")
  let schemaVersion ← requireInteger versionValue (py "schema_version")
  require (data.schemaVersion = schemaVersion) .snapshotCorruptError
    (py "snapshot metadata schema version does not match encoded bytes")
  require (schemaVersion = SCHEMA_VERSION) .snapshotIncompatibleError
    (py "snapshot schema version " ++ Text.ofNat schemaVersion ++ py " is unsupported")
  let revisionValue ← field payload (py "revision")
  let revision ← requireInteger revisionValue (py "revision")
  let rootHashValue ← field payload (py "root_hash")
  let rootHash ← parseHash rootHashValue (py "root_hash")
  require (data.workspaceRevision = revision) .snapshotCorruptError
    (py "snapshot metadata revision does not match encoded bytes")
  require (data.rootHash = rootHash) .snapshotCorruptError
    (py "snapshot metadata root hash does not match encoded bytes")
  let totalBytesValue ← field payload (py "total_bytes")
  let totalBytes ← requireInteger totalBytesValue (py "total_bytes")
  let nodeCountValue ← field payload (py "node_count")
  let nodeCount ← requireInteger nodeCountValue (py "node_count")
  .ok ⟨totalBytes, nodeCount, revision, rootHash⟩

/-- The entries of the payload, which number less than the node limit. -/
def decodeTree (payload : List (Text × Json)) (limits : WorkspaceLimits)
    (resolvePath : Text → Except PyError SandboxPath) :
    Except PyError (List WorkspaceSnapshotEntry) := do
  match ← field payload (py "entries") with
  | .list values => do
    require (values.length + 1 ≤ limits.maxNodes) .snapshotTooLargeError
      (py "snapshot contains more than " ++ Text.ofNat limits.maxNodes ++ py " nodes")
    decodeEntries limits resolvePath values none 0
  | _ => corrupt (py "snapshot entries must be a list")

/-- `JsonWorkspaceSnapshotCodec.decode`. -/
def decode [JsonRuntime] (data : WorkspaceSnapshotData) (limits : WorkspaceLimits)
    (resolvePath : Text → Except PyError SandboxPath) :
    Except PyError DecodedWorkspaceSnapshot := do
  requireSnapshotSize limits data.encoded.length
  let envelope ← loadJsonObject data.encoded
  requireExactKeys envelope [py "integrity", py "payload"] (py "snapshot envelope")
  let digest ← decodeIntegrity envelope data
  let payload ← decodePayload envelope digest
  let declared ← decodeStats payload data
  let entries ← decodeTree payload limits resolvePath
  let measured ← measureWorkspaceEntries entries
  require (measured.totalBytes = declared.totalBytes) .snapshotCorruptError
    (py "snapshot total byte count does not match entries")
  require (measured.nodeCount = declared.nodeCount) .snapshotCorruptError
    (py "snapshot node count does not match entries")
  require (measured.rootHash = declared.rootHash) .snapshotCorruptError
    (py "snapshot root hash does not match entries")
  .ok ⟨entries, ⟨measured.totalBytes, measured.nodeCount, declared.revision, measured.rootHash⟩⟩

end Codec

end JsonWorkspaceSnapshotCodec
