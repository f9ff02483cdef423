import MemSandbox.Lib.Effect
import MemSandbox.Workspace.Measure
import MemSandbox.Workspace.Patching

/-! # The in-memory workspace

    `workspace/memory.py`: the workspace object, its reads, its seven
    mutations, and the two halves of a restore.  A method is a `Call` on the
    workspace: an assignment made before a raise stays.

    Every mutation holds the state lock from its first read of the tree to its
    commit, so a call is one step.  `commit_restore` suspends twice; its parts
    are separate calls and `commitRestore` runs them in sequence. -/

open Python FileMap

/-- `_WorkspaceState`. -/
structure WorkspaceState where
  root : DirectoryNode
  stats : WorkspaceStats

/-- `_PreparedRestorePayload`. -/
structure PreparedRestorePayload where
  state : WorkspaceState
  expectedStats : WorkspaceStats

/-- What the attribute `_capability` of a candidate holds: the key that the
    workspace issued, or another object that may not be a legal weak key. -/
inductive Capability where
  | issued (key : Nat)
  | none
  | unhashable
  deriving DecidableEq

/-- The argument of `commit_restore`. -/
inductive RestoreCandidate where
  | prepared (workspaceToken : Nat) (capability : Capability)
  | other
  deriving DecidableEq

/-- The workspace object.  Identities of objects are numbers. -/
structure MemoryWorkspace where
  limits : WorkspaceLimits
  state : WorkspaceState
  restoreToken : Nat
  restoreCandidates : List (Nat × PreparedRestorePayload)
  nextCapability : Nat

/-- A method of the workspace. -/
abbrev Method (α : Type) : Type := Call MemoryWorkspace PyError α

namespace MemoryWorkspace

open Node

/-! ## Section 1: Paths and states -/

/-- `MemoryWorkspace.resolve_path`. -/
def resolvePath (limits : WorkspaceLimits) (value : Text) (cwd : Option SandboxPath) :
    Except PyError SandboxPath :=
  SandboxPath.resolve value cwd limits.maxPathBytes limits.maxSegmentBytes

/-- `MemoryWorkspace._validate_path`. -/
def validatePath (limits : WorkspaceLimits) (path : SandboxPath) : Except PyError Unit := do
  let _ ← resolvePath limits path.value none
  .ok ()

section States

variable [Sha256]

/-- `MemoryWorkspace._state_for_root`. -/
def stateForRoot (limits : WorkspaceLimits) (root : DirectoryNode) (revision : Revision) :
    Except PyError WorkspaceState := do
  let (totalBytes, nodeCount, rootHash) ← measureNode (.directory root) .root limits
  require (totalBytes ≤ limits.maxTotalBytes) .workspaceSizeLimitExceededError
    (py "workspace contains " ++ Text.ofNat totalBytes ++ py " bytes; limit is " ++
      Text.ofNat limits.maxTotalBytes ++ py " bytes")
  require (nodeCount ≤ limits.maxNodes) .nodeLimitExceededError
    (py "workspace contains " ++ Text.ofNat nodeCount ++ py " nodes; limit is " ++
      Text.ofNat limits.maxNodes ++ py " nodes")
  .ok ⟨root, ⟨totalBytes, nodeCount, revision, rootHash⟩⟩

/-- `MemoryWorkspace(limits)`. -/
def new (limits : WorkspaceLimits) (restoreToken : Nat) : Except PyError MemoryWorkspace := do
  let state ← stateForRoot limits [] 0
  .ok ⟨limits, state, restoreToken, [], 0⟩

/-- `MemoryWorkspace._commit`. -/
def commit (root : DirectoryNode) : Method WorkspaceState := do
  let self ← get
  let nextState ← stateForRoot self.limits root (self.state.stats.revision + 1)
  set { self with state := nextState }
  return nextState

/-! ## Section 2: Reads -/

/-- `_entry`. -/
def entryOf (path : SandboxPath) (node : Node) (revision : Revision) :
    Except PyError WorkspaceEntry := do
  let contentHash ← nodeHash node
  .ok {
    path
    kind := node.kind
    sizeBytes := match node with
      | .file content => content.length
      | .directory _ => 0
    contentHash
    revision }

/-- `MemoryWorkspace.stat`. -/
def stat (path : SandboxPath) : Method WorkspaceEntry := do
  let self ← get
  validatePath self.limits path
  let node ← getNode self.state.root path
  entryOf path node self.state.stats.revision

/-- The entries of `list`, child by child. -/
def listEntries (limits : WorkspaceLimits) (path : SandboxPath) (revision : Revision) :
    DirectoryNode → Except PyError (List WorkspaceEntry)
  | [] => .ok []
  | (name, child) :: rest => do
    let childPath ← path.join name limits.maxPathBytes limits.maxSegmentBytes
    let entry ← entryOf childPath child revision
    let tail ← listEntries limits path revision rest
    .ok (entry :: tail)

/-- `MemoryWorkspace.list`. -/
def list (path : SandboxPath) : Method (List WorkspaceEntry) := do
  let self ← get
  validatePath self.limits path
  match ← getNode self.state.root path with
  | .file _ => throw ⟨.notADirectoryError, path.value ++ py " is not a directory"⟩
  | .directory children =>
    listEntries self.limits path self.state.stats.revision (sorted Prod.fst children)

/-- `MemoryWorkspace.read_bytes`. -/
def readBytes (path : SandboxPath) : Method WorkspaceBinaryResult := do
  let self ← get
  validatePath self.limits path
  let node ← getNode self.state.root path
  let content ← requireFile node path
  return {
    path
    content
    contentHash := .fromBytes content
    revision := self.state.stats.revision }

/-- `_decode_utf8`. -/
def decodeContent (path : SandboxPath) (content : Bytes) : Except PyError Text :=
  match decodeUtf8 content with
  | some text => .ok text
  | none => raise .fileEncodingError (path.value ++ py " is not valid UTF-8")

/-- `MemoryWorkspace.read_text`. -/
def readText (path : SandboxPath) : Method WorkspaceTextResult := do
  let self ← get
  validatePath self.limits path
  let node ← getNode self.state.root path
  let bytes ← requireFile node path
  let content ← decodeContent path bytes
  return {
    path
    content
    contentHash := .fromBytes bytes
    revision := self.state.stats.revision }

/-! ## Section 3: Mutations -/

/-- `_validate_write_precondition`: the hash of the file that is there. -/
def validateWritePrecondition (path : SandboxPath) (existing : Option Node)
    (precondition : WritePrecondition) : Except PyError (Option ContentHash) :=
  match existing with
  | some (.directory _) => raise .notAFileError (path.value ++ py " is not a file")
  | none =>
    match precondition with
    | .pathMustNotExist => .ok none
    | .contentHashMustEqual _ => raise .pathNotFoundError (path.value ++ py " does not exist")
    | .anyCurrentState => .ok none
  | some (.file content) =>
    match precondition with
    | .pathMustNotExist => raise .pathAlreadyExistsError (path.value ++ py " already exists")
    | .contentHashMustEqual expectedHash =>
      if ContentHash.fromBytes content ≠ expectedHash then
        raise .staleContentError
          (path.value ++ py " content hash does not match the expected hash")
      else
        .ok (some (.fromBytes content))
    | .anyCurrentState => .ok (some (.fromBytes content))

/-- `_validate_transfer_paths`. -/
def validateTransferPaths (source destination : SandboxPath) : Except PyError Unit := do
  require (source.isRoot = false ∧ destination.isRoot = false) .rootModificationError
    (py "the workspace root cannot be copied or moved")
  require (source ≠ destination) .samePathError (py "source and destination must differ")
  require (source.isAncestorOf destination = false ∧ destination.isAncestorOf source = false)
    .destinationWithinSourceError (py "source and destination paths must not overlap")

/-- `_node_hash(existing) if existing is not None else None`. -/
def existingHash : Option Node → Except PyError (Option ContentHash)
  | none => .ok none
  | some node => do
    let hash ← nodeHash node
    .ok (some hash)

/-- The size check that `write`, `append` and `patch` make on a whole file. -/
def requireFileSize (limits : WorkspaceLimits) (subject : Text) (size : Nat) : Except PyError Unit :=
  require (size ≤ limits.maxFileBytes) .fileSizeLimitExceededError
    (subject ++ py " contains " ++ Text.ofNat size ++ py " bytes; limit is " ++
      Text.ofNat limits.maxFileBytes ++ py " bytes")

/-- `MemoryWorkspace.mkdir`. -/
def mkdir (request : MakeDirectoryRequest) : Method WorkspaceMutation := do
  let self ← get
  validatePath self.limits request.path
  match ← tryGetNode self.state.root request.path with
  | some existing =>
    if request.existOk ∧ existing.kind = .directory then
      let currentHash ← nodeHash existing
      return {
        path := request.path
        created := false
        changed := false
        previousHash := some currentHash
        currentHash := some currentHash
        stats := self.state.stats }
    else
      throw ⟨.pathAlreadyExistsError, request.path.value ++ py " already exists"⟩
  | none =>
    let root ← cloneDirectory self.state.root self.limits.maxNodes
    let root ← ensureParent root request.path request.createParents self.limits
    let nextState ← commit (assignChild request.path (.directory []) root)
    let node ← getNode nextState.root request.path
    let currentHash ← nodeHash node
    return {
      path := request.path
      created := true
      changed := true
      previousHash := none
      currentHash := some currentHash
      stats := nextState.stats }

/-- `MemoryWorkspace.write`. -/
def write (request : WorkspaceWriteRequest) : Method WorkspaceMutation := do
  let self ← get
  validatePath self.limits request.path
  require (request.path.isRoot = false) .notAFileError (request.path.value ++ py " is not a file")
  requireFileSize self.limits (py "file") request.content.length
  let existing ← tryGetNode self.state.root request.path
  let previousHash ← validateWritePrecondition request.path existing request.precondition
  let root ← cloneDirectory self.state.root self.limits.maxNodes
  let root ← ensureParent root request.path request.createParents self.limits
  let nextState ← commit (assignChild request.path (.file request.content) root)
  return {
    path := request.path
    created := existing.isNone
    changed := true
    previousHash
    currentHash := some (.fromBytes request.content)
    stats := nextState.stats }

/-- The content that `append` extends. -/
def previousContent : Option Node → Bytes
  | some (.file content) => content
  | _ => []

/-- `MemoryWorkspace.append`. -/
def append (request : WorkspaceAppendRequest) : Method WorkspaceMutation := do
  let self ← get
  validatePath self.limits request.path
  require (request.path.isRoot = false) .notAFileError (request.path.value ++ py " is not a file")
  let existing ← tryGetNode self.state.root request.path
  let previousHash ← validateWritePrecondition request.path existing request.precondition
  let content := previousContent existing ++ request.content
  requireFileSize self.limits (py "file") content.length
  let root ← cloneDirectory self.state.root self.limits.maxNodes
  let root ← ensureParent root request.path request.createParents self.limits
  let nextState ← commit (assignChild request.path (.file content) root)
  return {
    path := request.path
    created := existing.isNone
    changed := true
    previousHash
    currentHash := some (.fromBytes content)
    stats := nextState.stats }

/-- A directory with children. -/
def isNonEmptyDirectory : Node → Bool
  | .directory (_ :: _) => true
  | _ => false

/-- `MemoryWorkspace.remove`. -/
def remove (request : RemovePathRequest) : Method WorkspaceMutation := do
  let self ← get
  validatePath self.limits request.path
  require (request.path.isRoot = false) .rootModificationError
    (py "the workspace root cannot be removed")
  match ← tryGetNode self.state.root request.path with
  | none =>
    if request.missingOk then
      return {
        path := request.path
        created := false
        changed := false
        previousHash := none
        currentHash := none
        stats := self.state.stats }
    else
      throw ⟨.pathNotFoundError, request.path.value ++ py " does not exist"⟩
  | some existing =>
    require (isNonEmptyDirectory existing = false ∨ request.recursive) .directoryNotEmptyError
      (request.path.value ++ py " is not empty")
    let previousHash ← nodeHash existing
    let root ← cloneDirectory self.state.root self.limits.maxNodes
    let _ ← getParent root request.path
    let nextState ← commit (deleteChild request.path root)
    return {
      path := request.path
      created := false
      changed := true
      previousHash := some previousHash
      currentHash := none
      stats := nextState.stats }

/-- `MemoryWorkspace.copy`. -/
def copy (request : CopyPathRequest) : Method WorkspaceMutation := do
  let self ← get
  validatePath self.limits request.source
  validatePath self.limits request.destination
  validateTransferPaths request.source request.destination
  let source ← getNode self.state.root request.source
  let existing ← tryGetNode self.state.root request.destination
  require (existing = none ∨ request.overwrite) .pathAlreadyExistsError
    (request.destination.value ++ py " already exists")
  let previousHash ← existingHash existing
  let root ← cloneDirectory self.state.root self.limits.maxNodes
  let root ← ensureParent root request.destination request.createParents self.limits
  let source ← cloneNode source self.limits.maxNodes
  let nextState ← commit (assignChild request.destination source root)
  let node ← getNode nextState.root request.destination
  let currentHash ← nodeHash node
  return {
    path := request.destination
    created := existing.isNone
    changed := true
    previousHash
    currentHash := some currentHash
    stats := nextState.stats }

/-- `MemoryWorkspace.move`. -/
def move (request : MovePathRequest) : Method WorkspaceMutation := do
  let self ← get
  validatePath self.limits request.source
  validatePath self.limits request.destination
  validateTransferPaths request.source request.destination
  let _ ← getNode self.state.root request.source
  let existing ← tryGetNode self.state.root request.destination
  require (existing = none ∨ request.overwrite) .pathAlreadyExistsError
    (request.destination.value ++ py " already exists")
  let previousHash ← existingHash existing
  let root ← cloneDirectory self.state.root self.limits.maxNodes
  let sourceNode ← getNode root request.source
  let root ← ensureParent root request.destination request.createParents self.limits
  let _ ← getParent root request.source
  let nextState ←
    commit (assignChild request.destination sourceNode (deleteChild request.source root))
  let node ← getNode nextState.root request.destination
  let currentHash ← nodeHash node
  return {
    path := request.destination
    created := existing.isNone
    changed := true
    previousHash
    currentHash := some currentHash
    stats := nextState.stats }

/-- One file of a patch, with its new content. -/
structure PatchUpdate where
  path : SandboxPath
  content : Bytes
  previousHash : ContentHash
  currentHash : ContentHash

/-- The loop of `patch` that computes every file's new content. -/
def patchUpdates (limits : WorkspaceLimits) (root : DirectoryNode)
    (expectedHashes : List ExpectedFileHash) : List FilePatch → Except PyError (List PatchUpdate)
  | [] => .ok []
  | filePatch :: rest => do
    let node ← getNode root filePatch.path
    let content ← requireFile node filePatch.path
    let previousHash := ContentHash.fromBytes content
    require ((expectedHashes.find? (·.path = filePatch.path)).all (·.contentHash = previousHash))
      .staleContentError
      (filePatch.path.value ++ py " content hash does not match the expected hash")
    let text ← decodeContent filePatch.path content
    let patchedText ← applyFilePatch text filePatch
    let patchedContent ← encode patchedText
    requireFileSize limits filePatch.path.value patchedContent.length
    let tail ← patchUpdates limits root expectedHashes rest
    .ok (⟨filePatch.path, patchedContent, previousHash, .fromBytes patchedContent⟩ :: tail)

/-- The loop of `patch` that assigns every file its new content. -/
def assignUpdates : List PatchUpdate → DirectoryNode → Except PyError DirectoryNode
  | [], root => .ok root
  | update :: rest, root => do
    let _ ← getParent root update.path
    assignUpdates rest (assignChild update.path (.file update.content) root)

/-- `MemoryWorkspace.patch`. -/
def patch [UnicodeData] (request : WorkspacePatchRequest) : Method WorkspacePatchResult := do
  let self ← get
  match utf8Length request.patch with
  | none => throw ⟨.invalidPatchError, py "patch must be valid UTF-8 text"⟩
  | some patchBytes =>
    require (patchBytes ≤ self.limits.maxPatchBytes) .invalidPatchError
      (py "patch contains " ++ Text.ofNat patchBytes ++ py " bytes; limit is " ++
        Text.ofNat self.limits.maxPatchBytes ++ py " bytes")
    let filePatches ← parseUnifiedDiff request.patch fun value =>
      resolvePath self.limits value (some .root)
    require (∀ item ∈ request.expectedHashes, item.path ∈ filePatches.map FilePatch.path)
      .invalidPatchError (py "expected hash supplied for a path not present in the patch")
    let updates ← patchUpdates self.limits self.state.root request.expectedHashes filePatches
    let root ← cloneDirectory self.state.root self.limits.maxNodes
    let root ← assignUpdates updates root
    let nextState ← commit root
    return {
      files := updates.map fun update => ⟨update.path, update.previousHash, update.currentHash⟩
      stats := nextState.stats }

/-! ## Section 4: Restores -/

/-- `_root_from_entries`. -/
def rootFromEntries : List WorkspaceSnapshotEntry → DirectoryNode → Except PyError DirectoryNode
  | [], root => .ok root
  | entry :: rest, root => do
    let _ ← getParent root entry.path
    let node : Node := match entry.entry with
      | .directory => .directory []
      | .file content => .file content
    rootFromEntries rest (assignChild entry.path node root)

/-- `MemoryWorkspace._prepare_restore_candidate`. -/
def prepareRestoreCandidate (entries : List WorkspaceSnapshotEntry) (stats : WorkspaceStats)
    (requiredDirectory : SandboxPath) : Method RestoreCandidate := do
  let self ← get
  let root ← rootFromEntries entries []
  let candidate ← stateForRoot self.limits root stats.revision
  require (candidate.stats = stats) .snapshotCorruptError
    (py "snapshot counters or hashes do not match reconstructed state")
  match ← getNode candidate.root requiredDirectory with
  | .file _ => throw ⟨.notADirectoryError, requiredDirectory.value ++ py " is not a directory"⟩
  | .directory _ =>
    let key := self.nextCapability
    set { self with
      restoreCandidates := Dict.set key ⟨candidate, candidate.stats⟩ self.restoreCandidates
      nextCapability := key + 1 }
    return .prepared self.restoreToken (.issued key)

/-- `commit_restore` up to its first suspension. -/
def commitRestoreCheck (candidate : RestoreCandidate) : Method Capability := do
  let self ← get
  match candidate with
  | .other => throw ⟨.preparedRestoreInvalid, py "candidate must be a PreparedWorkspaceRestore"⟩
  | .prepared workspaceToken capability =>
    if workspaceToken = self.restoreToken then
      return capability
    else
      throw ⟨.restoreCandidateMismatch, py "restore candidate belongs to another workspace"⟩

/-- The message of a candidate that commits nothing. -/
def invalidCandidate : PyError :=
  ⟨.preparedRestoreInvalid, py "restore candidate contains invalid workspace state"⟩

/-- The state that `commit_restore` rebuilds from a payload and checks again. -/
def detachedState (limits : WorkspaceLimits) (prepared : PreparedRestorePayload) :
    Except PyError WorkspaceState := do
  require (prepared.state.stats = prepared.expectedStats) .preparedRestoreInvalid
    (py "restore candidate metadata changed after preparation")
  let detached ← rewrap (do
      let root ← cloneDirectory prepared.state.root limits.maxNodes
      stateForRoot limits root prepared.expectedStats.revision)
    ErrorClass.isExpected .preparedRestoreInvalid invalidCandidate.message
  require (detached.stats = prepared.expectedStats) .preparedRestoreInvalid
    (py "restore candidate changed after preparation")
  .ok detached

/-- `commit_restore` between its suspensions: it takes the payload and rebuilds
    the state that it will publish. -/
def commitRestoreTake (capability : Capability) : Method WorkspaceState := do
  let self ← get
  match capability with
  | .none => throw invalidCandidate
  | .unhashable =>
    throw ⟨.preparedRestoreInvalid, py "restore candidate capability is invalid"⟩
  | .issued key =>
    match Dict.get? key self.restoreCandidates with
    | none => throw invalidCandidate
    | some prepared =>
      set { self with restoreCandidates := Dict.erase key self.restoreCandidates }
      detachedState self.limits prepared

/-- `commit_restore` after its second suspension. -/
def commitRestorePublish (state : WorkspaceState) : Method Unit := do
  let self ← get
  set { self with state }

/-- `MemoryWorkspace.commit_restore`. -/
def commitRestore (candidate : RestoreCandidate) : Method Unit := do
  let capability ← commitRestoreCheck candidate
  let state ← commitRestoreTake capability
  commitRestorePublish state

end States

end MemoryWorkspace
