import MemSandbox.Session.Requests
import MemSandbox.Snapshots.Store
import MemSandbox.Workspace.RestoreRaces

/-! # A session and its workspace

    The operations of `session/session.py` that change the workspace, save it
    or bring it back, with the workspace of `workspace/memory.py` and the store
    of `snapshots/store.py` as their collaborators.

    A call of the workspace or of the store is one step, once its task runs; a
    task that was cancelled before that does not run it.  `commit_restore`
    suspends before and after it takes the payload, so that a cancelled
    publication may have used its candidate up.  What normalising leaves for an
    action is in `target`; `returned` is not in the source, it is what the
    caller gets. -/

open Python EventLoop PortableWorkspaceArchiveCodec

namespace SandboxSession

/-! ## Section 1: Collaborators -/

/-- A call of the workspace, with its arguments. -/
inductive Mutation where
  | write (request : WorkspaceWriteRequest)
  | mkdir (request : MakeDirectoryRequest)
  | remove (request : RemovePathRequest)
  | patch (patch : Text) (expectedHashes : List ExpectedFileHash)

/-- The result of a collaborator call, or of an operation. -/
inductive SessionValue where
  | decision (decision : PolicyDecision)
  | mutation (result : WorkspaceMutation)
  | patched (result : WorkspacePatchResult)
  | stats (stats : WorkspaceStats)
  | exported (data : WorkspaceSnapshotData)
  | candidate (candidate : RestoreCandidate)
  | stored (snapshot : StoredSnapshot)
  | saved (ref : SnapshotRef)
  | snapshot (ref : SnapshotRef) (contentHash : ContentHash)
  | none

/-- The revision that an action reports with its result. -/
def SessionValue.revision : SessionValue → Revision
  | .mutation result => result.stats.revision
  | .patched result => result.stats.revision
  | _ => 0

/-- What the operations and their collaborators act on. -/
structure Sandbox where
  workspace : MemoryWorkspace
  cwd : SandboxPath
  environment : CommandEnvironment
  store : InMemorySnapshotStore
  /-- `path_box` and `expected`, in the call that they are made for. -/
  target : Option Mutation
  returned : Option SessionValue

/-- A collaborator call; a publication may bring an execution state. -/
inductive SessionJob where
  | evaluate
  | mutate (mutation : Mutation)
  | stats
  | «export»
  | prepare (preparation : RestoreRaces.Preparation)
  | save (draft : SandboxSnapshotDraft)
  | load (ref : SnapshotRef)
  | publish (candidate : RestoreCandidate) (context : Option (SandboxPath × CommandEnvironment))

section Jobs

variable [Sha256] [UnicodeData] [JsonRuntime] [TarReader] [GzipReader]

/-- `WorkspacePatchRequest(...)`. -/
def patchRequest (patch : Text) (expectedHashes : List ExpectedFileHash) :
    Except PyError WorkspacePatchRequest :=
  if h : (expectedHashes.map ExpectedFileHash.path).Nodup then
    .ok ⟨patch, expectedHashes, h⟩
  else
    raise .valueError (py "expected_hashes must not contain duplicate paths")

/-- The call of the workspace. -/
def Mutation.call : Mutation → Method SessionValue
  | .write request => do return .mutation (← MemoryWorkspace.write request)
  | .mkdir request => do return .mutation (← MemoryWorkspace.mkdir request)
  | .remove request => do return .mutation (← MemoryWorkspace.remove request)
  | .patch text expectedHashes => do
    let request ← patchRequest text expectedHashes
    return .patched (← MemoryWorkspace.patch request)

/-- `commit_restore` up to its last suspension. -/
def takeCandidate (candidate : RestoreCandidate) : Method WorkspaceState := do
  let capability ← MemoryWorkspace.commitRestoreCheck candidate
  MemoryWorkspace.commitRestoreTake capability

/-- The end of `publish`: the execution state that a restore brings with it. -/
def Sandbox.enter (u : Sandbox) : Option (SandboxPath × CommandEnvironment) → Sandbox
  | some (cwd, environment) => { u with cwd, environment }
  | none => u

/-- What was thrown, as asynchronous code sees it. -/
def raised {α : Type} : Except PyError α → Except Raised α
  | .ok a => .ok a
  | .error e => .error (.error e)

/-- How a call ends, when its cancellation has been requested or has not. -/
def SessionJob.act : SessionJob → Bool → Sandbox → Except Raised SessionValue → Sandbox → Prop
  | .evaluate, _, u, _, u' => u' = u
  | .stats, false, u, r, u' => r = .ok (.stats u.workspace.state.stats) ∧ u' = u
  | .export, false, u, r, u' =>
    r = raised ((MemoryWorkspace.export u.workspace).1.map .exported) ∧ u' = u
  | .prepare preparation, false, u, r, u' =>
    r = raised ((preparation.call u.workspace).1.map .candidate) ∧
      u' = { u with workspace := (preparation.call u.workspace).2 }
  | .save draft, false, u, r, u' => ∃ reading, r = (u.store.save draft reading).1.map .saved ∧
    u' = { u with store := (u.store.save draft reading).2 }
  | .load ref, false, u, r, u' => ∃ reading, r = (u.store.load ref reading).1.map .stored ∧
    u' = { u with store := (u.store.load ref reading).2 }
  | .mutate mutation, false, u, r, u' =>
    r = raised (mutation.call u.workspace).1 ∧
      u' = { u with workspace := (mutation.call u.workspace).2 }
  | .publish candidate context, false, u, r, u' =>
    ((MemoryWorkspace.commitRestore candidate u.workspace).1 = .ok () ∧ r = .ok .none ∧
      u' = Sandbox.enter
        { u with workspace := (MemoryWorkspace.commitRestore candidate u.workspace).2 } context) ∨
    ∃ e, (MemoryWorkspace.commitRestore candidate u.workspace).1 = .error e ∧ r = .error (.error e) ∧
      u' = { u with workspace := (MemoryWorkspace.commitRestore candidate u.workspace).2 }
  | .mutate _, true, u, r, u' | .stats, true, u, r, u' | .export, true, u, r, u'
  | .prepare _, true, u, r, u' | .save _, true, u, r, u' | .load _, true, u, r, u' =>
    r = .error .cancelledError ∧ u' = u
  | .publish candidate _, true, u, r, u' => r = .error .cancelledError ∧
    (u' = u ∨ u' = { u with workspace := (takeCandidate candidate u.workspace).2 })

abbrev SandboxCode := Code Sandbox SessionJob SessionValue

/-- The policy engine, as a collaborator. -/
def evaluatePolicy (_ : OperationId) : SandboxCode (Option PolicyDecision) := do
  match ← awaitCollaborator false .evaluate with
  | .decision decision => return some decision
  | _ => return none

/-! ## Section 2: Mutations -/

/-- What `write_file`, `write_bytes`, `create_directory`, `remove_path` and
    `apply_patch` are asked for. -/
inductive MutationRequest where
  | writeFile (path : Text) (content : Bytes) (precondition : WritePrecondition)
      (createParents : Bool)
  | writeBytes (path : Text) (content : Bytes) (precondition : WritePrecondition)
      (createParents : Bool)
  | createDirectory (path : Text) (createParents existOk : Bool)
  | removePath (path : Text) (recursive missingOk : Bool)
  | applyPatch (patch : Text) (expectedHashes : List (Text × ContentHash))

namespace MutationRequest

def kind : MutationRequest → OperationKind
  | writeFile .. => .writeFile
  | writeBytes .. => .writeBytes
  | createDirectory .. => .createDirectory
  | removePath .. => .removePath
  | applyPatch .. => .applyPatch

/-- The loop of `apply_patch` that resolves the paths of the expected hashes. -/
def resolveHashes (limits : WorkspaceLimits) (cwd : SandboxPath) :
    List (Text × ContentHash) → Except PyError (List ExpectedFileHash)
  | [] => .ok []
  | (value, contentHash) :: rest => do
    let path ← MemoryWorkspace.resolvePath limits value (some cwd)
    return ⟨path, contentHash⟩ :: (← resolveHashes limits cwd rest)

/-- The call of the workspace, with its paths resolved. -/
def resolve (limits : WorkspaceLimits) (cwd : SandboxPath) :
    MutationRequest → Except PyError Mutation
  | writeFile path content precondition createParents
  | writeBytes path content precondition createParents => do
    let path ← MemoryWorkspace.resolvePath limits path (some cwd)
    return .write { path, content, precondition, createParents }
  | createDirectory path createParents existOk => do
    let path ← MemoryWorkspace.resolvePath limits path (some cwd)
    return .mkdir { path, createParents, existOk }
  | removePath path recursive missingOk => do
    let path ← MemoryWorkspace.resolvePath limits path (some cwd)
    return .remove { path, recursive, missingOk }
  | applyPatch text expectedHashes => do
    return .patch text (← resolveHashes limits cwd expectedHashes)

/-- `normalize` of the operation. -/
def normalize (request : MutationRequest) : Call Sandbox Raised Unit := fun u =>
  match request.resolve u.workspace.limits u.cwd with
  | .ok mutation => (.ok (), { u with target := some mutation })
  | .error e => (.error (.error e), u)

/-- `path_box[0]`, and the request made with it. -/
def takeTarget : Call Sandbox Raised Mutation := fun u =>
  match u.target with
  | some mutation => (.ok mutation, u)
  | none => (.error (.of .indexError (py "list index out of range")), u)

/-- `action` of the operation. -/
def action (_ : OperationId) : SandboxCode (SessionValue × Revision) := do
  let mutation ← onShared takeTarget
  let value ← awaitCollaborator true (.mutate mutation)
  return (value, value.revision)

/-- The request, for `_run_operation`. -/
def operationRequest (request : MutationRequest) (limits : OperationLimits) :
    OperationRequest Sandbox SessionJob SessionValue SessionValue where
  kind := request.kind
  limits
  check := .ok ()
  normalize := onShared request.normalize
  evaluate := evaluatePolicy
  action := .collaborate action
  attributes := fun _ _ => []

end MutationRequest

/-! ## Section 3: Restores -/

/-- A collaborator call whose result `pick` expects; no other kind comes. -/
def awaitValue (pick : SessionValue → Option α) (job : SessionJob) : SandboxCode α := do
  let value ← awaitCollaborator false job
  Coroutine.ofExcept ((pick value).elim (.error (.of .typeError [])) .ok)

def SessionValue.stats? : SessionValue → Option WorkspaceStats
  | .stats value => some value
  | _ => Option.none

def SessionValue.exported? : SessionValue → Option WorkspaceSnapshotData
  | .exported value => some value
  | _ => Option.none

def SessionValue.candidate? : SessionValue → Option RestoreCandidate
  | .candidate value => some value
  | _ => Option.none

def SessionValue.stored? : SessionValue → Option StoredSnapshot
  | .stored value => some value
  | _ => Option.none

def SessionValue.saved? : SessionValue → Option SnapshotRef
  | .saved value => some value
  | _ => Option.none

/-- `SessionExecutionContext`, or the two fields of a session. -/
abbrev ExecutionContext := SandboxPath × CommandEnvironment

/-- What `restore_portable_archive` and `restore_snapshot` are asked for. -/
inductive RestoreRequest where
  | archive (data : WorkspaceArchiveData) (context : Option ExecutionContext)
      (expectedRevision : Option Revision) (expectedRootHash : Option ContentHash)
  | snapshot (codec : JsonSessionSnapshotCodec) (ref : SnapshotRef)

/-- `SessionWorkspaceChanged(...)`. -/
def workspaceChanged : Raised :=
  .of .sessionWorkspaceChanged (py "workspace changed after the restore source was captured")

/-- `_validate_snapshot_state`. -/
def validateSnapshotState (state : SessionSnapshotState) : Except PyError Unit := do
  require (state.schemaVersion = 1) .snapshotIncompatible
    (py "session snapshot schema version " ++ Text.ofNat state.schemaVersion ++
      py " is unsupported")
  require (state.capabilityProfileVersion = 1) .snapshotIncompatible
    (py "capability profile version " ++ Text.ofNat state.capabilityProfileVersion ++
      py " is unsupported")

/-- The fields of the execution state. -/
def executionContext : SandboxCode ExecutionContext :=
  onShared fun u => (.ok (u.cwd, u.environment), u)

namespace RestoreRequest

def kind : RestoreRequest → OperationKind
  | archive .. => .restorePortableArchive
  | snapshot .. => .restoreSnapshot

/-- What the method checks before anything else. -/
def check : RestoreRequest → Except Raised Unit
  | archive _ _ expectedRevision expectedRootHash =>
    if expectedRevision.isNone ≠ expectedRootHash.isNone then
      .error (.of .valueError (py "expected_current_revision and expected_current_root_hash " ++
        py "must be provided together"))
    else
      .ok ()
  | snapshot .. => .ok ()

/-- The check of `restore_portable_archive` on the live workspace. -/
def requireCurrent (expectedRootHash : Option ContentHash) :
    Option Revision → SandboxCode Unit
  | none => return ()
  | some expectedRevision => do
    let current ← awaitValue SessionValue.stats? .stats
    if current.revision ≠ expectedRevision ∨ some current.rootHash ≠ expectedRootHash then
      throw workspaceChanged
    else
      return ()

/-- `action` of the operation, up to the publication. -/
def prepare (request : RestoreRequest) (_ : OperationId) :
    SandboxCode (SessionJob × SessionValue × Revision) :=
  match request with
  | archive data context expectedRevision expectedRootHash => do
    requireCurrent expectedRootHash expectedRevision
    let live ← executionContext
    let candidate ← awaitValue SessionValue.candidate?
      (.prepare (.archive data (context.getD live).1))
    return (.publish candidate context, .none, data.workspaceRevision)
  | snapshot codec ref => do
    let stored ← awaitValue SessionValue.stored? (.load ref)
    requireRemaining
    let state ← Coroutine.ofExcept (raised (codec.decode stored.toSandboxSnapshot))
    Coroutine.ofExcept (raised (validateSnapshotState state))
    let candidate ← awaitValue SessionValue.candidate?
      (.prepare (.snapshot state.workspace state.cwd))
    return (.publish candidate (some (state.cwd, state.approvedEnvironment)), .saved ref,
      state.workspace.workspaceRevision)

/-- What the `snapshot.restored` event says. -/
def attributes : RestoreRequest → SessionValue → Revision → List EventAttribute
  | archive .., _, _ => []
  | snapshot _ ref, _, revision =>
    [⟨py "snapshot_id", .str (uuidText ref.snapshotId.value), .internal⟩,
      ⟨py "workspace_revision", .int revision, .internal⟩]

/-- The request, for `_run_operation`. -/
def operationRequest (request : RestoreRequest) (limits : OperationLimits) :
    OperationRequest Sandbox SessionJob SessionValue SessionValue where
  kind := request.kind
  limits
  check := request.check
  normalize := return ()
  evaluate := evaluatePolicy
  action := .restore request.prepare
  attributes := request.attributes

end RestoreRequest

/-! ## Section 4: Snapshots -/

/-- `SnapshotId(value)`, of a value that is accepted. -/
def snapshotIdOf : { value : Nat // value ≠ 0 } → SnapshotId
  | ⟨value, h⟩ => ⟨value, h⟩

/-- `SnapshotId(self._uuid_generator.new_uuid())`. -/
def newSnapshotId : SandboxCode SnapshotId :=
  .step fun s r s' => s' = s ∧ ∃ generated : GeneratedUuid,
    r = (generated.check (py "identifier value must not be the nil UUID")
      (py "identifier value must be a UUID")).map snapshotIdOf

/-- `self._clock.now()`, and the check of the draft that it is UTC. -/
def draftTime : SandboxCode Int :=
  .step fun s r s' => s' = s ∧ ((∃ now, r = .ok now) ∨ ∃ e, r = .error e)

/-- The draft of a snapshot, for a store that is local to the process. -/
def snapshotDraft (snapshotId : SnapshotId) (createdAt : Int) (sourceSessionId : SessionId)
    (payload : SnapshotPayload) : SandboxSnapshotDraft where
  schemaVersion := payload.schemaVersion
  workspaceRevision := payload.workspaceRevision
  contentHash := payload.contentHash
  payload := payload.payload
  metadata := ⟨payload.formatName, payload.payload.length⟩
  snapshotId
  createdAt
  sourceSessionId
  createdBy := none
  processLocal := true

/-- What `create_snapshot` is asked for, with the codec and the identity of the
    session. -/
structure CreateSnapshot where
  codec : JsonSessionSnapshotCodec
  sessionId : SessionId

namespace CreateSnapshot

/-- `action` of the operation. -/
def action (request : CreateSnapshot) (_ : OperationId) : SandboxCode (SessionValue × Revision) := do
  let workspace ← awaitValue SessionValue.exported? .export
  let (cwd, approvedEnvironment) ← executionContext
  requireRemaining
  let payload ← Coroutine.ofExcept (raised (request.codec.encode
    { workspace, cwd, approvedEnvironment, schemaVersion := 1, capabilityProfileVersion := 1 }))
  let snapshotId ← newSnapshotId
  let createdAt ← draftTime
  let draft := snapshotDraft snapshotId createdAt request.sessionId payload
  let ref ← awaitValue SessionValue.saved? (.save draft)
  if ref.snapshotId ≠ snapshotId then
    throw (.of .snapshotSaveFailed (py "snapshot store changed the allocated snapshot identity"))
  else
    return (.snapshot ref payload.contentHash, workspace.workspaceRevision)

/-- What the `snapshot.created` event says. -/
def attributes (value : SessionValue) (revision : Revision) : List EventAttribute :=
  match value with
  | .snapshot ref contentHash =>
    [⟨py "content_hash", .str contentHash.value, .internal⟩,
      ⟨py "snapshot_id", .str (uuidText ref.snapshotId.value), .internal⟩,
      ⟨py "workspace_revision", .int revision, .internal⟩]
  | _ => []

/-- The request, for `_run_operation`. -/
def operationRequest (request : CreateSnapshot) (limits : OperationLimits) :
    OperationRequest Sandbox SessionJob SessionValue SessionValue where
  kind := .createSnapshot
  limits
  check := .ok ()
  normalize := return ()
  evaluate := evaluatePolicy
  action := .collaborate request.action
  attributes

end CreateSnapshot
end Jobs
end SandboxSession
