import MemSandbox.Session.Operations

/-! # The requests of a session

    The public methods of `SandboxSession` (`session/session.py`), down to
    their calls of collaborators: what `send_http` does with a gateway that
    does not stop in time, how a restore is published, and how the resources of
    the session are closed.  A collaborator call is a job of the event loop.

    The operations that only call collaborators differ in their kind and in
    that code (`Action.collaborate`); it is left open here. -/

open Python EventLoop

namespace SandboxSession

variable {ι σ κ ν α : Type}

/-! ## Section 1: Collaborators -/

/-- What the operations of a session act on: their tasks, and
    `_unsettled_collaborators`. -/
structure SessionWork (σ κ ν : Type) where
  loop : EventLoop σ κ ν Raised
  unsettled : List Nat

/-- Code of the tasks. -/
def onLoop (x : Code σ κ ν α) : Coroutine (SessionWork σ κ ν) Raised α :=
  Coroutine.lift SessionWork.loop (fun loop work => { work with loop }) x

/-- Code of the tasks, on behalf of an admitted call. -/
def tasks (call : ι) (x : Code σ κ ν α) : SessionCode ι (SessionWork σ κ ν) α := working call (onLoop x)

/-- `_track_unsettled_collaborator`. -/
def trackUnsettled (call : ι) (id : Nat) : SessionCode ι (SessionWork σ κ ν) Unit :=
  working call (.step fun work r work' => r = .ok () ∧
    work' = { work with unsettled := if id ∈ work.unsettled then work.unsettled
                                     else work.unsettled ++ [id] })

/-- `self._unsettled_collaborators.discard(task)`. -/
def discardUnsettled (call : ι) (id : Nat) : SessionCode ι (SessionWork σ κ ν) Unit :=
  working call (.step fun work r work' => r = .ok () ∧
    work' = { work with unsettled := work.unsettled.erase id })

/-- `_cancel_unsettled_collaborators`. -/
def SessionWork.cancelUnsettled (work : SessionWork σ κ ν) : SessionWork σ κ ν :=
  { work with loop := { work.loop with
      tasks := work.unsettled.foldl (fun tasks id => tasks.modify id TaskState.cancel) work.loop.tasks } }

/-- `_fail_closed_for_unsettled_collaborator`. -/
def failClosed (call : ι) : SessionCode ι (SessionWork σ κ ν) Unit := do
  if (← readState) = .running then
    setPhase call .failed
  else
    return ()

/-- `if not task.done(): self._fail_closed_for_unsettled_collaborator()` -/
def failUnlessDone (call : ι) (id : Nat) : SessionCode ι (SessionWork σ κ ν) Unit := do
  if ← tasks call (isDone id) then
    return ()
  else
    failClosed call

/-- `_settle_cancelled_collaborator`, with a timeout. -/
def settleWithin (call : ι) (id : Nat) : SessionCode ι (SessionWork σ κ ν) Unit := do
  if ← tasks call (isDone id) then
    tasks call (settleCancelled id)
  else
    trackUnsettled call id
    match ← Coroutine.attempt (tasks call (waitFor .cancelledError)) with
    | .error e =>
      failUnlessDone call id
      throw e
    | .ok () =>
      if ← tasks call (isDone id) then
        discardUnsettled call id
        tasks call (settleCancelled id)
      else
        failClosed call

/-- The `try` statement of `_await_collaborator`, with a settlement timeout. -/
def pollWithin (call : ι) (id : Nat) : SessionCode ι (SessionWork σ κ ν) ν := do
  Coroutine.whileDo (do return !(← tasks call (isDone id))) do
    tasks call checkCooperativeCancellation
    if ← tasks call overdue then
      tasks call (cancel id)
      settleWithin call id
      throw operationTimeout
    else
      tasks call (waitFor .cancelledError)
  let value ← tasks call (result id)
  tasks call requireRemaining
  tasks call checkCooperativeCancellation
  return value

/-- The `except` clauses of `_await_collaborator`, with a settlement timeout. -/
def interruptedWithin (call : ι) (id : Nat) : Raised → SessionCode ι (SessionWork σ κ ν) ν
  | .cancelledError => do
    tasks call (cancel id)
    settleWithin call id
    throw .cancelledError
  | .error e =>
    if e.cls = .sessionOperationCancelled then do
      tasks call (cancel id)
      settleWithin call id
      throw (.error e)
    else
      throw (.error e)
  | .exit => throw .exit

/-- `_await_collaborator` with `cancellation_settlement_seconds`. -/
def awaitWithin (call : ι) (job : κ) : SessionCode ι (SessionWork σ κ ν) ν := do
  tasks call requireRemaining
  tasks call checkCooperativeCancellation
  let id ← tasks call (createTask job)
  tryCatch (pollWithin call id) (interruptedWithin call id)

/-! ## Section 2: Restore publication -/

/-- `cancellation is not None and cancellation.is_set()` -/
def cancellationIsSet : Code σ κ ν Bool := .step fun s r s' => (∃ b, r = .ok b) ∧ s' = s

/-- `await asyncio.shield(task)`, which does not suspend once the task is done. -/
def awaitShielded (id : Nat) : Code σ κ ν ν := do
  if ← isDone id then
    result id
  else
    shielded .cancelledError id

/-- The loop of `_publish_restore_action`: `pending_error`. -/
def watchPublication (id : Nat) : Code σ κ ν (Option Raised) :=
  Coroutine.forever do
    if ← isDone id then
      return some none
    else if ← cancellationIsSet then
      cancel id
      return some (some operationCancelled)
    else if ← overdue then
      cancel id
      return some (some operationTimeout)
    else
      waitFor .cancelledError
      return none

/-- The `try` statement of `_publish_restore_action`. -/
def awaitPublication (id : Nat) : Code σ κ ν Unit := do
  let pendingError ← watchPublication id
  tryCatch (do
    let _ ← awaitShielded id
    return ()) fun
    | .cancelledError => throw (pendingError.getD .cancelledError)
    | e => throw e

/-- `except asyncio.CancelledError` in `_publish_restore_action`. -/
def publicationCancelled (call : ι) (id : Nat) : SessionCode ι (SessionWork σ κ ν) Unit := do
  tasks call (cancel id)
  match ← Coroutine.attempt (tasks call (awaitShielded id)) with
  | .ok _ => return ()
  | .error (.error e) =>
    if e.cls.isSandboxError then
      throw .cancelledError
    else
      setPhase call .failed
      throw .cancelledError
  | .error e => throw e

/-- `_emit_failed_lifecycle`. -/
def emitFailedLifecycle (call : ι) : SessionCode ι (SessionWork σ κ ν) Unit := do
  let event ← newEvent call .sandboxFailed none none []
  tryCatch (emitEvent call event false) fun
    | .error e => if e.cls.isSandboxError then return () else throw (.error e)
    | e => throw e

/-- `SessionSnapshotRestoreFailed(...)`. -/
def restoreFailed : Raised :=
  .of .sessionSnapshotRestoreFailed
    (py "snapshot state publication failed with an unprovable live-state outcome")

/-- The `except` clauses of `_publish_restore_action`. -/
def publicationFailed (call : ι) (id : Nat) : Raised → SessionCode ι (SessionWork σ κ ν) Unit
  | .cancelledError => publicationCancelled call id
  | .error e =>
    if e.cls.isSandboxError then
      throw (.error e)
    else do
      setPhase call .failed
      emitFailedLifecycle call
      throw restoreFailed
  | .exit => throw .exit

/-- `_publish_restore_action`, which starts `publish` as a task. -/
def publishRestoreAction (call : ι) (publish : κ) : SessionCode ι (SessionWork σ κ ν) Unit := do
  tasks call requireRemaining
  tasks call checkCooperativeCancellation
  let id ← tasks call (createTask publish)
  tryCatch (tasks call (awaitPublication id)) (publicationFailed call id)

/-! ## Section 3: Resources -/

/-- `SessionCloseTimeout(...)` of the resources. -/
def cleanupTimeout : Raised :=
  .of .sessionCloseTimeout (py "session close exceeded its cleanup budget")

/-- `SessionCleanupFailed(...)`. -/
def cleanupFailed : Raised := .of .sessionCleanupFailed (py "session resource cleanup failed")

/-- `_finish_timed_out_cleanup`. -/
def finishTimedOutCleanup (id : Nat) : Code σ κ ν Unit :=
  tryCatch (do
    let _ ← join .cancelledError id
    return ()) fun
    | .exit => throw .exit
    | _ => return ()

/-- `await asyncio.shield(task)` under `asyncio.timeout`. -/
def shieldedWithin (id : Nat) : Code σ κ ν Unit :=
  .await fun s r s' => s' = s ∧ (r = .error (.of .timeoutError []) ∨
    ∃ outcome, s.outcome id = some outcome ∧ r = outcome.map fun _ => ())

/-- A resource that is not closed in time. -/
def closeTimedOut (id : Nat) : Code σ κ ν Unit := do
  cancel id
  finishTimedOutCleanup id
  throw cleanupTimeout

/-- The `except` clauses of `_await_close_resource`. -/
def closeResourceFailed (id : Nat) : Raised → Code σ κ ν Unit
  | .error e => if e.cls = .timeoutError then closeTimedOut id else throw cleanupFailed
  | e => throw e

/-- `_await_close_resource`; `job` is `self._resource_scope.close()`. -/
def awaitCloseResource (job : κ) : Code σ κ ν Unit := do
  let id ← createTask job
  if ← overdue then
    closeTimedOut id
  else
    tryCatch (shieldedWithin id) (closeResourceFailed id)

/-- What the closing task does besides its events. -/
def closePorts (job : κ) : ClosePorts (SessionWork σ κ ν) where
  awaitResource := onLoop (awaitCloseResource job)
  cancelUnsettled := SessionWork.cancelUnsettled

/-! ## Section 4: Requests -/

/-- What an operation does once the policy has allowed it. -/
inductive Action (σ κ ν α : Type) : Type 1 where
  /-- It only calls collaborators. -/
  | collaborate (x : OperationId → Code σ κ ν (α × Revision))
  /-- `send_http`: the gateway's answer, and then the rest. -/
  | send (gateway : κ) (finish : ν → Code σ κ ν (α × Revision))
  /-- A restore: what is prepared is then published by a job. -/
  | restore (prepare : OperationId → Code σ κ ν (κ × α × Revision))

/-- The action as code of the session. -/
def Action.run (call : ι) (operationId : OperationId) :
    Action σ κ ν α → SessionCode ι (SessionWork σ κ ν) (α × Revision)
  | .collaborate x => tasks call (x operationId)
  | .send gateway finish => do
    let response ← awaitWithin call gateway
    tasks call (finish response)
  | .restore prepare => do
    let (publish, result) ← tasks call (prepare operationId)
    publishRestoreAction call publish
    return result

/-- The operations whose completed result is authoritative. -/
def resultIsAuthoritative : OperationKind → Bool
  | .writeFile | .writeBytes | .createDirectory | .removePath | .applyPatch
  | .restorePortableArchive => true
  | _ => false

/-- The event that reports the committed value of an operation. -/
def postCommitEventType : OperationKind → Option SandboxEventType
  | .createSnapshot => some .snapshotCreated
  | .restoreSnapshot => some .snapshotRestored
  | _ => none

/-- An operation that a caller asks for. -/
structure OperationRequest (σ κ ν α : Type) where
  kind : OperationKind
  limits : OperationLimits
  /-- What the method checks before anything else. -/
  check : Except Raised Unit
  normalize : Code σ κ ν Unit
  evaluate : OperationId → Code σ κ ν (Option PolicyDecision)
  action : Action σ κ ν α
  /-- What the event about the committed value says. -/
  attributes : α → Revision → List EventAttribute

/-- What `_run_operation` is given for the request. -/
def OperationRequest.operation (request : OperationRequest σ κ ν α) :
    Operation ι (SessionWork σ κ ν) α where
  kind := request.kind
  limits := request.limits
  completedResultIsAuthoritative := resultIsAuthoritative request.kind
  normalize := onLoop request.normalize
  evaluate := fun operationId => onLoop (request.evaluate operationId)
  action := fun call operationId => request.action.run call operationId
  postCommitEvent := (postCommitEventType request.kind).map fun eventType value revision =>
    (eventType, request.attributes value revision)

/-- The method of the request: `send_http` looks at the state first, and every
    method at its arguments. -/
def OperationRequest.perform (call : ι) (request : OperationRequest σ κ ν α) :
    SessionCode ι (SessionWork σ κ ν) (OperationOutcome α) := do
  if request.kind = .outboundHttp then
    rejectNonRunning
    Coroutine.ofExcept request.check
    runOperation call request.operation
  else
    Coroutine.ofExcept request.check
    runOperation call request.operation

/-- What a caller asks of a session. -/
inductive Request (σ κ ν : Type) : Type 1 where
  | start
  | close
  | operation {α : Type} (request : OperationRequest σ κ ν α)

/-- The method that a caller calls. -/
def Request.perform (call : ι) : Request σ κ ν → SessionCode ι (SessionWork σ κ ν) Unit
  | .start => SandboxSession.start call
  | .close => SandboxSession.close call
  | .operation request => do
    let _ ← request.perform call
    return ()

/-- A call, from its arrival. -/
def Request.arrive (call : ι) (request : Request σ κ ν) : SessionCode ι (SessionWork σ κ ν) Unit := do
  .await fun s r s' => r = .ok () ∧ s' = s
  request.perform call

/-- The coroutines of a session: its closing task, and the calls. -/
def sessionCode {κ' : Type} (closeJob : κ) (requests : κ' → Request σ κ ν) :
    Option κ' → SessionCode (Option κ') (SessionWork σ κ ν) Unit
  | none => closeTask none (closePorts closeJob)
  | some call => (requests call).arrive (some call)

end SandboxSession
