import MemSandbox.Session.SessionState

/-! # The lifecycle and the operations of a session

    `start`, `close`, `_close_once` and `_run_operation` of
    `session/session.py`.  An operation is what `_run_operation` is given: how
    its path is normalised, how the policy is asked, and its action.

    The task that closes a session is a coroutine of its own; nobody but the
    session has it, so nobody cancels it.  Notes on exceptions are left out. -/

open Python

namespace SandboxSession

variable {ι ω α : Type}

/-! ## Section 1: Start -/

/-- `if self._state is not SandboxSessionState.CREATED: raise …` -/
def requireCreated : SessionCode ι ω Unit := do
  let phase ← readState
  if phase ≠ .created then
    throw (.of .sessionStartInvalid (py "session cannot start from state " ++ phase.value))
  else
    return ()

/-- The `except` clause around the gate in `start`. -/
def startTimedOut : Raised → SessionCode ι ω Unit
  | .error e =>
    if e.cls = .timeoutError then
      throw (.of .sessionOperationTimeout (py "session startup timed out"))
    else
      throw (.error e)
  | e => throw e

/-- The `except` clauses around the event in `start`. -/
def startFailed (call : ι) : Raised → SessionCode ι ω Unit
  | .cancelledError => do
    setPhase call .failed
    throw .cancelledError
  | .error e =>
    if e.cls = .sessionEventDeliveryFailed ∨ e.cls = .sessionOperationTimeout then do
      setPhase call .failed
      throw (.error e)
    else
      throw (.error e)
  | .exit => throw .exit

/-- The part of `start` that holds the gate. -/
def startHolding (call : ι) : SessionCode ι ω Unit := do
  requireCreated
  let event ← newEvent call .sandboxStarted none none []
  tryCatch (emitEvent call event false) (startFailed call)
  if (← readState) = .created then
    setPhase call .running
  else
    return ()

/-- `SandboxSession.start`. -/
def start (call : ι) : SessionCode ι ω Unit := do
  requireCreated
  tryCatch (acquireGate call true) startTimedOut
  Coroutine.finallyDo (startHolding call) (releaseGate call)

/-! ## Section 2: Close -/

/-- `self._network_close_requested.set()`. -/
def SessionState.setCloseRequested (call : ι) (s : SessionState ι ω) : SessionState ι ω :=
  { s.record (.closeRequested call) with networkCloseRequested := true }

/-- The first statements of `close`: whether it waits for the closing task. -/
def SessionState.requestClose (call : ι) (s : SessionState ι ω) : Bool × SessionState ι ω :=
  match s.closeTask with
  | some (some _) => (false, s.setCloseRequested call)
  | some none => (true, s.setCloseRequested call)
  | none =>
    if s.state = .closed then
      (false, s.setCloseRequested call)
    else
      (true, { (s.setCloseRequested call).record (.moved call .closing) with
        state := .closing, closeTask := some none })

def requestClose (call : ι) : SessionCode ι ω Bool :=
  .step fun s r s' => r = .ok (s.requestClose call).1 ∧ s' = (s.requestClose call).2

/-- `await asyncio.shield(close_task)`. -/
def awaitCloseTask : SessionCode ι ω Unit :=
  .await fun s r s' => (s.closeTask = some (some r) ∨ r = .error .cancelledError) ∧ s' = s

/-- The `except` clause in `close`; the `raise` of its `finally` clause raises
    what is being handled then. -/
def closeWaitInterrupted : Raised → SessionCode ι ω Unit
  | .cancelledError => do
    match ← Coroutine.attempt awaitCloseTask with
    | .ok () => throw .cancelledError
    | .error e => throw e
  | e => throw e

/-- `SandboxSession.close`. -/
def close (call : ι) : SessionCode ι ω Unit := do
  if ← requestClose call then
    tryCatch awaitCloseTask closeWaitInterrupted
  else
    return ()

/-- `except SandboxError as error: …`, which goes on with the error. -/
def catchSandboxError (x : SessionCode ι ω Unit) : SessionCode ι ω (Option Raised) :=
  tryCatch (do
    x
    return none) fun
    | .error e => if e.cls.isSandboxError then return some (.error e) else throw (.error e)
    | e => throw e

/-- What closing a session does besides its events. -/
structure ClosePorts (ω : Type) where
  /-- `_await_close_resource`. -/
  awaitResource : Coroutine ω Raised Unit
  /-- `_cancel_unsettled_collaborators`. -/
  cancelUnsettled : ω → ω

/-- The `try` statement of `_close_once`. -/
def closeHolding (call : ι) (ports : ClosePorts ω) : SessionCode ι ω Unit := do
  let event ← newEvent call .sandboxClosing none none []
  let first ← catchSandboxError (emitEvent call event true)
  let second ← catchSandboxError (quietly ports.awaitResource)
  setPhase call .closed
  let event ← newEvent call .sandboxClosed none none []
  let third ← catchSandboxError (emitEvent call event true)
  match first.or (second.or third) with
  | some primary => throw primary
  | none => return ()

/-- The `finally` clause of `_close_once`. -/
def closeReleasing (call : ι) : SessionCode ι ω Unit := do
  if (← readState) ≠ .closed then
    setPhase call .closed
    releaseGate call
  else
    releaseGate call

/-- `_close_once`. -/
def closeOnce (call : ι) (ports : ClosePorts ω) : SessionCode ι ω Unit := do
  acquireGate call false
  updateWork ports.cancelUnsettled
  Coroutine.finallyDo (closeHolding call ports) (closeReleasing call)

/-- The closing task, from its creation. -/
def closeTask (call : ι) (ports : ClosePorts ω) : SessionCode ι ω Unit := do
  .await fun s r s' => s.closeTask = some none ∧ r = .ok () ∧ s' = s
  let outcome ← Coroutine.attempt (closeOnce call ports)
  .step fun s r s' => r = .ok () ∧ s' = { s with closeTask := some (some outcome) }

/-! ## Section 3: Operations -/

/-- `OperationLimits`. -/
structure OperationLimits where
  timeoutSeconds : ℚ
  terminalEventReserveSeconds : ℚ
  reserve_pos : 0 < terminalEventReserveSeconds
  reserve_lt : terminalEventReserveSeconds < timeoutSeconds

/-- `PolicyDecision`. -/
structure PolicyDecision where
  allowed : Bool
  reasonCode : Text
  effectiveLimits : OperationLimits

/-- `_validate_policy_decision`; `none` stands for an object of another type. -/
def validatePolicyDecision (decision : Option PolicyDecision) (requested : OperationLimits) :
    Except Raised PolicyDecision :=
  match decision with
  | none => .error (.of .sessionRequestInvalid (py "policy engine returned an invalid decision"))
  | some decision =>
    if decision.effectiveLimits.timeoutSeconds > requested.timeoutSeconds then
      .error (.of .sessionRequestInvalid (py "policy may only narrow timeout_seconds"))
    else if decision.effectiveLimits.terminalEventReserveSeconds ≠
        requested.terminalEventReserveSeconds then
      .error (.of .sessionRequestInvalid (py "policy must preserve terminal_event_reserve_seconds"))
    else
      .ok decision

/-- `OperationResultMetadata`. -/
structure OperationResultMetadata where
  operationId : OperationId
  workspaceRevision : Revision
  startedAt : Int
  completedAt : Int
  ordered : startedAt ≤ completedAt

/-- `_OperationOutcome`. -/
structure OperationOutcome (α : Type) where
  value : α
  metadata : OperationResultMetadata

/-- What `_run_operation` is given. -/
structure Operation (ι ω α : Type) where
  kind : OperationKind
  limits : OperationLimits
  completedResultIsAuthoritative : Bool
  normalize : Coroutine ω Raised Unit
  /-- `policy_engine.evaluate`, as a collaborator. -/
  evaluate : OperationId → Coroutine ω Raised (Option PolicyDecision)
  action : ι → OperationId → SessionCode ι ω (α × Revision)
  postCommitEvent : Option (α → Revision → SandboxEventType × List EventAttribute)

/-- `SessionOperationTimeout(...)` of the gate. -/
def admissionTimeout : Raised :=
  .of .sessionOperationTimeout (py "operation timed out while waiting for admission")

/-- The `except` clause in `_acquire_operation_gate`: whether it goes on. -/
def admissionInterrupted : Raised → SessionCode ι ω (Option Unit)
  | .error e =>
    if e.cls = .timeoutError then do
      if ← deadlinePassed then
        throw admissionTimeout
      else
        return none
    else
      throw (.error e)
  | e => throw e

/-- `_acquire_operation_gate`. -/
def acquireOperationGate (call : ι) : SessionCode ι ω Unit :=
  Coroutine.forever do
    checkCancellation
    if ← deadlinePassed then
      throw admissionTimeout
    else
      tryCatch (do
        acquireGate call true
        return some ()) admissionInterrupted

/-- The operation up to the delivery of its `operation.started` event. -/
def beginOperation (call : ι) (op : Operation ι ω α) : SessionCode ι ω (OperationId × Int) := do
  rejectNonRunning
  note (.admitted call)
  working call op.normalize
  checkCancellation
  let operationId ← newOperationId
  let startedAt ← clockNow
  let event ← newEvent call .operationStarted (some operationId) (some op.kind) []
  emitEvent call event false
  return (operationId, startedAt)

/-- What leaves the `except` clauses. -/
def operationFailure : Raised → Raised
  | .error e =>
    if e.cls.isSandboxError then .error e
    else .of .sessionFailed (py "operation collaborator failed unexpectedly")
  | e => e

/-- The event that reports the committed value of an operation. -/
def emitPostCommit (call : ι) (op : Operation ι ω α) (operationId : OperationId) (value : α)
    (revision : Revision) : SessionCode ι ω Unit :=
  match op.postCommitEvent with
  | none => return ()
  | some describe => do
    let (eventType, attributes) := describe value revision
    let event ← newEvent call eventType (some operationId) (some op.kind) attributes
    tryCatch (emitEvent call event false) fun
      | .error _ => throw (.of .sessionEventDeliveryFailed
          (py "required post-commit event delivery failed for " ++ op.kind.value))
      | e => throw e

/-- `OperationResultMetadata(...)`. -/
def resultMetadata (operationId : OperationId) (revision : Revision) (startedAt completedAt : Int) :
    Except Raised OperationResultMetadata :=
  if h : startedAt ≤ completedAt then .ok ⟨operationId, revision, startedAt, completedAt, h⟩
  else .error (.of .valueError (py "completed_at must not be before started_at"))

/-- The operation from the delivery of its first event to its value. -/
def performOperation (call : ι) (op : Operation ι ω α) (operationId : OperationId)
    (startedAt : Int) : SessionCode ι ω (OperationOutcome α) := do
  checkRemaining
  let decision ← working call (op.evaluate operationId)
  let decision ← Coroutine.ofExcept (validatePolicyDecision decision op.limits)
  if decision.allowed = false then
    throw (.of .sessionPolicyDenied
      (py "policy denied " ++ op.kind.value ++ py ": " ++ decision.reasonCode))
  else
    checkRemaining
    let (value, revision) ← op.action call operationId
    let completedAt ← clockNow
    let metadata ← Coroutine.ofExcept (resultMetadata operationId revision startedAt completedAt)
    emitPostCommit call op operationId value revision
    return ⟨value, metadata⟩

/-- `_terminal_for_error`, with the clauses that call it: what an operation
    that ended so reports, if it reports anything. -/
def terminalFor : Option Raised → Option SandboxEventType
  | none => some .operationCompleted
  | some .cancelledError => some .operationCancelled
  | some .exit => none
  | some (.error e) =>
    if e.cls.category = some .timeout then some .operationTimedOut
    else if e.cls.category = some .cancelled then some .operationCancelled
    else some .operationFailed

/-- `_emit_terminal`. -/
def emitTerminal (call : ι) (op : Operation ι ω α) (operationId : OperationId)
    (eventType : SandboxEventType) (attributes : List EventAttribute) : SessionCode ι ω Unit := do
  let event ← newEvent call eventType (some operationId) (some op.kind) attributes
  emitEvent call event false

/-- An operation that failed after its first event: the `except` clauses of
    `_run_operation`.  A cancellation outlives a failure to report it. -/
def failOperation {β : Type} (call : ι) (op : Operation ι ω α) (operationId : OperationId)
    (e : Raised) : SessionCode ι ω β :=
  match terminalFor (some e) with
  | none => throw e
  | some eventType => do
    match ← Coroutine.attempt (emitTerminal call op operationId eventType []) with
    | .ok () => throw (operationFailure e)
    | .error (.error terminalError) =>
      if e = .cancelledError ∧ terminalError.cls.isSandboxError = true then throw e
      else throw (.error terminalError)
    | .error terminalError => throw terminalError

/-- `_await_despite_native_cancellation`: the call runs as a task, which only
    what it awaits itself can cancel. -/
def awaitDespiteNativeCancellation {β : Type} (x : SessionCode ι ω β) : SessionCode ι ω β := do
  .await fun s r s' => r = .ok () ∧ s' = s
  x

/-- The `else` clause of `_run_operation`. -/
def completeOperation (call : ι) (op : Operation ι ω α) (operationId : OperationId)
    (outcome : OperationOutcome α) : SessionCode ι ω (OperationOutcome α) := do
  let attributes : List EventAttribute :=
    [⟨py "workspace_revision", .int outcome.metadata.workspaceRevision, .internal⟩]
  let completion := emitTerminal call op operationId .operationCompleted attributes
  if op.completedResultIsAuthoritative then
    awaitDespiteNativeCancellation completion
    return outcome
  else
    completion
    return outcome

/-- How code ended, without its value. -/
def failureOf : Except Raised α → Option Raised
  | .ok _ => none
  | .error e => some e

/-- `except Exception as error`, before the operation has reported anything. -/
def notBegun {β : Type} (e : Raised) : SessionCode ι ω β := throw (operationFailure e)

/-- The `try` statement of `_run_operation`. -/
def operationHolding (call : ι) (op : Operation ι ω α) : SessionCode ι ω (OperationOutcome α) := do
  let (operationId, startedAt) ← tryCatch (beginOperation call op) notBegun
  let result ← Coroutine.attempt (performOperation call op operationId startedAt)
  note (.finished call (failureOf result))
  match result with
  | .ok outcome => completeOperation call op operationId outcome
  | .error e => failOperation call op operationId e

/-- `_run_operation`. -/
def runOperation (call : ι) (op : Operation ι ω α) : SessionCode ι ω (OperationOutcome α) := do
  rejectNonRunning
  acquireOperationGate call
  Coroutine.finallyDo (operationHolding call op) (releaseGate call)

end SandboxSession
