import MemSandbox.Events.Delivery
import MemSandbox.Service.Lifecycle
import MemSandbox.Session.Collaborators
import MemSandbox.Workspace.Models

/-! # The state of a session

    `session/session.py`: the lifecycle of a session, the gate that admits one
    operation at a time, and the events a session emits.

    `history` is not in the source.  It is what the session has done, in
    order, each entry with the call that did it.  The clock returns a UTC
    reading whenever it is asked; when that is, and which deadlines have passed
    by then, is left open.

    * **Section 1** events and the state;
    * **Section 2** the steps that change the state. -/

open Python

/-- `OperationId`. -/
structure OperationId where
  value : Nat
  ne_nil : value ≠ 0

instance : DecidableEq OperationId := fun a b =>
  decidable_of_iff (a.value = b.value) ⟨fun h => by cases a; cases b; simp_all, congrArg _⟩

/-- `OperationId(value)`, of a value that is accepted. -/
def OperationId.ofValue : { value : Nat // value ≠ 0 } → OperationId
  | ⟨value, h⟩ => ⟨value, h⟩

/-- `OperationKind`. -/
inductive OperationKind where
  | execute
  | readFile
  | writeFile
  | applyPatch
  | readBytes
  | writeBytes
  | stat
  | listEntries
  | createDirectory
  | removePath
  | createSnapshot
  | restoreSnapshot
  | exportPortableArchive
  | restorePortableArchive
  | outboundHttp
  deriving DecidableEq

/-- The value of an operation kind. -/
def OperationKind.value : OperationKind → Text
  | execute => py "execute"
  | readFile => py "read_file"
  | writeFile => py "write_file"
  | applyPatch => py "apply_patch"
  | readBytes => py "read_bytes"
  | writeBytes => py "write_bytes"
  | stat => py "stat"
  | listEntries => py "list_entries"
  | createDirectory => py "create_directory"
  | removePath => py "remove_path"
  | createSnapshot => py "create_snapshot"
  | restoreSnapshot => py "restore_snapshot"
  | exportPortableArchive => py "export_portable_archive"
  | restorePortableArchive => py "restore_portable_archive"
  | outboundHttp => py "outbound_http"

/-- `SandboxEventType`, without the two types of the service. -/
inductive SandboxEventType where
  | sandboxStarted
  | sandboxClosing
  | sandboxClosed
  | sandboxFailed
  | operationStarted
  | operationCompleted
  | operationFailed
  | operationCancelled
  | operationTimedOut
  | snapshotCreated
  | snapshotRestored
  deriving DecidableEq

namespace SandboxEventType

/-- The value of an event type. -/
def value : SandboxEventType → Text
  | sandboxStarted => py "sandbox.started"
  | sandboxClosing => py "sandbox.closing"
  | sandboxClosed => py "sandbox.closed"
  | sandboxFailed => py "sandbox.failed"
  | operationStarted => py "operation.started"
  | operationCompleted => py "operation.completed"
  | operationFailed => py "operation.failed"
  | operationCancelled => py "operation.cancelled"
  | operationTimedOut => py "operation.timed_out"
  | snapshotCreated => py "snapshot.created"
  | snapshotRestored => py "snapshot.restored"

/-- The first event of a turn at the gate. -/
def opens : SandboxEventType → Bool
  | sandboxStarted | operationStarted => true
  | _ => false

/-- The last event of an operation. -/
def isTerminal : SandboxEventType → Bool
  | operationCompleted | operationFailed | operationCancelled | operationTimedOut => true
  | _ => false

end SandboxEventType

namespace SandboxSession

/-! ## Section 1: State -/

/-- `SandboxSessionState`. -/
inductive Phase where
  | created
  | running
  | closing
  | closed
  | failed
  deriving DecidableEq

/-- The value of a session state. -/
def Phase.value : Phase → Text
  | created => py "created"
  | running => py "running"
  | closing => py "closing"
  | closed => py "closed"
  | failed => py "failed"

/-- An event of a session; its session is the same for all of them. -/
structure SessionEvent where
  eventType : SandboxEventType
  occurredAt : Int
  sequence : Nat
  operationId : Option OperationId
  operationKind : Option OperationKind
  attributes : List EventAttribute

/-- One entry of the history. -/
inductive Entry (ι : Type) where
  /-- The call got the operation gate, or gave it back. -/
  | acquired (call : ι)
  | released (call : ι)
  /-- The call found the session running while it held the gate. -/
  | admitted (call : ι)
  /-- The call went on with what it asks of the collaborators. -/
  | worked (call : ι)
  | created (call : ι) (event : SessionEvent)
  /-- The sink accepted the event with this number. -/
  | delivered (call : ι) (sequence : Nat)
  /-- What the operation does has ended, with a failure or without one. -/
  | finished (call : ι) (failure : Option Raised)
  /-- `_state` was assigned. -/
  | moved (call : ι) (phase : Phase)
  | closeRequested (call : ι)

/-- The fields of a session.  `work` is what its operations and collaborators
    act on, with the tasks they have started. -/
structure SessionState (ι ω : Type) where
  state : Phase
  /-- Whether `_operation_gate` is locked. -/
  locked : Bool
  eventSequence : Nat
  /-- `_close_task`, if there is one, with its outcome if it has one. -/
  closeTask : Option (Option (Except Raised Unit))
  networkCloseRequested : Bool
  work : ω
  history : List (Entry ι)

/-- Code of a session. -/
abbrev SessionCode (ι ω : Type) := Coroutine (SessionState ι ω) Raised

variable {ι ω α : Type}

/-- A new session. -/
def SessionState.new (work : ω) : SessionState ι ω := ⟨.created, false, 0, none, false, work, []⟩

/-- The state with one more entry. -/
def SessionState.record (s : SessionState ι ω) (entry : Entry ι) : SessionState ι ω :=
  { s with history := s.history ++ [entry] }

/-! ## Section 2: Steps -/

/-- Code of the collaborators, on behalf of an admitted call. -/
def working (call : ι) (x : Coroutine ω Raised α) : SessionCode ι ω α :=
  Coroutine.lift SessionState.work (fun work s => { s.record (.worked call) with work }) x

/-- Code on `work` that asks nothing of the collaborators of an operation. -/
def quietly (x : Coroutine ω Raised α) : SessionCode ι ω α :=
  Coroutine.lift SessionState.work (fun work s => { s with work }) x

/-- A change of `work` that neither raises nor waits. -/
def updateWork (f : ω → ω) : SessionCode ι ω Unit :=
  .step fun s r s' => r = .ok () ∧ s' = { s with work := f s.work }

/-- `self._state`. -/
def readState : SessionCode ι ω Phase := .step fun s r s' => r = .ok s.state ∧ s' = s

/-- `self._state = phase`. -/
def setPhase (call : ι) (phase : Phase) : SessionCode ι ω Unit :=
  .step fun s r s' => r = .ok () ∧ s' = { s.record (.moved call phase) with state := phase }

/-- An entry of the history. -/
def note (entry : Entry ι) : SessionCode ι ω Unit :=
  .step fun s r s' => r = .ok () ∧ s' = s.record entry

/-- Whether a deadline has passed. -/
def deadlinePassed : SessionCode ι ω Bool := .step fun s r s' => (∃ b, r = .ok b) ∧ s' = s

/-- `_remaining`. -/
def checkRemaining : SessionCode ι ω Unit :=
  .step fun s r s' => (r = .ok () ∨ r = .error operationTimeout) ∧ s' = s

/-- `_check_cooperative_cancellation`. -/
def checkCancellation : SessionCode ι ω Unit :=
  .step fun s r s' => (r = .ok () ∨ r = .error operationCancelled) ∧ s' = s

/-- `self._clock.now()`. -/
def clockNow : SessionCode ι ω Int := .step fun s r s' => (∃ now, r = .ok now) ∧ s' = s

/-- `OperationId(self._uuid_generator.new_uuid())`. -/
def newOperationId : SessionCode ι ω OperationId :=
  .step fun s r s' => s' = s ∧ ∃ generated : GeneratedUuid,
    r = (generated.check (py "identifier value must not be the nil UUID")
      (py "identifier value must be a UUID")).map OperationId.ofValue

/-- `_reject_non_running`. -/
def rejectNonRunning : SessionCode ι ω Unit := do
  match ← readState with
  | .running => return ()
  | .created => throw (.of .sessionNotRunning (py "session has not been started"))
  | .closing => throw (.of .sessionClosing (py "session is closing"))
  | .closed => throw (.of .sessionClosed (py "session is closed"))
  | .failed => throw (.of .sessionFailed (py "session is failed"))

/-- `await self._operation_gate.acquire()`, under a timeout or without one. -/
def acquireGate (call : ι) (timed : Bool) : SessionCode ι ω Unit :=
  .await fun s r s' => r = .ok () ∧ s.locked = false ∧
      s' = { s.record (.acquired call) with locked := true } ∨
    (r = .error .cancelledError ∨ timed = true ∧ r = .error (.of .timeoutError [])) ∧ s' = s

/-- `self._operation_gate.release()`. -/
def releaseGate (call : ι) : SessionCode ι ω Unit :=
  .step fun s r s' => s.locked = true ∧ r = .ok () ∧
      s' = { s.record (.released call) with locked := false } ∨
    s.locked = false ∧ r = .error (.of .runtimeError (py "Lock is not acquired.")) ∧ s' = s

/-- `_new_event`. -/
def newEvent (call : ι) (eventType : SandboxEventType) (operationId : Option OperationId)
    (operationKind : Option OperationKind) (attributes : List EventAttribute) :
    SessionCode ι ω SessionEvent :=
  .step fun s r s' => ∃ now event, event =
      ⟨eventType, now, s.eventSequence + 1, operationId, operationKind, attributes⟩ ∧
    r = .ok event ∧
    s' = { s.record (.created call event) with eventSequence := s.eventSequence + 1 }

/-- `await self._event_sink.emit(event)` under a timeout. -/
def deliver (call : ι) (event : SessionEvent) : SessionCode ι ω Unit :=
  .await fun s r s' => r = .ok () ∧ s' = s.record (.delivered call event.sequence) ∨
    (∃ e, r = .error e) ∧ s' = s

/-- How `_emit_event` reports that it has run out of time. -/
def emitTimeout (closeTimeout : Bool) : Raised :=
  if closeTimeout then
    .of .sessionCloseTimeout (py "session lifecycle event delivery timed out")
  else
    .of .sessionOperationTimeout (py "required event delivery exceeded the operation deadline")

/-- The `except` clauses of `_emit_event`. -/
def emitFailed (event : SessionEvent) (closeTimeout : Bool) : Raised → SessionCode ι ω Unit
  | .cancelledError => throw .cancelledError
  | .exit => throw .exit
  | .error e =>
    if e.cls = .timeoutError then
      throw (emitTimeout closeTimeout)
    else
      throw (.of .sessionEventDeliveryFailed
        (py "required event delivery failed for " ++ event.eventType.value))

/-- `_emit_event`. -/
def emitEvent (call : ι) (event : SessionEvent) (closeTimeout : Bool) : SessionCode ι ω Unit := do
  if ← deadlinePassed then
    throw (emitTimeout closeTimeout)
  else
    tryCatch (deliver call event) (emitFailed event closeTimeout)

end SandboxSession
