import MemSandbox.Lib.System
import MemSandbox.Service.Lifecycle

/-! # Runs of the sandbox service

    Any number of `create`, `resume`, `get_session`, `delete` and `close` calls,
    the deletion tasks and the closing task, in any order, with whatever the
    snapshot gateway, the factory, the sessions, the clock and the UUID
    generator do, and cancelled wherever they are suspended.  The model, what
    its steps do to the identifiers, and what they do to the runtimes. -/

open Python

namespace Lifecycle

/-! ## Section 1: Model -/

/-- The two calls that make a sandbox. -/
inductive Kind where
  | create
  | resume
  deriving DecidableEq

/-- A call suspended in `runtime.close()`: at its first `shield`, or after a
    cancellation at the second. -/
inductive Waiter where
  | waiting
  | cancelled
  deriving DecidableEq

/-- Where a `create` or `resume` call is suspended. -/
inductive Pending where
  /-- Without identifiers; a `resume` call is in the gateway's `load`. -/
  | begun
  /-- In the factory's `create`. -/
  | creating (kind : Kind) (reservation : Reservation)
  /-- In the session's `start`. -/
  | starting (kind : Kind) (reservation : Reservation) (runtime : Nat)
  /-- In the cleanup after a start that failed. -/
  | failing (reservation : Reservation) (runtime : Nat) (waiter : Waiter)
  /-- In the cleanup of the `finally`, with the exception on its way. -/
  | cleaning (reservation : Reservation) (runtime : Nat) (waiter : Waiter) (primary : Raised)

namespace Pending

def reservation : Pending → Option Reservation
  | .begun => none
  | .creating _ reservation => some reservation
  | .starting _ reservation _ => some reservation
  | .failing reservation _ _ => some reservation
  | .cleaning reservation _ _ _ => some reservation

def runtime : Pending → Option Nat
  | .starting _ _ runtime => some runtime
  | .failing _ runtime _ => some runtime
  | .cleaning _ runtime _ _ => some runtime
  | _ => none

/-- The call has called its runtime's `close`. -/
def closes : Pending → Bool
  | .failing _ _ _ => true
  | .cleaning _ _ _ _ => true
  | _ => false

end Pending

/-- `_close_task` of a `DefaultServiceSessionRuntime`. -/
inductive RuntimeClose where
  | none
  | running
  | done (failure : Option Raised)
  deriving DecidableEq

/-- A runtime: whether its session is `RUNNING`, and its closing task. -/
structure Runtime where
  running : Bool
  close : RuntimeClose

/-- `DefaultServiceSessionRuntime.close`, up to its suspension. -/
def Runtime.closed (runtime : Runtime) : Runtime :=
  match runtime.close with
  | .none => { runtime with close := .running }
  | _ => runtime

/-- The `deletion_task` of a record, with the record's identifiers: not started,
    suspended in `runtime.close()`, or ended. -/
inductive DeletionTask where
  | none
  | created (identifiers : Reservation)
  | closing (identifiers : Reservation)
  | done (failure : Option Raised)
  deriving DecidableEq

/-- How the task ended. -/
def DeletionTask.result : DeletionTask → Option (Option Raised)
  | .done failure => some failure
  | _ => Option.none

/-- `_close_task`: not started, waiting for the operations in progress, waiting
    for the deletions, or ended. -/
inductive CloseTask where
  | none
  | created
  | finishing (operations runtimes : List Nat)
  | deleting (runtimes : List Nat)
  | done (failed : Bool)

/-- What happened to a call or to a runtime. -/
inductive Event where
  /-- The factory returned the runtime to the call. -/
  | returned (call runtime : Nat)
  | published (call runtime : Nat)
  /-- The runtime's `close` was called. -/
  | closeCalled (runtime : Nat)
  | ended (call : Nat) (result : Except Raised SandboxHandle)

def Event.publication : Event → Option Nat
  | .published _ runtime => some runtime
  | _ => none

def Event.closing : Event → Option Nat
  | .closeCalled runtime => some runtime
  | _ => none

/-- The service, the calls in progress, the runtimes that the factory returned
    with the deletion tasks of their records, the closing task, and the
    history. -/
structure World where
  service : Service
  calls : Nat → Option Pending
  nextCall : Nat
  runtimes : Nat → Runtime
  nextRuntime : Nat
  deletions : Nat → DeletionTask
  closeTask : CloseTask
  history : List Event

/-- A new service. -/
def World.new : World :=
  ⟨.new, fun _ => none, 0, fun _ => ⟨false, .none⟩, 0, fun _ => .none, .none, []⟩

/-- A step of a call, of a task or of a session.  A call of `get_session` or
    `delete` that waits for a deletion, and a suspended call of `close`, do
    nothing but wait. -/
inductive Action where
  | create (first second : GeneratedUuid) (store : Except Raised Unit)
  | resume
  /-- `load` and `decode` end, and `resume` goes on when both returned. -/
  | loaded (call : Nat) (decoded : Except Raised Unit) (first second : GeneratedUuid)
      (store : Except Raised Unit)
  | factoryReturns (call : Nat)
  | factoryRaises (call : Nat) (e : Raised)
  | startReturns (call : Nat) (reading : ClockReading)
  | startRaises (call : Nat) (e : Raised)
  /-- The runtime's closing task has ended, and the call goes on. -/
  | closeAwaited (call : Nat)
  /-- A call that is suspended in `runtime.close()` is cancelled. -/
  | cancelClose (call : Nat)
  | sessionChanges (runtime : Nat) (running : Bool)
  | runtimeCloses (runtime : Nat) (failure : Option Raised)
  | getSession (handle : SandboxHandle)
  | delete (handle : SandboxHandle)
  | deletionStart (runtime : Nat)
  | deletionEnd (runtime : Nat)
  | close
  | closeStart
  | closeFinished
  | closeDeleted

/-! ### The exceptions of `create` and `resume` -/

/-- A `SandboxError`. -/
def isSandboxError : Raised → Bool
  | .error e => e.cls.isSandboxError
  | _ => false

/-- The `except` clauses around the factory. -/
def Kind.factoryError (kind : Kind) (e : Raised) : Raised :=
  match kind, e with
  | _, .cancelledError => .cancelledError
  | .create, e =>
    if isSandboxError e then e
    else .of .sessionFactoryFailed (py "session factory construction failed")
  | .resume, .error e =>
    if e.cls = .sessionFactoryFailed ∨ ¬ e.cls.isSandboxError then
      .of .sandboxResumeFailed (py "sandbox resume failed")
    else .error e
  | .resume, .exit => .of .sandboxResumeFailed (py "sandbox resume failed")

/-- The outer `except` clauses of `resume`; `create` has none. -/
def Kind.outerError (kind : Kind) (e : Raised) : Raised :=
  match kind, e with
  | .resume, .error e =>
    if e.cls.isSandboxError then .error e
    else .of .sandboxResumeFailed (py "sandbox resume failed")
  | .resume, .exit => .of .sandboxResumeFailed (py "sandbox resume failed")
  | _, e => e

def startupFailed : Raised := .of .sandboxStartupFailed (py "sandbox startup failed")

def resumeFailed : Raised := .of .sandboxResumeFailed (py "sandbox resume failed")

namespace World

/-! ### The steps of a call -/

/-- The end of a call, behind `_finish_lifecycle`. -/
def finish (W : World) (call : Nat) (reservation : Option Reservation)
    (result : Except Raised SandboxHandle) : World :=
  { W with
    service := W.service.finishLifecycle call reservation
    calls := Function.update W.calls call none
    history := W.history ++ [.ended call result] }

/-- A call is suspended. -/
def suspend (W : World) (call : Nat) (pending : Pending) : World :=
  { W with calls := Function.update W.calls call (some pending) }

/-- A call calls `runtime.close()`. -/
def awaitClose (W : World) (call : Nat) (pending : Pending) (runtime : Nat) : World :=
  { W with
    calls := Function.update W.calls call (some pending)
    runtimes := Function.update W.runtimes runtime (W.runtimes runtime).closed
    history := W.history ++ [.closeCalled runtime] }

/-- Whether `runtime.close()` raises a cancellation: its own, or the one that the
    call got while it waited, unless a failure has taken that one's place. -/
def cancels (waiter : Waiter) (failure : Option Raised) : Bool :=
  failure = some .cancelledError ∨ (waiter = .cancelled ∧ failure = none)

/-- The exception with which the `finally` is left: only a cancellation replaces
    the one on its way. -/
def cleaned (waiter : Waiter) (failure : Option Raised) (primary : Raised) : Raised :=
  if cancels waiter failure then .cancelledError else primary

/-- The `finally` with a runtime; an ended closing task does not suspend it. -/
def cleanup (W : World) (call : Nat) (reservation : Reservation) (runtime : Nat)
    (primary : Raised) : World :=
  let W := W.awaitClose call (.cleaning reservation runtime .waiting primary) runtime
  match (W.runtimes runtime).close with
  | .done failure =>
    W.finish call (some reservation) (.error (cleaned .waiting failure primary))
  | _ => W

/-- From the reservation of the identifiers to the factory. -/
def construct (W : World) (call : Nat) (kind : Kind) (first second : GeneratedUuid)
    (store : Except Raised Unit) : World :=
  match W.service.reserveIdentifiers first second with
  | .error e => W.finish call none (.error (kind.outerError e))
  | .ok (reservation, service) =>
    match store with
    | .error e =>
      { W with service }.finish call (some reservation)
        (.error (kind.outerError (kind.factoryError e)))
    | .ok () => { W with service }.suspend call (.creating kind reservation)

/-- `_begin_lifecycle`, or the end of the call. -/
def begin (W : World) (next : World → World) : World :=
  match W.service.beginLifecycle W.nextCall with
  | .error e =>
    { W with
      nextCall := W.nextCall + 1
      history := W.history ++ [.ended W.nextCall (.error e)] }
  | .ok service =>
    next { W with
      service
      calls := Function.update W.calls W.nextCall (some .begun)
      nextCall := W.nextCall + 1 }

/-- The factory returns a new runtime, and the call starts its session. -/
def factoryReturns (W : World) (call : Nat) (kind : Kind) (reservation : Reservation) : World :=
  { W with
    calls := Function.update W.calls call (some (.starting kind reservation W.nextRuntime))
    nextRuntime := W.nextRuntime + 1
    history := W.history ++ [.returned call W.nextRuntime] }

/-- `_publish` and the end of the call, or the cleanup. -/
def startReturns (W : World) (call : Nat) (kind : Kind) (reservation : Reservation) (runtime : Nat)
    (reading : ClockReading) : World :=
  match W.service.publish reservation runtime reading with
  | .ok service =>
    World.finish { W with service, history := W.history ++ [.published call runtime] } call
      (some reservation) (.ok reservation.handle)
  | .error e => W.cleanup call reservation runtime (kind.outerError e)

/-- The `except` clauses around `start`; `create` cleans up in them. -/
def startRaises (W : World) (call : Nat) (kind : Kind) (reservation : Reservation) (runtime : Nat)
    (e : Raised) : World :=
  match e, kind with
  | .cancelledError, _ => W.cleanup call reservation runtime .cancelledError
  | _, .create => W.awaitClose call (.failing reservation runtime .waiting) runtime
  | _, .resume => W.cleanup call reservation runtime resumeFailed

/-- A call goes on behind `runtime.close()`. -/
def closeAwaited (W : World) (call : Nat) (failure : Option Raised) : Pending → World
  | .failing reservation runtime waiter =>
    if cancels waiter failure then
      W.cleanup call reservation runtime .cancelledError
    else
      W.finish call (some reservation) (.error startupFailed)
  | .cleaning reservation _ waiter primary =>
    W.finish call (some reservation) (.error (cleaned waiter failure primary))
  | _ => W

/-- A call is cancelled in `runtime.close()`; the second time it does not wait
    any longer. -/
def cancelClose (W : World) (call : Nat) : Pending → World
  | .failing reservation runtime .waiting =>
    W.suspend call (.failing reservation runtime .cancelled)
  | .failing reservation runtime .cancelled =>
    W.cleanup call reservation runtime .cancelledError
  | .cleaning reservation runtime .waiting primary =>
    W.suspend call (.cleaning reservation runtime .cancelled primary)
  | .cleaning reservation _ .cancelled _ =>
    W.finish call (some reservation) (.error .cancelledError)
  | _ => W

/-! ### The steps of the tasks -/

/-- `_start_deletion_locked`. -/
def startDeletion (W : World) (handle : SandboxHandle) (record : SessionRecord) : World :=
  match W.deletions record.runtime with
  | .none =>
    { W with
      service := W.service.markDeleting handle record
      deletions :=
        Function.update W.deletions record.runtime (.created ⟨handle, record.sessionId⟩) }
  | _ => W

/-- `get_session`, up to its suspension, and the runtime whose session it
    returns. -/
def getSession (W : World) (handle : SandboxHandle) : World × Option Nat :=
  match W.service.requireOpen, Dict.get? handle W.service.records with
  | .ok (), some record =>
    if record.status = .deleting then (W, none)
    else if (W.runtimes record.runtime).running then (W, some record.runtime)
    else (W.startDeletion handle record, none)
  | _, _ => (W, none)

/-- `delete`, up to its suspension. -/
def delete (W : World) (handle : SandboxHandle) : World :=
  match W.service.requireOpen, Dict.get? handle W.service.records with
  | .ok (), some record => W.startDeletion handle record
  | _, _ => W

/-- `_delete_record`, up to its suspension. -/
def deletionStart (W : World) (runtime : Nat) (identifiers : Reservation) : World :=
  { W with
    runtimes := Function.update W.runtimes runtime (W.runtimes runtime).closed
    deletions := Function.update W.deletions runtime (.closing identifiers)
    history := W.history ++ [.closeCalled runtime] }

/-- How a deletion task ends. -/
def deletionFailure (handle : SandboxHandle) : Option Raised → Option Raised
  | none => none
  | some .cancelledError => some .cancelledError
  | some _ => some (.of .sandboxDeleteFailed
      (py "sandbox " ++ uuidText handle.value ++ py " cleanup failed"))

/-- `_delete_record` behind `runtime.close()`. -/
def deletionEnd (W : World) (runtime : Nat) (identifiers : Reservation)
    (failure : Option Raised) : World :=
  { W with
    service := W.service.dropRecord identifiers runtime
    deletions := Function.update W.deletions runtime
      (.done (deletionFailure identifiers.handle failure)) }

/-- The first part of `_close_once`. -/
def closeStart (W : World) : World :=
  let W' := { W with
    service := { W.service with state := .closing }
    closeTask := .finishing W.service.pendingOperations
      (W.service.records.map fun entry => entry.2.runtime) }
  W.service.records.foldl (fun W entry => W.startDeletion entry.1 entry.2) W'

/-- One step; a step that is not possible changes nothing. -/
def after (W : World) : Action → World
  | .create first second store =>
    W.begin fun W' => W'.construct W.nextCall .create first second store
  | .resume => W.begin fun W' => W'
  | .loaded call decoded first second store =>
    match W.calls call, decoded with
    | some .begun, .ok () => W.construct call .resume first second store
    | some .begun, .error e => W.finish call none (.error (Kind.resume.outerError e))
    | _, _ => W
  | .factoryReturns call =>
    match W.calls call with
    | some (.creating kind reservation) => W.factoryReturns call kind reservation
    | _ => W
  | .factoryRaises call e =>
    match W.calls call with
    | some (.creating kind reservation) =>
      W.finish call (some reservation) (.error (kind.outerError (kind.factoryError e)))
    | _ => W
  | .startReturns call reading =>
    match W.calls call with
    | some (.starting kind reservation runtime) =>
      W.startReturns call kind reservation runtime reading
    | _ => W
  | .startRaises call e =>
    match W.calls call with
    | some (.starting kind reservation runtime) => W.startRaises call kind reservation runtime e
    | _ => W
  | .closeAwaited call =>
    match W.calls call with
    | some pending =>
      match pending.runtime.map fun runtime => (W.runtimes runtime).close with
      | some (.done failure) => W.closeAwaited call failure pending
      | _ => W
    | none => W
  | .cancelClose call =>
    match W.calls call with
    | some pending => W.cancelClose call pending
    | none => W
  | .sessionChanges runtime running =>
    { W with runtimes :=
        Function.update W.runtimes runtime { W.runtimes runtime with running } }
  | .runtimeCloses runtime failure =>
    match (W.runtimes runtime).close with
    | .running =>
      { W with runtimes :=
          Function.update W.runtimes runtime { W.runtimes runtime with close := .done failure } }
    | _ => W
  | .getSession handle => (W.getSession handle).1
  | .delete handle => W.delete handle
  | .deletionStart runtime =>
    match W.deletions runtime with
    | .created identifiers => W.deletionStart runtime identifiers
    | _ => W
  | .deletionEnd runtime =>
    match W.deletions runtime, (W.runtimes runtime).close with
    | .closing identifiers, .done failure => W.deletionEnd runtime identifiers failure
    | _, _ => W
  | .close =>
    match W.closeTask with
    | .none => { W with closeTask := .created }
    | _ => W
  | .closeStart =>
    match W.closeTask with
    | .created => W.closeStart
    | _ => W
  | .closeFinished =>
    match W.closeTask with
    | .finishing operations runtimes =>
      if ∀ operation ∈ operations, operation ∉ W.service.pendingOperations then
        { W with closeTask := .deleting runtimes }
      else W
    | _ => W
  | .closeDeleted =>
    match W.closeTask with
    | .deleting runtimes =>
      if ∀ runtime ∈ runtimes, (W.deletions runtime).result.isSome then
        { W with
          service := W.service.markClosed
          closeTask := .done (runtimes.any fun runtime =>
            (W.deletions runtime).result.any Option.isSome) }
      else W
    | _ => W

end World

/-- The runs of a service. -/
def system : System World Action where
  init W := W = .new
  step W action W' := W' = W.after action

/-! ## Section 2: Identifiers -/

/-- The reservation that a call holds. -/
def World.held (W : World) (call : Nat) : Option Reservation :=
  (W.calls call).bind Pending.reservation

/-- What is reserved is what the calls hold, each for itself. -/
structure Reserves {α : Type} (reserved : List α) (key : Reservation → α)
    (held : Nat → Option Reservation) : Prop where
  mem : ∀ x, x ∈ reserved ↔ ∃ call reservation, held call = some reservation ∧ key reservation = x
  own : ∀ call call' reservation reservation', held call = some reservation →
    held call' = some reservation' → key reservation' = key reservation → call' = call

section

variable {α : Type} {reserved : List α} {key : Reservation → α}
  {held : Nat → Option Reservation} {call : Nat} {reservation : Reservation}

theorem held_update {o : Option Reservation} {c : Nat} {r : Reservation} :
    Function.update held call o c = some r ↔
      (c = call ∧ o = some r) ∨ (c ≠ call ∧ held c = some r) := by
  by_cases hc : c = call
  · rw [hc, Function.update_self]
    simp
  · rw [Function.update_of_ne hc]
    simp [hc]

theorem Reserves.reserve (h : Reserves reserved key held) (hcall : held call = none)
    (hnew : key reservation ∉ reserved) :
    Reserves (key reservation :: reserved) key (Function.update held call (some reservation)) := by
  constructor
  · intro x
    rw [List.mem_cons, h.mem]
    constructor
    · intro hor
      rcases hor with rfl | ⟨c, r, hc, hr⟩
      · exact ⟨call, reservation, held_update.mpr (.inl ⟨rfl, rfl⟩), rfl⟩
      · have hne : c ≠ call := by
          intro heq
          rw [heq, hcall] at hc
          exact nomatch hc
        exact ⟨c, r, held_update.mpr (.inr ⟨hne, hc⟩), hr⟩
    · intro hex
      obtain ⟨c, r, hc, hr⟩ := hex
      rcases held_update.mp hc with ⟨-, heq⟩ | ⟨-, hc⟩
      · rw [← hr, Option.some.inj heq]
        exact .inl rfl
      · exact .inr ⟨c, r, hc, hr⟩
  · intro c c' r r' hc hc' heq
    rcases held_update.mp hc with ⟨hcall, hres⟩ | ⟨-, hc⟩
    · rcases held_update.mp hc' with ⟨hcall', -⟩ | ⟨-, hc'⟩
      · rw [hcall, hcall']
      · rw [Option.some.inj hres] at hnew
        exact absurd ((h.mem _).mpr ⟨c', r', hc', heq⟩) hnew
    · rcases held_update.mp hc' with ⟨-, hres⟩ | ⟨-, hc'⟩
      · rw [Option.some.inj hres] at hnew
        exact absurd ((h.mem _).mpr ⟨c, r, hc, heq.symm⟩) hnew
      · exact h.own c c' r r' hc hc' heq

theorem Reserves.release [DecidableEq α] (h : Reserves reserved key held)
    (hcall : held call = some reservation) :
    Reserves (setDiscard (key reservation) reserved) key (Function.update held call none) := by
  constructor
  · intro x
    rw [mem_setDiscard, h.mem]
    constructor
    · intro hand
      obtain ⟨⟨c, r, hc, hr⟩, hne⟩ := hand
      have hother : c ≠ call := by
        intro heq
        rw [heq, hcall, Option.some.injEq] at hc
        exact hne (by rw [← hr, hc])
      exact ⟨c, r, held_update.mpr (.inr ⟨hother, hc⟩), hr⟩
    · intro hex
      obtain ⟨c, r, hc, hr⟩ := hex
      rcases held_update.mp hc with ⟨-, heq⟩ | ⟨hother, hc⟩
      · exact nomatch heq
      · refine ⟨⟨c, r, hc, hr⟩, ?_⟩
        intro heq
        exact hother (h.own call c reservation r hcall hc (hr.trans heq))
  · intro c c' r r' hc hc' heq
    rcases held_update.mp hc with ⟨-, hnone⟩ | ⟨-, hc⟩
    · exact nomatch hnone
    · rcases held_update.mp hc' with ⟨-, hnone⟩ | ⟨-, hc'⟩
      · exact nomatch hnone
      · exact h.own c c' r r' hc hc' heq

end

/-- The reserved identifiers are those that the calls hold, and those of the
    records are others. -/
structure Identified (S : Service) (held : Nat → Option Reservation) : Prop where
  handles : Reserves S.reservedHandles Reservation.handle held
  sessionIds : Reserves S.reservedSessionIds Reservation.sessionId held
  records : Dict.UniqueKeys S.records
  sessions : ∀ entry ∈ S.records, ∀ entry' ∈ S.records,
    entry'.2.sessionId = entry.2.sessionId → entry'.1 = entry.1
  freeHandle : ∀ entry ∈ S.records, entry.1 ∉ S.reservedHandles
  freeSession : ∀ entry ∈ S.records, entry.2.sessionId ∉ S.reservedSessionIds

namespace Identified

variable {S : Service} {held : Nat → Option Reservation} {call : Nat} {reservation : Reservation}

theorem new : Identified .new fun _ => none where
  handles := ⟨fun _ => ⟨nofun, fun ⟨_, _, h, _⟩ => nomatch h⟩, nofun⟩
  sessionIds := ⟨fun _ => ⟨nofun, fun ⟨_, _, h, _⟩ => nomatch h⟩, nofun⟩
  records := Dict.uniqueKeys_nil
  sessions := List.forall_mem_nil _
  freeHandle := List.forall_mem_nil _
  freeSession := List.forall_mem_nil _

/-- Fresh identifiers are reserved. -/
theorem reserve (h : Identified S held) (hcall : held call = none)
    (hhandle : reservation.handle ∉ S.reservedHandles)
    (hrecord : reservation.handle ∉ Dict.keys S.records)
    (hsession : reservation.sessionId ∉ S.reservedSessionIds)
    (hsessions : ∀ entry ∈ S.records, entry.2.sessionId ≠ reservation.sessionId) :
    Identified { S with
      reservedHandles := reservation.handle :: S.reservedHandles
      reservedSessionIds := reservation.sessionId :: S.reservedSessionIds }
      (Function.update held call (some reservation)) where
  handles := h.handles.reserve hcall hhandle
  sessionIds := h.sessionIds.reserve hcall hsession
  records := h.records
  sessions := h.sessions
  freeHandle entry hentry hmem := by
    rcases List.mem_cons.mp hmem with heq | hmem
    · exact hrecord (heq ▸ Dict.mem_keys_of_mem hentry)
    · exact h.freeHandle entry hentry hmem
  freeSession entry hentry hmem := by
    rcases List.mem_cons.mp hmem with heq | hmem
    · exact hsessions entry hentry heq
    · exact h.freeSession entry hentry hmem

/-- A call gives its reservation back. -/
theorem release (h : Identified S held) (hcall : held call = some reservation) :
    Identified (S.release reservation) (Function.update held call none) where
  handles := h.handles.release hcall
  sessionIds := h.sessionIds.release hcall
  records := h.records
  sessions := h.sessions
  freeHandle entry hentry hmem := h.freeHandle entry hentry (mem_setDiscard.mp hmem).1
  freeSession entry hentry hmem := h.freeSession entry hentry (mem_setDiscard.mp hmem).1

/-- A reservation becomes a record. -/
theorem publish (h : Identified S held) (hcall : held call = some reservation) (runtime : Nat) :
    Identified (Service.release reservation
      { S with records :=
          Dict.set reservation.handle ⟨reservation.sessionId, runtime, .active⟩ S.records })
      (Function.update held call none) := by
  have hhandle : reservation.handle ∈ S.reservedHandles :=
    (h.handles.mem _).mpr ⟨call, reservation, hcall, rfl⟩
  have hsession : reservation.sessionId ∈ S.reservedSessionIds :=
    (h.sessionIds.mem _).mpr ⟨call, reservation, hcall, rfl⟩
  refine ⟨h.handles.release hcall, h.sessionIds.release hcall, Dict.uniqueKeys_set h.records _ _,
    ?_, ?_, ?_⟩
  · intro entry hentry entry' hentry' heq
    rcases Dict.mem_set hentry with rfl | hold
    · rcases Dict.mem_set hentry' with rfl | hold'
      · rfl
      · exact absurd (heq ▸ hsession) (h.freeSession entry' hold')
    · rcases Dict.mem_set hentry' with rfl | hold'
      · exact absurd (heq ▸ hsession) (h.freeSession entry hold)
      · exact h.sessions entry hold entry' hold' heq
  · intro entry hentry hmem
    obtain ⟨hreserved, hne⟩ := mem_setDiscard.mp hmem
    rcases Dict.mem_set hentry with rfl | hold
    · exact hne rfl
    · exact h.freeHandle entry hold hreserved
  · intro entry hentry hmem
    obtain ⟨hreserved, hne⟩ := mem_setDiscard.mp hmem
    rcases Dict.mem_set hentry with rfl | hold
    · exact hne rfl
    · exact h.freeSession entry hold hreserved

/-- A record is marked. -/
theorem mark (h : Identified S held) {handle : SandboxHandle} {record : SessionRecord}
    (hrecord : (handle, record) ∈ S.records) : Identified (S.markDeleting handle record) held := by
  have hold : ∀ entry ∈ (S.markDeleting handle record).records, ∃ entry' ∈ S.records,
      entry'.1 = entry.1 ∧ entry'.2.sessionId = entry.2.sessionId := by
    intro entry hentry
    rcases Dict.mem_set hentry with rfl | hentry
    · exact ⟨_, hrecord, rfl, rfl⟩
    · exact ⟨entry, hentry, rfl, rfl⟩
  refine ⟨h.handles, h.sessionIds, Dict.uniqueKeys_set h.records _ _, ?_, ?_, ?_⟩
  · intro entry hentry entry' hentry' heq
    obtain ⟨old, hmem, hkey, hsession⟩ := hold entry hentry
    obtain ⟨old', hmem', hkey', hsession'⟩ := hold entry' hentry'
    rw [← hkey, ← hkey']
    exact h.sessions old hmem old' hmem' (hsession'.trans (heq.trans hsession.symm))
  · intro entry hentry
    obtain ⟨old, hmem, hkey, -⟩ := hold entry hentry
    exact hkey ▸ h.freeHandle old hmem
  · intro entry hentry
    obtain ⟨old, hmem, -, hsession⟩ := hold entry hentry
    exact hsession ▸ h.freeSession old hmem

/-- A record is dropped; its identifiers were not reserved. -/
theorem drop (h : Identified S held) {record : SessionRecord}
    (hrecord : (reservation.handle, record) ∈ S.records)
    (hsession : record.sessionId = reservation.sessionId) :
    S.dropRecord reservation record.runtime =
        { S with records := Dict.erase reservation.handle S.records } ∧
      Identified { S with records := Dict.erase reservation.handle S.records } held := by
  have hsublist := Dict.erase_sublist reservation.handle S.records
  constructor
  · have hhandle := h.freeHandle _ hrecord
    have hsessionId := h.freeSession _ hrecord
    rw [hsession] at hsessionId
    unfold Service.dropRecord Service.release
    rw [Dict.get?_of_mem h.records hrecord]
    simp only [if_true, setDiscard_of_not_mem hhandle, setDiscard_of_not_mem hsessionId]
  · exact {
      handles := h.handles
      sessionIds := h.sessionIds
      records := Dict.uniqueKeys_erase h.records _
      sessions := fun entry hentry entry' hentry' =>
        h.sessions entry (hsublist.subset hentry) entry' (hsublist.subset hentry')
      freeHandle := fun entry hentry => h.freeHandle entry (hsublist.subset hentry)
      freeSession := fun entry hentry => h.freeSession entry (hsublist.subset hentry) }

/-- Behind the last call nothing is reserved. -/
theorem clear (h : Identified S held) (hheld : ∀ call, held call = none) :
    S.reservedHandles = [] ∧ S.reservedSessionIds = [] := by
  constructor
  · refine List.eq_nil_iff_forall_not_mem.mpr ?_
    intro handle hmem
    obtain ⟨call, reservation, hcall, -⟩ := (h.handles.mem _).mp hmem
    rw [hheld] at hcall
    exact nomatch hcall
  · refine List.eq_nil_iff_forall_not_mem.mpr ?_
    intro sessionId hmem
    obtain ⟨call, reservation, hcall, -⟩ := (h.sessionIds.mem _).mp hmem
    rw [hheld] at hcall
    exact nomatch hcall

end Identified

/-! ## Section 3: Runtimes -/

/-- The runtimes that were published. -/
def published (history : List Event) : List Nat := history.filterMap Event.publication

/-- The runtimes whose `close` was called, once for every call. -/
def closings (history : List Event) : List Nat := history.filterMap Event.closing

/-- A call ends when its runtime was published or is being closed. -/
def Rule (before : List Event) : Event → Prop
  | .ended call _ => ∀ runtime, .returned call runtime ∈ before →
      .published call runtime ∈ before ∨ runtime ∈ closings before
  | _ => True

/-- The status of a record, and the identifiers of its deletion task. -/
def Agrees (entry : SandboxHandle × SessionRecord) : DeletionTask → Prop
  | .none => entry.2.status = .active
  | .created identifiers =>
    entry.2.status = .deleting ∧ identifiers = ⟨entry.1, entry.2.sessionId⟩
  | .closing identifiers =>
    entry.2.status = .deleting ∧ identifiers = ⟨entry.1, entry.2.sessionId⟩
  | .done _ => False

/-- How often a deletion task has called `close`. -/
def DeletionTask.calls : DeletionTask → Nat
  | .closing _ => 1
  | .done _ => 1
  | _ => 0

/-- Every runtime is with its call, is published, or was closed; a published one
    has a record or was deleted, and only its deletion closes it. -/
structure Cared (W : World) : Prop where
  fresh : ∀ call runtime, .returned call runtime ∈ W.history →
    call < W.nextCall ∧ runtime < W.nextRuntime
  origin : ∀ call call' runtime, .returned call runtime ∈ W.history →
    .returned call' runtime ∈ W.history → call' = call
  closedReturned : ∀ runtime ∈ closings W.history, ∃ call, .returned call runtime ∈ W.history
  publishedReturned : ∀ call runtime, .published call runtime ∈ W.history →
    .returned call runtime ∈ W.history
  publishedOnce : (published W.history).Nodup
  held : ∀ call pending runtime, W.calls call = some pending → pending.runtime = some runtime →
    .returned call runtime ∈ W.history ∧ runtime ∉ published W.history ∧
      (pending.closes = true ↔ runtime ∈ closings W.history)
  settled : ∀ call runtime, .returned call runtime ∈ W.history →
    (∃ pending, W.calls call = some pending ∧ pending.runtime = some runtime) ∨
      .published call runtime ∈ W.history ∨ runtime ∈ closings W.history
  deleted : ∀ runtime, W.deletions runtime ≠ .none → runtime ∈ published W.history
  records : ∀ entry ∈ W.service.records, entry.2.runtime ∈ published W.history ∧
    Agrees entry (W.deletions entry.2.runtime)
  runtimes : ∀ entry ∈ W.service.records, ∀ entry' ∈ W.service.records,
    entry'.2.runtime = entry.2.runtime → entry'.1 = entry.1
  removed : ∀ runtime ∈ published W.history,
    (∃ entry ∈ W.service.records, entry.2.runtime = runtime) ∨
      ∃ failure, W.deletions runtime = .done failure
  closedOnce : ∀ runtime ∈ published W.history,
    (closings W.history).count runtime = (W.deletions runtime).calls
  ran : ∀ runtime failure, W.deletions runtime = .done failure →
    ∃ result, (W.runtimes runtime).close = .done result
  justified : Justified Rule W.history

namespace Cared

variable {W : World} {call : Nat}

theorem new : Cared .new where
  fresh := nofun
  origin := nofun
  closedReturned := List.forall_mem_nil _
  publishedReturned := nofun
  publishedOnce := List.nodup_nil
  held := nofun
  settled := nofun
  deleted _ h := absurd rfl h
  records := List.forall_mem_nil _
  runtimes := List.forall_mem_nil _
  removed := List.forall_mem_nil _
  closedOnce := List.forall_mem_nil _
  ran := nofun
  justified := justified_nil

theorem mem_published {history : List Event} {runtime : Nat} :
    runtime ∈ published history ↔ ∃ call, .published call runtime ∈ history := by
  constructor
  · intro h
    obtain ⟨event, hevent, hpublication⟩ := List.mem_filterMap.mp h
    cases event with
    | published c r =>
      cases hpublication
      exact ⟨c, hevent⟩
    | _ => exact nomatch hpublication
  · intro h
    obtain ⟨c, hc⟩ := h
    exact List.mem_filterMap.mpr ⟨_, hc, rfl⟩

theorem mem_concat {history : List Event} {event event' : Event} :
    event ∈ history ++ [event'] ↔ event ∈ history ∨ event = event' := by
  rw [List.mem_append, List.mem_singleton]

theorem published_concat (history : List Event) (event : Event) :
    published (history ++ [event]) = published history ++ event.publication.toList := by
  unfold published
  rw [List.filterMap_append]
  cases hevent : event.publication with
  | none => rw [List.filterMap_cons_none hevent]; rfl
  | some runtime => rw [List.filterMap_cons_some hevent]; rfl

theorem closings_concat (history : List Event) (event : Event) :
    closings (history ++ [event]) = closings history ++ event.closing.toList := by
  unfold closings
  rw [List.filterMap_append]
  cases hevent : event.closing with
  | none => rw [List.filterMap_cons_none hevent]; rfl
  | some runtime => rw [List.filterMap_cons_some hevent]; rfl

theorem records_finishLifecycle (S : Service) (call : Nat) (reservation : Option Reservation) :
    (S.finishLifecycle call reservation).records = S.records := by
  cases reservation with
  | none => rfl
  | some r => rfl

/-- A call ends. -/
theorem finish (h : Cared W) {reservation : Option Reservation}
    {result : Except Raised SandboxHandle}
    (hsettled : ∀ runtime, .returned call runtime ∈ W.history →
      .published call runtime ∈ W.history ∨ runtime ∈ closings W.history) :
    Cared (W.finish call reservation result) := by
  unfold World.finish
  constructor <;> simp only [mem_concat, published_concat, closings_concat, Event.publication,
    Event.closing, Option.toList_none, List.append_nil, reduceCtorEq, or_false,
    records_finishLifecycle]
  · exact h.fresh
  · exact h.origin
  · exact h.closedReturned
  · exact h.publishedReturned
  · exact h.publishedOnce
  · intro c pending runtime hc
    by_cases heq : c = call
    · rw [heq, Function.update_self] at hc
      exact nomatch hc
    · rw [Function.update_of_ne heq] at hc
      exact h.held c pending runtime hc
  · intro c runtime hc
    by_cases heq : c = call
    · rw [heq] at hc ⊢
      exact .inr (hsettled runtime hc)
    · rw [Function.update_of_ne heq]
      exact h.settled c runtime hc
  · exact h.deleted
  · exact h.records
  · exact h.runtimes
  · exact h.removed
  · exact h.closedOnce
  · exact h.ran
  · exact justified_concat.mpr ⟨h.justified, hsettled⟩

/-- A call is refused. -/
theorem refuse (h : Cared W) {result : Except Raised SandboxHandle} :
    Cared { W with
      nextCall := W.nextCall + 1
      history := W.history ++ [Event.ended W.nextCall result] } := by
  constructor <;> simp only [mem_concat, published_concat, closings_concat, Event.publication,
    Event.closing, Option.toList_none, List.append_nil, reduceCtorEq, or_false]
  · intro c runtime hc
    exact ⟨Nat.lt_succ_of_lt (h.fresh c runtime hc).1, (h.fresh c runtime hc).2⟩
  · exact h.origin
  · exact h.closedReturned
  · exact h.publishedReturned
  · exact h.publishedOnce
  · exact h.held
  · exact h.settled
  · exact h.deleted
  · exact h.records
  · exact h.runtimes
  · exact h.removed
  · exact h.closedOnce
  · exact h.ran
  · refine justified_concat.mpr ⟨h.justified, ?_⟩
    intro runtime hreturned
    exact absurd (h.fresh _ runtime hreturned).1 (lt_irrefl _)

/-- A call is suspended with the runtime it had. -/
theorem suspend (h : Cared W) (call : Nat) (pending : Pending)
    (hruntime : pending.runtime = (W.calls call).bind Pending.runtime)
    (hcloses : ∀ p, W.calls call = some p → pending.closes = p.closes) :
    Cared (W.suspend call pending) := by
  refine { h with held := ?_, settled := ?_ }
  · intro c p runtime hc hp
    change Function.update W.calls call (some pending) c = some p at hc
    by_cases heq : c = call
    · rw [heq, Function.update_self] at hc
      obtain rfl := Option.some.inj hc
      rw [hruntime] at hp
      obtain ⟨old, hold, hr⟩ := Option.bind_eq_some_iff.mp hp
      rw [heq, hcloses old hold]
      exact h.held call old runtime hold hr
    · rw [Function.update_of_ne heq] at hc
      exact h.held c p runtime hc hp
  · intro c runtime hc
    change (∃ p, Function.update W.calls call (some pending) c = some p ∧ _) ∨ _
    by_cases heq : c = call
    · rcases h.settled c runtime hc with ⟨old, hold, hr⟩ | hor
      · refine .inl ⟨pending, by rw [heq, Function.update_self], ?_⟩
        rw [hruntime, ← heq, hold]
        exact hr
      · exact .inr hor
    · rw [Function.update_of_ne heq]
      exact h.settled c runtime hc

/-- A call calls the `close` of its runtime. -/
theorem awaitClose (h : Cared W) {pending old : Pending} {runtime : Nat}
    (hcall : W.calls call = some old) (hold : old.runtime = some runtime)
    (hruntime : pending.runtime = some runtime) (hcloses : pending.closes = true) :
    Cared (W.awaitClose call pending runtime) := by
  obtain ⟨hreturned, hunpublished, -⟩ := h.held call old runtime hcall hold
  unfold World.awaitClose
  constructor <;> simp only [published_concat, closings_concat, Event.publication,
    Event.closing, Option.toList_none, Option.toList_some, List.append_nil, reduceCtorEq, or_false,
    List.mem_append, List.mem_singleton]
  · exact h.fresh
  · exact h.origin
  · intro r hr
    rcases hr with hr | rfl
    · exact h.closedReturned r hr
    · exact ⟨call, hreturned⟩
  · exact h.publishedReturned
  · exact h.publishedOnce
  · intro c p r hc hp
    by_cases heq : c = call
    · rw [heq, Function.update_self] at hc
      obtain rfl := Option.some.inj hc
      obtain rfl := Option.some.inj (hp.symm.trans hruntime)
      rw [heq]
      exact ⟨hreturned, hunpublished, fun _ => .inr rfl, fun _ => hcloses⟩
    · rw [Function.update_of_ne heq] at hc
      obtain ⟨hr, hp', hiff⟩ := h.held c p r hc hp
      refine ⟨hr, hp', hiff.trans ?_⟩
      -- another call has another runtime
      have hne : r ≠ runtime := fun hsame => heq (h.origin call c runtime hreturned (hsame ▸ hr))
      simp [hne]
  · intro c r hc
    by_cases heq : c = call
    · rcases h.settled c r hc with ⟨p, hp, hr⟩ | hpub | hclosed
      · rw [heq, hcall] at hp
        obtain rfl := Option.some.inj hp
        obtain rfl := Option.some.inj (hr.symm.trans hold)
        exact .inr (.inr (.inr rfl))
      · exact .inr (.inl hpub)
      · exact .inr (.inr (.inl hclosed))
    · rw [Function.update_of_ne heq]
      rcases h.settled c r hc with hp | hpub | hclosed
      · exact .inl hp
      · exact .inr (.inl hpub)
      · exact .inr (.inr (.inl hclosed))
  · exact h.deleted
  · exact h.records
  · exact h.runtimes
  · exact h.removed
  · intro r hr
    have hne : r ≠ runtime := fun heq => hunpublished (heq ▸ hr)
    rw [List.count_append, List.count_singleton, beq_false_of_ne hne.symm]
    exact h.closedOnce r hr
  · intro r failure hr
    have hne : r ≠ runtime := by
      intro heq
      refine hunpublished (heq ▸ h.deleted r ?_)
      rw [hr]
      exact nofun
    rw [Function.update_of_ne hne]
    exact h.ran r failure hr
  · exact justified_concat.mpr ⟨h.justified, trivial⟩

/-- The factory returns a runtime. -/
theorem factoryReturns (h : Cared W) {kind : Kind} {reservation : Reservation}
    (hcall : W.calls call = some (.creating kind reservation)) (hknown : call < W.nextCall) :
    Cared (W.factoryReturns call kind reservation) := by
  have hnew : ∀ c, .returned c W.nextRuntime ∉ W.history :=
    fun c hmem => absurd (h.fresh c _ hmem).2 (lt_irrefl _)
  unfold World.factoryReturns
  constructor <;> simp only [mem_concat, published_concat, closings_concat, Event.publication,
    Event.closing, Option.toList_none, List.append_nil, reduceCtorEq, or_false,
    Event.returned.injEq]
  · intro c r hr
    rcases hr with hr | ⟨rfl, rfl⟩
    · exact ⟨(h.fresh c r hr).1, Nat.lt_succ_of_lt (h.fresh c r hr).2⟩
    · exact ⟨hknown, Nat.lt_succ_self _⟩
  · intro c c' r hr hr'
    rcases hr with hr | ⟨rfl, rfl⟩
    · rcases hr' with hr' | ⟨-, rfl⟩
      · exact h.origin c c' r hr hr'
      · exact absurd hr (hnew c)
    · rcases hr' with hr' | ⟨rfl, -⟩
      · exact absurd hr' (hnew c')
      · rfl
  · intro r hr
    obtain ⟨c, hc⟩ := h.closedReturned r hr
    exact ⟨c, .inl hc⟩
  · intro c r hr
    exact .inl (h.publishedReturned c r hr)
  · exact h.publishedOnce
  · intro c p r hc hp
    by_cases heq : c = call
    · rw [heq, Function.update_self] at hc
      obtain rfl := Option.some.inj hc
      obtain rfl := Option.some.inj hp
      refine ⟨.inr ⟨heq, rfl⟩, ?_, ?_⟩
      · intro hmem
        obtain ⟨c', hc'⟩ := mem_published.mp hmem
        exact hnew c' (h.publishedReturned c' _ hc')
      · refine ⟨nofun, ?_⟩
        intro hmem
        obtain ⟨c', hc'⟩ := h.closedReturned _ hmem
        exact absurd hc' (hnew c')
    · rw [Function.update_of_ne heq] at hc
      obtain ⟨hr, hrest⟩ := h.held c p r hc hp
      exact ⟨.inl hr, hrest⟩
  · intro c r hr
    rcases hr with hr | ⟨rfl, rfl⟩
    · rcases h.settled c r hr with ⟨p, hp, hpr⟩ | hor
      · refine .inl ⟨p, ?_, hpr⟩
        have hne : c ≠ call := by
          intro heq
          rw [heq, hcall] at hp
          obtain rfl := Option.some.inj hp
          exact nomatch hpr
        rw [Function.update_of_ne hne]
        exact hp
      · exact .inr hor
    · exact .inl ⟨_, by rw [Function.update_self], rfl⟩
  · exact h.deleted
  · exact h.records
  · exact h.runtimes
  · exact h.removed
  · exact h.closedOnce
  · exact h.ran
  · exact justified_concat.mpr ⟨h.justified, trivial⟩

/-- The runtime of a call is published, and the call ends. -/
theorem publish (h : Cared W) {kind : Kind} {reservation : Reservation} {runtime : Nat}
    (hcall : W.calls call = some (.starting kind reservation runtime))
    (hhandle : reservation.handle ∉ Dict.keys W.service.records) {service : Service}
    (hservice : service.records =
      Dict.set reservation.handle ⟨reservation.sessionId, runtime, .active⟩ W.service.records)
    (result : Except Raised SandboxHandle) :
    Cared (World.finish
      { W with service, history := W.history ++ [Event.published call runtime] } call
      (some reservation) result) := by
  obtain ⟨hreturned, hunpublished, hcloses⟩ := h.held call _ runtime hcall rfl
  have hunclosed : runtime ∉ closings W.history := fun hmem => nomatch hcloses.mpr hmem
  have hundeleted : W.deletions runtime = .none := by
    by_contra hne
    exact hunpublished (h.deleted runtime hne)
  have hmem : ∀ entry, entry ∈ service.records ↔ entry ∈ W.service.records ∨
      entry = (reservation.handle, ⟨reservation.sessionId, runtime, .active⟩) := by
    intro entry
    rw [hservice, Dict.set_of_not_mem hhandle, List.mem_append, List.mem_singleton]
  unfold World.finish
  constructor <;> simp only [mem_concat, published_concat, closings_concat, Event.publication,
    Event.closing, Option.toList_none, Option.toList_some, List.append_nil, reduceCtorEq,
    or_false, Event.published.injEq, records_finishLifecycle, hmem]
  · exact h.fresh
  · exact h.origin
  · exact h.closedReturned
  · intro c r hr
    rcases hr with hr | ⟨rfl, rfl⟩
    · exact h.publishedReturned c r hr
    · exact hreturned
  · refine List.nodup_append.mpr ⟨h.publishedOnce, List.nodup_singleton _, ?_⟩
    intro r hr r' hr' heq
    rw [List.mem_singleton.mp hr'] at heq
    exact hunpublished (heq ▸ hr)
  · intro c p r hc hp
    by_cases heq : c = call
    · rw [heq, Function.update_self] at hc
      exact nomatch hc
    · rw [Function.update_of_ne heq] at hc
      obtain ⟨hr, hp', hiff⟩ := h.held c p r hc hp
      refine ⟨hr, ?_, hiff⟩
      rw [List.mem_append, List.mem_singleton]
      intro hor
      rcases hor with hor | rfl
      · exact hp' hor
      · exact heq (h.origin call c _ hreturned hr)
  · intro c r hc
    by_cases heq : c = call
    · rcases h.settled c r hc with ⟨p, hp, hr⟩ | hpub | hclosed
      · rw [heq, hcall] at hp
        obtain rfl := Option.some.inj hp
        exact .inr (.inl (.inr ⟨heq, (Option.some.inj hr).symm⟩))
      · exact .inr (.inl (.inl hpub))
      · exact .inr (.inr hclosed)
    · rw [Function.update_of_ne heq]
      rcases h.settled c r hc with hp | hpub | hclosed
      · exact .inl hp
      · exact .inr (.inl (.inl hpub))
      · exact .inr (.inr hclosed)
  · intro r hr
    exact List.mem_append_left _ (h.deleted r hr)
  · intro entry hentry
    rcases hentry with hentry | rfl
    · exact ⟨List.mem_append_left _ (h.records entry hentry).1, (h.records entry hentry).2⟩
    · refine ⟨List.mem_append_right _ (List.mem_singleton.mpr rfl), ?_⟩
      show Agrees _ (W.deletions runtime)
      rw [hundeleted]
      rfl
  · intro entry hentry entry' hentry' heq
    rcases hentry with hentry | rfl
    · rcases hentry' with hentry' | rfl
      · exact h.runtimes entry hentry entry' hentry' heq
      · refine absurd ?_ hunpublished
        rw [show runtime = entry.2.runtime from heq]
        exact (h.records entry hentry).1
    · rcases hentry' with hentry' | rfl
      · refine absurd ?_ hunpublished
        rw [show runtime = entry'.2.runtime from heq.symm]
        exact (h.records entry' hentry').1
      · rfl
  · intro r hr
    rcases List.mem_append.mp hr with hr | hr
    · rcases h.removed r hr with ⟨entry, hentry, hruntime⟩ | hdone
      · exact .inl ⟨entry, .inl hentry, hruntime⟩
      · exact .inr hdone
    · exact .inl ⟨_, .inr rfl, (List.mem_singleton.mp hr).symm⟩
  · intro r hr
    rcases List.mem_append.mp hr with hr | hr
    · exact h.closedOnce r hr
    · rw [List.mem_singleton.mp hr, hundeleted]
      exact List.count_eq_zero.mpr hunclosed
  · exact h.ran
  · refine justified_concat.mpr ⟨justified_concat.mpr ⟨h.justified, trivial⟩, ?_⟩
    intro r hr
    rw [mem_concat] at hr
    rcases hr with hr | hr
    · rcases h.settled call r hr with ⟨p, hp, hpr⟩ | hpub | hclosed
      · rw [hcall] at hp
        obtain rfl := Option.some.inj hp
        obtain rfl := Option.some.inj hpr
        exact .inl (mem_concat.mpr (.inr rfl))
      · exact .inl (mem_concat.mpr (.inl hpub))
      · right
        rw [closings_concat]
        exact List.mem_append_left _ hclosed
    · exact nomatch hr

/-- A deletion task is started for a record. -/
theorem startDeletion (h : Cared W) (hkeys : Dict.UniqueKeys W.service.records)
    {handle : SandboxHandle} {record : SessionRecord}
    (hrecord : (handle, record) ∈ W.service.records) : Cared (W.startDeletion handle record) := by
  unfold World.startDeletion
  split
  case h_2 => exact h
  case h_1 hnone =>
    have hpublished : record.runtime ∈ published W.history := (h.records _ hrecord).1
    have hmem : ∀ entry, entry ∈ (W.service.markDeleting handle record).records ↔
        entry = (handle, { record with status := .deleting }) ∨
          (entry ∈ W.service.records ∧ entry.1 ≠ handle) := fun entry => Dict.mem_set_iff hkeys
    -- the other records have other runtimes
    have hother : ∀ entry ∈ W.service.records, entry.1 ≠ handle →
        entry.2.runtime ≠ record.runtime := by
      intro entry hentry hne heq
      exact hne (h.runtimes _ hrecord entry hentry heq)
    refine { h with deleted := ?_, records := ?_, runtimes := ?_, removed := ?_, closedOnce := ?_,
                    ran := ?_ }
    · intro runtime hdeletion
      by_cases heq : runtime = record.runtime
      · rw [heq]
        exact hpublished
      · exact h.deleted runtime (fun hold => hdeletion ((Function.update_of_ne heq _ _).trans hold))
    · intro entry hentry
      rcases (hmem entry).mp hentry with rfl | ⟨hold, hne⟩
      · refine ⟨hpublished, ?_⟩
        show Agrees _ (Function.update W.deletions record.runtime _ record.runtime)
        rw [Function.update_self]
        exact ⟨rfl, rfl⟩
      · refine ⟨(h.records entry hold).1, ?_⟩
        show Agrees _ (Function.update W.deletions record.runtime _ entry.2.runtime)
        rw [Function.update_of_ne (hother entry hold hne)]
        exact (h.records entry hold).2
    · intro entry hentry entry' hentry' heq
      rcases (hmem entry).mp hentry with rfl | ⟨hold, hne⟩
      · rcases (hmem entry').mp hentry' with rfl | ⟨hold', hne'⟩
        · rfl
        · exact absurd heq (hother entry' hold' hne')
      · rcases (hmem entry').mp hentry' with rfl | ⟨hold', hne'⟩
        · exact absurd heq.symm (hother entry hold hne)
        · exact h.runtimes entry hold entry' hold' heq
    · intro runtime hruntime
      by_cases heq : runtime = record.runtime
      · exact .inl ⟨_, (hmem _).mpr (.inl rfl), heq.symm⟩
      · rcases h.removed runtime hruntime with ⟨entry, hentry, hr⟩ | ⟨failure, hdone⟩
        · refine .inl ⟨entry, (hmem entry).mpr (.inr ⟨hentry, ?_⟩), hr⟩
          intro hkey
          have hget := Dict.get?_of_mem hkeys hrecord
          rw [← hkey, Dict.get?_of_mem hkeys (v := entry.2) hentry] at hget
          exact heq (hr.symm.trans (congrArg SessionRecord.runtime (Option.some.inj hget)))
        · exact .inr ⟨failure, (Function.update_of_ne heq _ _).trans hdone⟩
    · intro runtime hruntime
      show _ = (Function.update W.deletions record.runtime _ runtime).calls
      rw [h.closedOnce runtime hruntime]
      by_cases heq : runtime = record.runtime
      · rw [heq, Function.update_self, hnone]
        rfl
      · rw [Function.update_of_ne heq]
    · intro runtime failure hdone
      change Function.update W.deletions record.runtime _ runtime = _ at hdone
      by_cases heq : runtime = record.runtime
      · rw [heq, Function.update_self] at hdone
        exact nomatch hdone
      · rw [Function.update_of_ne heq] at hdone
        exact h.ran runtime failure hdone

/-- A started deletion task calls the `close` of its runtime. -/
theorem deletionStart (h : Cared W) {runtime : Nat} {identifiers : Reservation}
    (hdeletion : W.deletions runtime = .created identifiers) :
    Cared (W.deletionStart runtime identifiers) := by
  have hpublished : runtime ∈ published W.history := by
    refine h.deleted runtime ?_
    rw [hdeletion]
    exact nofun
  obtain ⟨call, hcall⟩ := mem_published.mp hpublished
  have hreturned := h.publishedReturned call runtime hcall
  unfold World.deletionStart
  constructor <;> simp only [published_concat, closings_concat, Event.publication,
    Event.closing, Option.toList_none, Option.toList_some, List.append_nil, reduceCtorEq, or_false,
    List.mem_append, List.mem_singleton]
  · exact h.fresh
  · exact h.origin
  · intro r hr
    rcases hr with hr | rfl
    · exact h.closedReturned r hr
    · exact ⟨call, hreturned⟩
  · exact h.publishedReturned
  · exact h.publishedOnce
  · intro c p r hc hp
    obtain ⟨hr, hp', hiff⟩ := h.held c p r hc hp
    have hne : r ≠ runtime := fun heq => hp' (heq ▸ hpublished)
    exact ⟨hr, hp', hiff.trans (by simp [hne])⟩
  · intro c r hc
    rcases h.settled c r hc with hp | hpub | hclosed
    · exact .inl hp
    · exact .inr (.inl hpub)
    · exact .inr (.inr (.inl hclosed))
  · intro r hr
    by_cases heq : r = runtime
    · rw [heq]
      exact hpublished
    · rw [Function.update_of_ne heq] at hr
      exact h.deleted r hr
  · intro entry hentry
    obtain ⟨hpub, hagrees⟩ := h.records entry hentry
    refine ⟨hpub, ?_⟩
    by_cases heq : entry.2.runtime = runtime
    · rw [heq, hdeletion] at hagrees
      rw [heq, Function.update_self]
      exact hagrees
    · rw [Function.update_of_ne heq]
      exact hagrees
  · exact h.runtimes
  · intro r hr
    rcases h.removed r hr with hentry | ⟨failure, hdone⟩
    · exact .inl hentry
    · have hne : r ≠ runtime := by
        intro heq
        rw [heq, hdeletion] at hdone
        exact nomatch hdone
      exact .inr ⟨failure, by rw [Function.update_of_ne hne, hdone]⟩
  · intro r hr
    rw [List.count_append, h.closedOnce r hr, List.count_singleton]
    by_cases heq : r = runtime
    · rw [heq, Function.update_self, hdeletion, beq_self_eq_true]
      rfl
    · rw [Function.update_of_ne heq, beq_false_of_ne (Ne.symm heq)]
      rfl
  · intro r failure hr
    have hne : r ≠ runtime := by
      intro heq
      rw [heq, Function.update_self] at hr
      exact nomatch hr
    rw [Function.update_of_ne hne] at hr ⊢
    exact h.ran r failure hr
  · exact justified_concat.mpr ⟨h.justified, trivial⟩

/-- A deletion task ends, and its record is gone. -/
theorem deletionEnd (h : Cared W) (hkeys : Dict.UniqueKeys W.service.records) {runtime : Nat}
    {handle : SandboxHandle} {record : SessionRecord} {service : Service}
    (hrecord : (handle, record) ∈ W.service.records) (hruntime : record.runtime = runtime)
    (hservice : service.records = Dict.erase handle W.service.records)
    {result failure : Option Raised} (hran : (W.runtimes runtime).close = .done result)
    (hcalls : (W.deletions runtime).calls = 1) :
    Cared { W with
      service
      deletions := Function.update W.deletions runtime (.done failure) } := by
  have hmem : ∀ entry, entry ∈ service.records ↔ entry ∈ W.service.records ∧ entry.1 ≠ handle := by
    intro entry
    rw [hservice]
    exact Dict.mem_erase_iff hkeys
  have hpublished := (h.records _ hrecord).1
  rw [show (handle, record).2.runtime = runtime from hruntime] at hpublished
  have hother : ∀ entry ∈ W.service.records, entry.1 ≠ handle → entry.2.runtime ≠ runtime := by
    intro entry hentry hne heq
    exact hne (h.runtimes _ hrecord entry hentry (heq.trans hruntime.symm))
  refine { h with deleted := ?_, records := ?_, runtimes := ?_, removed := ?_, closedOnce := ?_,
                  ran := ?_ }
  · intro r hdeletion
    by_cases heq : r = runtime
    · rw [heq]
      exact hpublished
    · exact h.deleted r (fun hold => hdeletion ((Function.update_of_ne heq _ _).trans hold))
  · intro entry hentry
    obtain ⟨hold, hne⟩ := (hmem entry).mp hentry
    refine ⟨(h.records entry hold).1, ?_⟩
    show Agrees _ (Function.update W.deletions runtime _ entry.2.runtime)
    rw [Function.update_of_ne (hother entry hold hne)]
    exact (h.records entry hold).2
  · intro entry hentry entry' hentry'
    exact h.runtimes entry ((hmem entry).mp hentry).1 entry' ((hmem entry').mp hentry').1
  · intro r hr
    by_cases heq : r = runtime
    · exact .inr ⟨failure, by rw [heq]; exact Function.update_self ..⟩
    · rcases h.removed r hr with ⟨entry, hentry, hentryRuntime⟩ | ⟨f, hdone⟩
      · refine .inl ⟨entry, (hmem entry).mpr ⟨hentry, ?_⟩, hentryRuntime⟩
        intro hkey
        have hget := Dict.get?_of_mem hkeys hrecord
        rw [← hkey, Dict.get?_of_mem hkeys (v := entry.2) hentry] at hget
        have hsame := congrArg SessionRecord.runtime (Option.some.inj hget)
        exact heq (hentryRuntime.symm.trans (hsame.trans hruntime))
      · exact .inr ⟨f, (Function.update_of_ne heq _ _).trans hdone⟩
  · intro r hr
    show _ = (Function.update W.deletions runtime _ r).calls
    rw [h.closedOnce r hr]
    by_cases heq : r = runtime
    · rw [heq, Function.update_self]
      exact hcalls
    · rw [Function.update_of_ne heq]
  · intro r f hdone
    change Function.update W.deletions runtime _ r = _ at hdone
    by_cases heq : r = runtime
    · rw [heq]
      exact ⟨result, hran⟩
    · rw [Function.update_of_ne heq] at hdone
      exact h.ran r f hdone

end Cared

end Lifecycle
