import MemSandbox.Core.Clock
import MemSandbox.Core.Identifiers
import MemSandbox.Lib.Dict

/-! # The sandbox service

    `service/service.py`: the records of the published sandboxes, and the
    identifiers reserved by the `create` and `resume` calls in progress.

    The functions of this module are the parts of the service that run under
    its lock.  None of them is suspended, so the lock is free whenever it is
    asked for, and asking for it does not suspend either. -/

open Python

/-! ## Section 1: Identifiers -/

/-- `SandboxHandle`: a UUID other than the nil one. -/
structure SandboxHandle where
  value : Nat
  ne_nil : value ≠ 0

instance : DecidableEq SandboxHandle := fun a b =>
  decidable_of_iff (a.value = b.value) ⟨fun h => by cases a; cases b; simp_all, congrArg _⟩

/-- The identifiers of a sandbox that is being made. -/
structure Reservation where
  handle : SandboxHandle
  sessionId : SessionId
  deriving DecidableEq

/-- What `uuid_generator.new_uuid()` does. -/
inductive GeneratedUuid where
  | raised (e : Raised)
  | notUuid
  | uuid (value : Nat)

namespace GeneratedUuid

/-- The generated value, when an identifier's constructor accepts it. -/
def check (nilMessage typeMessage : Text) :
    GeneratedUuid → Except Raised { value : Nat // value ≠ 0 }
  | .raised e => .error e
  | .notUuid => .error (.of .typeError typeMessage)
  | .uuid value =>
    if h : value ≠ 0 then .ok ⟨value, h⟩ else .error (.of .valueError nilMessage)

/-- `SandboxHandle(new_uuid())`. -/
def handle (generated : GeneratedUuid) : Except Raised SandboxHandle := do
  let value ← generated.check (py "sandbox handle value must not be the nil UUID")
    (py "sandbox handle value must be a UUID")
  return ⟨value.1, value.2⟩

/-- `SessionId(new_uuid())`. -/
def sessionId (generated : GeneratedUuid) : Except Raised SessionId := do
  let value ← generated.check (py "identifier value must not be the nil UUID")
    (py "identifier value must be a UUID")
  return ⟨value.1, value.2⟩

end GeneratedUuid

/-- Both identifiers, with the `except (TypeError, ValueError)` around them. -/
def newReservation (first second : GeneratedUuid) : Except Raised Reservation :=
  match (do return ⟨← first.handle, ← second.sessionId⟩ : Except Raised Reservation) with
  | .ok reservation => .ok reservation
  | .error (.error e) =>
    if e.cls.isTypeError || e.cls.isValueError then
      .error (.of .sandboxIdentifierConflict (py "generated sandbox identity is invalid"))
    else
      .error (.error e)
  | .error e => .error e

/-! ## Section 2: The service -/

/-- `_ServiceState`. -/
inductive ServiceState where
  | opened
  | closing
  | closed
  deriving DecidableEq

/-- `_RecordStatus`. -/
inductive RecordStatus where
  | active
  | deleting
  deriving DecidableEq

/-- What the service reads of a `_SessionRecord`; the runtime is the number of
    the one that the factory returned. -/
structure SessionRecord where
  sessionId : SessionId
  runtime : Nat
  status : RecordStatus

/-- The fields of an `InMemorySandboxService` that change under its lock.  An
    operation in progress is the number of its call. -/
structure Service where
  state : ServiceState
  records : List (SandboxHandle × SessionRecord)
  reservedHandles : List SandboxHandle
  reservedSessionIds : List SessionId
  pendingOperations : List Nat

/-- `set.discard`. -/
def setDiscard {α : Type} [DecidableEq α] (x : α) (s : List α) : List α := s.filter fun y => y ≠ x

@[simp] theorem mem_setDiscard {α : Type} [DecidableEq α] {x y : α} {s : List α} :
    y ∈ setDiscard x s ↔ y ∈ s ∧ y ≠ x := by
  simp [setDiscard]

theorem setDiscard_of_not_mem {α : Type} [DecidableEq α] {x : α} {s : List α} (h : x ∉ s) :
    setDiscard x s = s := by
  refine List.filter_eq_self.mpr ?_
  intro y hy
  exact decide_eq_true fun heq => h (heq ▸ hy)

namespace Service

/-- A new service. -/
def new : Service := ⟨.opened, [], [], [], []⟩

/-- `_require_open`. -/
def requireOpen (S : Service) : Except Raised Unit :=
  if S.state = .opened then .ok ()
  else .error (.of .sandboxServiceClosed (py "sandbox service is closed"))

/-- `_begin_lifecycle`. -/
def beginLifecycle (operation : Nat) (S : Service) : Except Raised Service := do
  S.requireOpen
  return { S with pendingOperations := operation :: S.pendingOperations }

/-- The reservations are given back. -/
def release (reservation : Reservation) (S : Service) : Service :=
  { S with
    reservedHandles := setDiscard reservation.handle S.reservedHandles
    reservedSessionIds := setDiscard reservation.sessionId S.reservedSessionIds }

/-- `_finish_lifecycle`. -/
def finishLifecycle (operation : Nat) (reservation : Option Reservation) (S : Service) : Service :=
  let S := { S with pendingOperations := setDiscard operation S.pendingOperations }
  match reservation with
  | some reservation => S.release reservation
  | none => S

/-- `_reserve_identifiers`. -/
def reserveIdentifiers (first second : GeneratedUuid) (S : Service) :
    Except Raised (Reservation × Service) := do
  let reservation ← newReservation first second
  S.requireOpen
  if reservation.handle ∈ S.reservedHandles ∨ reservation.handle ∈ Dict.keys S.records then
    .error (.of .sandboxIdentifierConflict
      (py "sandbox handle " ++ uuidText reservation.handle.value ++ py " already exists"))
  else if reservation.sessionId ∈ S.reservedSessionIds ∨
      ∃ entry ∈ S.records, entry.2.sessionId = reservation.sessionId then
    .error (.of .sandboxIdentifierConflict
      (py "session identifier " ++ uuidText reservation.sessionId.value ++ py " already exists"))
  else
    return (reservation, { S with
      reservedHandles := reservation.handle :: S.reservedHandles
      reservedSessionIds := reservation.sessionId :: S.reservedSessionIds })

/-- `_utc_now`, with the exception of an object that has no offset. -/
def utcNow : ClockReading → Except Raised Int
  | .raised e => .error e
  | .offsetRaised e => .error e
  | .notDatetime => .error (.of (.foreign none) (py "object has no attribute 'tzinfo'"))
  | .naive =>
    .error (.of .sandboxStartupFailed (py "service clock must return an aware datetime"))
  | .offset => .error (.of .sandboxStartupFailed (py "service clock must return UTC"))
  | .utc instant => .ok instant

/-- `_publish`. -/
def publish (reservation : Reservation) (runtime : Nat) (reading : ClockReading) (S : Service) :
    Except Raised Service := do
  let _ ← utcNow reading
  S.requireOpen
  return Service.release reservation
    { S with records :=
        Dict.set reservation.handle ⟨reservation.sessionId, runtime, .active⟩ S.records }

/-- The status that `_start_deletion_locked` sets. -/
def markDeleting (handle : SandboxHandle) (record : SessionRecord) (S : Service) : Service :=
  { S with records := Dict.set handle { record with status := .deleting } S.records }

/-- The `finally` of `_delete_record`; the record is known by its runtime. -/
def dropRecord (reservation : Reservation) (runtime : Nat) (S : Service) : Service :=
  Service.release reservation
    (match Dict.get? reservation.handle S.records with
    | some found =>
      if found.runtime = runtime then
        { S with records := Dict.erase reservation.handle S.records }
      else S
    | none => S)

/-- The second part of `_close_once`. -/
def markClosed (S : Service) : Service :=
  { S with state := .closed, reservedHandles := [], reservedSessionIds := [] }

end Service
