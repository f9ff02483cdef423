import MemSandbox.Core.Clock
import MemSandbox.Core.Identifiers
import MemSandbox.Lib.Dict
import MemSandbox.Lib.Sorted
import MemSandbox.Snapshots.Codec

/-! # The snapshot store

    `snapshots/store.py`: finitely many immutable snapshots in memory, each
    with an absolute expiry.  Expired snapshots are dropped lazily, by the
    next operation that looks at the clock.

    Every operation runs under the store's lock and none is suspended inside
    it, so an operation is one step. -/

open Python

/-! ## Section 1: Models -/

/-- `SnapshotRef`. -/
structure SnapshotRef where
  snapshotId : SnapshotId
  deriving DecidableEq

/-- `SandboxSnapshotDraft`: what the codecs read, and who made it when. -/
structure SandboxSnapshotDraft extends SandboxSnapshot where
  snapshotId : SnapshotId
  createdAt : Int
  sourceSessionId : SessionId
  createdBy : Option Text
  processLocal : Bool

/-- A whole `SandboxSnapshot`, with its expiry. -/
structure StoredSnapshot extends SandboxSnapshotDraft where
  expiresAt : Int

/-- The snapshot that a draft is stored as. -/
def SandboxSnapshotDraft.stored (draft : SandboxSnapshotDraft) (expiresAt : Int) : StoredSnapshot :=
  ⟨{ draft with processLocal := true }, expiresAt⟩

/-- `SnapshotStoreLimits`. -/
structure SnapshotStoreLimits where
  maxSnapshots : Nat
  maxTotalPayloadBytes : Nat
  snapshots_pos : 0 < maxSnapshots
  payload_pos : 0 < maxTotalPayloadBytes

/-- `SnapshotStoreStats`. -/
structure SnapshotStoreStats where
  snapshotCount : Nat
  payloadBytes : Int

/-- `SnapshotPurgeResult`. -/
structure SnapshotPurgeResult where
  removedRefs : List SnapshotRef
  removedPayloadBytes : Nat

/-- `datetime.max`, in microseconds from the start of year 1. -/
def datetimeMax : Int := 3652059 * 86400 * 1000000 - 1

/-- `now + ttl`, or `none` for the `OverflowError`. -/
def addTimedelta (now ttl : Int) : Option Int :=
  if now + ttl ≤ datetimeMax then some (now + ttl) else none

/-- `InMemorySnapshotStore`.  The time to live is in microseconds. -/
structure InMemorySnapshotStore where
  defaultTtl : Int
  limits : SnapshotStoreLimits
  snapshots : List (SnapshotRef × StoredSnapshot)
  payloadBytes : Int
  ttl_pos : 0 < defaultTtl

/-! ## Section 2: Operations -/

namespace InMemorySnapshotStore

/-- `__init__`. -/
def new (defaultTtl : Int) (limits : SnapshotStoreLimits) (ttl_pos : 0 < defaultTtl) :
    InMemorySnapshotStore :=
  ⟨defaultTtl, limits, [], 0, ttl_pos⟩

/-- `_now`. -/
def now (errorType : ErrorClass) : ClockReading → Except Raised Int
  | .raised e => .error e
  | .offsetRaised e => .error e
  | .notDatetime => .error (.of (.foreign none) (py "object has no attribute 'tzinfo'"))
  | .naive =>
    .error (.of errorType (py "snapshot store clock must return an aware datetime"))
  | .offset => .error (.of errorType (py "snapshot store clock must return UTC"))
  | .utc instant => .ok instant

/-- `_remove_locked`. -/
def remove (ref : SnapshotRef) (S : InMemorySnapshotStore) : InMemorySnapshotStore :=
  match Dict.get? ref S.snapshots with
  | some snapshot => { S with
      snapshots := Dict.erase ref S.snapshots
      payloadBytes := S.payloadBytes - snapshot.payload.length }
  | none => S

/-- The entries that `_purge_expired_locked` removes. -/
def expired (now : Int) (S : InMemorySnapshotStore) : List (SnapshotRef × StoredSnapshot) :=
  S.snapshots.filter fun entry => entry.2.expiresAt ≤ now

/-- `_purge_expired_locked`. -/
def purge (now : Int) (S : InMemorySnapshotStore) : InMemorySnapshotStore :=
  (S.expired now).foldl (fun S entry => S.remove entry.1) S

/-- The message about a reference that the store does not hold. -/
def missing (ref : SnapshotRef) : Raised :=
  .of .snapshotNotFound (py "snapshot " ++ uuidText ref.snapshotId.value ++ py " does not exist")

/-- `save`, from the reading of the clock on. -/
def accept (draft : SandboxSnapshotDraft) (now : Int) (S : InMemorySnapshotStore) :
    Except Raised InMemorySnapshotStore :=
  let ref : SnapshotRef := ⟨draft.snapshotId⟩
  if ref ∈ Dict.keys S.snapshots then
    .error (.of .snapshotIdentifierConflict
      (py "snapshot identifier " ++ uuidText draft.snapshotId.value ++ py " already exists"))
  else if S.snapshots.length + 1 > S.limits.maxSnapshots ∨
      S.payloadBytes + draft.payload.length > S.limits.maxTotalPayloadBytes then
    .error (.of .snapshotStoreFull
      (py "accepting the snapshot would exceed the configured store limits"))
  else match addTimedelta now S.defaultTtl with
    | none =>
      .error (.of .snapshotSaveFailed
        (py "snapshot expiration exceeds the supported datetime range"))
    | some expiresAt => .ok { S with
        snapshots := Dict.set ref (draft.stored expiresAt) S.snapshots
        payloadBytes := S.payloadBytes + draft.payload.length }

/-- `save`. -/
def save (draft : SandboxSnapshotDraft) (reading : ClockReading) :
    Call InMemorySnapshotStore Raised SnapshotRef := fun S =>
  match now .snapshotSaveFailed reading with
  | .error e => (.error e, S)
  | .ok instant =>
    let S := S.purge instant
    match S.accept draft instant with
    | .error e => (.error e, S)
    | .ok S => (.ok ⟨draft.snapshotId⟩, S)

/-- `load`. -/
def load (ref : SnapshotRef) (reading : ClockReading) :
    Call InMemorySnapshotStore Raised StoredSnapshot := fun S =>
  match now .snapshotLoadFailed reading with
  | .error e => (.error e, S)
  | .ok instant =>
    match Dict.get? ref S.snapshots with
    | none => (.error (missing ref), S)
    | some snapshot =>
      if snapshot.expiresAt ≤ instant then (.error (missing ref), S.remove ref)
      else (.ok snapshot, S)

/-- `delete`. -/
def delete (ref : SnapshotRef) : Call InMemorySnapshotStore Raised Unit := fun S =>
  (.ok (), S.remove ref)

/-- `purge_expired`. -/
def purgeExpired (reading : ClockReading) :
    Call InMemorySnapshotStore Raised SnapshotPurgeResult := fun S =>
  match now .snapshotLoadFailed reading with
  | .error e => (.error e, S)
  | .ok instant =>
    let removed := S.expired instant
    (.ok ⟨sorted (fun ref => uuidText ref.snapshotId.value) (removed.map Prod.fst),
      (removed.map fun entry => entry.2.payload.length).sum⟩, S.purge instant)

/-- `stats`. -/
def stats (reading : ClockReading) : Call InMemorySnapshotStore Raised SnapshotStoreStats :=
  fun S =>
    match now .snapshotLoadFailed reading with
    | .error e => (.error e, S)
    | .ok instant =>
      let S := S.purge instant
      (.ok ⟨S.snapshots.length, S.payloadBytes⟩, S)

end InMemorySnapshotStore
