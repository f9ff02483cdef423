import MemSandbox.Core.Clock
import MemSandbox.Lib.Dict
import MemSandbox.Lib.Effect
import MemSandbox.Lib.System

/-! # The secret broker

    `secrets/broker.py`: a broker that keeps one record for each lease it has
    admitted, and the leases that it hands out.

    `lease` is suspended once, in `source.resolve`.  What it does before is
    `reserve`, what it does afterwards is `settle`; the code under the broker's
    lock and that under a lease's lock is never suspended, so the locks are
    free whenever they are asked for and asking does not suspend either.

    An instant is a number of microseconds, a duration a rational number of
    seconds. -/

open Python

/-! ## Section 1: Requests and limits -/

/-- What the broker reads of a request. -/
structure SecretAccessRequest where
  secretName : Text
  maxLeaseSeconds : ℚ
  positive : 0 < maxLeaseSeconds

/-- `SecretBrokerLimits`. -/
structure SecretBrokerLimits where
  maxActiveLeases : Nat
  maxLeaseSeconds : ℚ
  maxValueBytes : Nat
  active_pos : 0 < maxActiveLeases
  seconds_pos : 0 < maxLeaseSeconds
  bytes_pos : 0 < maxValueBytes

/-- How `source.resolve` ends. -/
inductive SourceResolution where
  | raised (e : Raised)
  | value (text : Text)
  | notValue

/-! ## Section 2: The broker -/

/-- The fields of a `BoundedSecretBroker` that change, and its limits. -/
structure BoundedSecretBroker where
  limits : SecretBrokerLimits
  records : List (Nat × Int)
  nextToken : Nat

/-- `_BoundedSecretLease`; its token is what its release releases. -/
structure BoundedSecretLease where
  value : Text
  expiresAt : Int
  token : Nat
  closed : Bool

namespace BoundedSecretBroker

/-- `BoundedSecretBroker(source, limits=limits, clock=clock)`. -/
def new (limits : SecretBrokerLimits) : BoundedSecretBroker := ⟨limits, [], 1⟩

/-- `_now`. -/
def now : ClockReading → Except Raised Int
  | .raised (.error _) =>
    .error (.of .secretSourceUnavailable (py "secret broker clock is unavailable"))
  | .raised e => .error e
  | .notDatetime =>
    .error (.of .secretSourceUnavailable (py "secret broker clock must return a datetime"))
  | .offsetRaised (.error _) =>
    .error (.of .secretSourceUnavailable (py "secret broker clock returned an invalid datetime"))
  | .offsetRaised e => .error e
  | .naive =>
    .error (.of .secretSourceUnavailable (py "secret broker clock must return an aware datetime"))
  | .offset => .error (.of .secretSourceUnavailable (py "secret broker clock must return UTC"))
  | .utc instant => .ok instant

/-- The tokens of the records that have expired. -/
def expired (now : Int) (records : List (Nat × Int)) : List Nat :=
  (records.filter fun record => record.2 ≤ now).map Prod.fst

/-- `_purge_expired_locked`. -/
def purgeExpired (now : Int) (records : List (Nat × Int)) : List (Nat × Int) :=
  (expired now records).foldl (fun records token => Dict.erase token records) records

/-- `_release`. -/
def release (token : Nat) : Call BoundedSecretBroker Raised Unit :=
  modify fun broker => { broker with records := Dict.erase token broker.records }

/-- The first part of `lease`, under the lock: the token and the expiry of the
    record. -/
def reserve [DateTimes] (request : SecretAccessRequest) (reading : ClockReading) :
    Call BoundedSecretBroker Raised (Nat × Int) := do
  let acceptedAt ← liftM (now reading)
  modify fun broker => { broker with records := purgeExpired acceptedAt broker.records }
  let broker ← get
  if broker.records.length ≥ broker.limits.maxActiveLeases then
    throw (.of .secretLeaseLimitExceeded
      (py "accepting the secret lease would exceed the configured active-lease limit"))
  else
    let duration := min request.maxLeaseSeconds broker.limits.maxLeaseSeconds
    match DateTimes.addSeconds acceptedAt duration with
    | none =>
      throw (.of .secretSourceUnavailable
        (py "secret lease expiration exceeds the supported datetime range"))
    | some expiresAt =>
      let token := broker.nextToken
      set { broker with
        nextToken := token + 1
        records := Dict.set token expiresAt broker.records }
      return (token, expiresAt)

/-- `_resolve`: the value and the failure. -/
def resolve (request : SecretAccessRequest) :
    SourceResolution → Except Raised (Option Text × Option Raised)
  | .raised (.error e) =>
    match e.cls with
    | .secretNotFound =>
      .ok (none, some (.of .secretNotFound
        (py "secret reference " ++ request.secretName ++ py " does not exist")))
    | .secretSourceValueInvalid =>
      .ok (none, some (.of .secretSourceValueInvalid
        (py "secret source value for reference " ++ request.secretName ++ py " is invalid")))
    | _ =>
      .ok (none, some (.of .secretSourceUnavailable
        (py "secret source is unavailable for reference " ++ request.secretName)))
  | .raised e => .error e
  | .notValue =>
    .ok (none, some (.of .secretSourceValueInvalid
      (py "secret source returned an invalid value for reference " ++ request.secretName)))
  | .value text => .ok (some text, none)

/-- The body of the `try` of `lease`, behind the suspension. -/
def checkedLease (limits : SecretBrokerLimits) (request : SecretAccessRequest) (token : Nat)
    (expiresAt : Int) (resolution : SourceResolution) : Except Raised BoundedSecretLease := do
  let (value, failure) ← resolve request resolution
  match failure with
  | some e => .error e
  | none =>
    match value with
    | none =>
      .error (.of .secretSourceUnavailable
        (py "secret source returned no value for reference " ++ request.secretName))
    | some value =>
      match encodeUtf8 value with
      | none =>
        .error (.of .secretSourceValueInvalid
          (py "secret source value for reference " ++ request.secretName ++
            py " is not valid UTF-8"))
      | some bytes =>
        if bytes = [] ∨ bytes.length > limits.maxValueBytes then
          .error (.of .secretSourceValueInvalid
            (py "secret source value for reference " ++ request.secretName ++
              py " is outside the configured UTF-8 byte bounds"))
        else
          .ok ⟨value, expiresAt, token, false⟩

/-- The last part of `lease`: whatever is raised releases the record. -/
def settle (request : SecretAccessRequest) (token : Nat) (expiresAt : Int)
    (resolution : SourceResolution) : Call BoundedSecretBroker Raised BoundedSecretLease := do
  let broker ← get
  tryCatch (liftM (checkedLease broker.limits request token expiresAt resolution)) fun e => do
    release token
    throw e

end BoundedSecretBroker

/-! ## Section 3: A lease -/

namespace BoundedSecretLease

/-- `value`. -/
def readValue (lease : BoundedSecretLease) (reading : ClockReading) : Except Raised Text := do
  if lease.closed then
    .error (.of .secretLeaseClosed (py "secret lease is closed"))
  else
    let now ← BoundedSecretBroker.now reading
    if now ≥ lease.expiresAt then
      .error (.of .secretExpired (py "secret lease is expired"))
    else
      .ok lease.value

/-- `close`; dropping a record does not raise, so the cleanup does not fail. -/
def close (lease : BoundedSecretLease) : Call BoundedSecretBroker Raised BoundedSecretLease := do
  if lease.closed then
    return lease
  else
    BoundedSecretBroker.release lease.token
    return { lease with closed := true }

end BoundedSecretLease
