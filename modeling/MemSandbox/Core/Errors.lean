import MemSandbox.Lib.Text

/-! # Raised exceptions

    An exception is its class and its message.  The classes are those the
    source defines and the built-in ones it raises or catches; the
    `except (SandboxError, TypeError, ValueError)` clauses need to know which
    class derives from which. -/

open Python

/-- The framework-neutral categories of domain failures. -/
inductive ErrorCategory where
  | invalidRequest
  | notFound
  | conflict
  | quotaExceeded
  | policyDenied
  | timeout
  | cancelled
  | unsupported
  | internal
  deriving DecidableEq, Repr

/-- The exception classes, by the source's names; `foreign` stands for the
    classes of code outside it, with the category of a `SandboxError`. -/
inductive ErrorClass where
  -- workspace
  | invalidPathError
  | pathOutsideWorkspaceError
  | pathNotFoundError
  | pathAlreadyExistsError
  | notAFileError
  | notADirectoryError
  | directoryNotEmptyError
  | rootModificationError
  | samePathError
  | destinationWithinSourceError
  | fileEncodingError
  | invalidRangeError
  | staleContentError
  | invalidPatchError
  | patchContextMismatchError
  | fileSizeLimitExceededError
  | workspaceSizeLimitExceededError
  | nodeLimitExceededError
  | readLimitExceededError
  | snapshotTooLargeError
  | snapshotCorruptError
  | snapshotIncompatibleError
  | preparedRestoreInvalid
  | restoreCandidateMismatch
  -- session snapshots
  | snapshotCorrupt
  | snapshotIncompatible
  | snapshotTooLarge
  | snapshotSaveFailed
  | snapshotLoadFailed
  | snapshotIdentifierConflict
  | snapshotNotFound
  | snapshotStoreFull
  -- commands
  | commandEmpty
  | commandTooLong
  | commandSyntaxInvalid
  | commandSyntaxUnsupported
  | commandTimeout
  | commandCancelled
  | commandInternalFailure
  -- secrets
  | secretDenied
  | secretNotFound
  | secretExpired
  | secretLeaseLimitExceeded
  | secretSourceUnavailable
  | secretSourceValueInvalid
  | secretLeaseClosed
  -- events
  | eventPayloadRejected
  | eventBufferLimitExceeded
  | eventDeliveryFailed
  | eventSinkClosed
  -- sandbox service
  | sandboxNotFound
  | sandboxIdentifierConflict
  | sandboxServiceClosed
  | sandboxStartupFailed
  | sandboxResumeFailed
  | sandboxDeleteFailed
  | sessionFactoryFailed
  | sessionFactoryCleanupFailed
  -- controlled HTTP
  | outboundHttpRequestInvalid
  | outboundHttpUnavailable
  | outboundHttpDenied
  | outboundHttpLimitExceeded
  | outboundHttpTimeout
  | outboundHttpCancelled
  | outboundHttpGatewayFailed
  | outboundHttpResolutionFailed
  | outboundHttpTransportFailed
  | outboundHttpResponseInvalid
  | collaboratorFailed
  -- sessions
  | sessionRequestInvalid
  | sessionStartInvalid
  | sessionNotRunning
  | sessionWorkspaceChanged
  | sessionClosing
  | sessionClosed
  | sessionFailed
  | sessionOperationTimeout
  | sessionOperationCancelled
  | sessionCloseTimeout
  | sessionPolicyDenied
  | sessionEventDeliveryFailed
  | sessionSnapshotRestoreFailed
  | sessionCleanupFailed
  | secretLeaseCleanupFailed
  -- built in
  | assertionError
  | indexError
  | typeError
  | valueError
  | unicodeEncodeError
  | unicodeDecodeError
  | jsonDecodeError
  | duplicateKeyError
  | overflowError
  | keyError
  | runtimeError
  | recursionError
  | osError
  | eofError
  -- standard library
  | tarError
  | zlibError
  | timeoutError
  | foreign (category : Option ErrorCategory)
  deriving DecidableEq, Repr

namespace ErrorClass

/-- The category of a `SandboxError` class; `none` for the built-in classes. -/
def category : ErrorClass → Option ErrorCategory
  | invalidPathError => some .invalidRequest
  | pathOutsideWorkspaceError => some .invalidRequest
  | pathNotFoundError => some .notFound
  | pathAlreadyExistsError => some .conflict
  | notAFileError => some .invalidRequest
  | notADirectoryError => some .invalidRequest
  | directoryNotEmptyError => some .conflict
  | rootModificationError => some .invalidRequest
  | samePathError => some .invalidRequest
  | destinationWithinSourceError => some .invalidRequest
  | fileEncodingError => some .invalidRequest
  | invalidRangeError => some .invalidRequest
  | staleContentError => some .conflict
  | invalidPatchError => some .invalidRequest
  | patchContextMismatchError => some .conflict
  | fileSizeLimitExceededError => some .quotaExceeded
  | workspaceSizeLimitExceededError => some .quotaExceeded
  | nodeLimitExceededError => some .quotaExceeded
  | readLimitExceededError => some .quotaExceeded
  | snapshotTooLargeError => some .quotaExceeded
  | snapshotCorruptError => some .invalidRequest
  | snapshotIncompatibleError => some .unsupported
  | preparedRestoreInvalid => some .invalidRequest
  | restoreCandidateMismatch => some .conflict
  | snapshotCorrupt => some .invalidRequest
  | snapshotIncompatible => some .unsupported
  | snapshotTooLarge => some .quotaExceeded
  | snapshotSaveFailed => some .internal
  | snapshotLoadFailed => some .internal
  | snapshotIdentifierConflict => some .conflict
  | snapshotNotFound => some .notFound
  | snapshotStoreFull => some .quotaExceeded
  | commandEmpty => some .invalidRequest
  | commandTooLong => some .invalidRequest
  | commandSyntaxInvalid => some .invalidRequest
  | commandSyntaxUnsupported => some .unsupported
  | commandTimeout => some .timeout
  | commandCancelled => some .cancelled
  | commandInternalFailure => some .internal
  | secretDenied => some .policyDenied
  | secretNotFound => some .notFound
  | secretExpired => some .timeout
  | secretLeaseLimitExceeded => some .quotaExceeded
  | secretSourceUnavailable => some .internal
  | secretSourceValueInvalid => some .internal
  | secretLeaseClosed => some .conflict
  | eventPayloadRejected => some .invalidRequest
  | eventBufferLimitExceeded => some .quotaExceeded
  | eventDeliveryFailed => some .internal
  | eventSinkClosed => some .conflict
  | sandboxNotFound => some .notFound
  | sandboxIdentifierConflict => some .conflict
  | sandboxServiceClosed => some .conflict
  | sandboxStartupFailed => some .internal
  | sandboxResumeFailed => some .internal
  | sandboxDeleteFailed => some .internal
  | sessionFactoryFailed => some .internal
  | sessionFactoryCleanupFailed => some .internal
  | outboundHttpRequestInvalid => some .invalidRequest
  | outboundHttpUnavailable => some .unsupported
  | outboundHttpDenied => some .policyDenied
  | outboundHttpLimitExceeded => some .quotaExceeded
  | outboundHttpTimeout => some .timeout
  | outboundHttpCancelled => some .cancelled
  | outboundHttpGatewayFailed => some .internal
  | outboundHttpResolutionFailed => some .internal
  | outboundHttpTransportFailed => some .internal
  | outboundHttpResponseInvalid => some .internal
  | sessionRequestInvalid => some .invalidRequest
  | sessionStartInvalid => some .conflict
  | sessionNotRunning => some .conflict
  | sessionWorkspaceChanged => some .conflict
  | sessionClosing => some .conflict
  | sessionClosed => some .conflict
  | sessionFailed => some .internal
  | sessionOperationTimeout => some .timeout
  | sessionOperationCancelled => some .cancelled
  | sessionCloseTimeout => some .timeout
  | sessionPolicyDenied => some .policyDenied
  | sessionEventDeliveryFailed => some .internal
  | sessionSnapshotRestoreFailed => some .internal
  | sessionCleanupFailed => some .internal
  | secretLeaseCleanupFailed => some .internal
  | foreign category => category
  | assertionError | indexError | typeError | valueError | unicodeEncodeError
  | unicodeDecodeError | jsonDecodeError | duplicateKeyError | overflowError | keyError | runtimeError | recursionError | osError
  | eofError | tarError | zlibError | timeoutError | collaboratorFailed => none

/-- Subclasses of `SandboxError`. -/
def isSandboxError (c : ErrorClass) : Bool := c.category.isSome

/-- `TypeError`. -/
def isTypeError : ErrorClass → Bool
  | typeError => true
  | _ => false

/-- `ValueError` and its subclasses. -/
def isValueError : ErrorClass → Bool
  | valueError | unicodeEncodeError | unicodeDecodeError | jsonDecodeError
  | duplicateKeyError => true
  | _ => false

/-- `OSError`, with its subclasses `BadGzipFile` and `TimeoutError`. -/
def isOSError : ErrorClass → Bool
  | osError | timeoutError => true
  | _ => false

/-- What `except (SandboxError, TypeError, ValueError)` catches. -/
def isExpected (c : ErrorClass) : Bool := c.isSandboxError || c.isTypeError || c.isValueError

end ErrorClass

/-- A raised exception. -/
structure PyError where
  cls : ErrorClass
  message : Text
  deriving DecidableEq

/-- What asynchronous code raises: an `Exception`, a cancellation of the task,
    or one of `KeyboardInterrupt`, `SystemExit` and `GeneratorExit`. -/
inductive Raised where
  | error (e : PyError)
  | cancelledError
  | exit
  deriving DecidableEq

/-- A raised exception of one of the source's classes. -/
def Raised.of (cls : ErrorClass) (message : Text) : Raised := .error ⟨cls, message⟩

/-- `raise cls(message)`. -/
def raise (cls : ErrorClass) (message : Text) : Except PyError α := .error ⟨cls, message⟩

/-- `if not condition: raise cls(message)`. -/
def require (condition : Prop) [Decidable condition] (cls : ErrorClass) (message : Text) :
    Except PyError Unit :=
  if condition then .ok () else raise cls message

/-- `require`, with what holds then. -/
def ensure (condition : Prop) [Decidable condition] (cls : ErrorClass) (message : Text) :
    Except PyError (PLift condition) :=
  if h : condition then .ok ⟨h⟩ else raise cls message

/-- `try: x except caught: raise cls(message)`. -/
def rewrap (x : Except PyError α) (caught : ErrorClass → Bool) (cls : ErrorClass)
    (message : Text) : Except PyError α :=
  match x with
  | .ok a => .ok a
  | .error e => if caught e.cls then raise cls message else .error e

@[simp] theorem require_eq_ok {condition : Prop} [Decidable condition] {cls : ErrorClass}
    {message : Text} {u : Unit} : require condition cls message = .ok u ↔ condition := by
  unfold require
  split <;> simp_all [raise]

@[simp] theorem rewrap_eq_ok {x : Except PyError α} {caught : ErrorClass → Bool}
    {cls : ErrorClass} {message : Text} {a : α} :
    rewrap x caught cls message = .ok a ↔ x = .ok a := by
  unfold rewrap
  cases x with
  | ok b => simp
  | error e => by_cases h : caught e.cls <;> simp [h, raise]

@[simp] theorem raise_ne_ok {cls : ErrorClass} {message : Text} {a : α} :
    raise cls message ≠ .ok a := by
  simp [raise]

/-- What a returning sequence did: both halves returned. -/
theorem Except.bind_eq_ok_iff {ε α β : Type} {x : Except ε α} {f : α → Except ε β} {b : β} :
    (x >>= f) = .ok b ↔ ∃ a, x = .ok a ∧ f a = .ok b := by
  cases x <;> simp [bind, Except.bind]

/-! ## Which exceptions leave a computation -/

/-- Whatever `x` raises is of a class that satisfies `P`. -/
structure Raises (P : ErrorClass → Prop) (x : Except PyError α) : Prop where
  of_error : ∀ e, x = .error e → P e.cls

namespace Raises

variable {P Q : ErrorClass → Prop}

@[simp] theorem ok {a : α} : Raises P (.ok a) where
  of_error e he := by cases he

@[simp] theorem error_iff {e : PyError} : Raises P (.error e : Except PyError α) ↔ P e.cls := by
  constructor
  · intro h
    exact h.of_error e rfl
  · intro h
    refine ⟨?_⟩
    intro e' he
    cases he
    exact h

@[simp] theorem raise_iff {cls : ErrorClass} {message : Text} :
    Raises P (raise cls message : Except PyError α) ↔ P cls := error_iff

theorem mono {x : Except PyError α} (h : Raises P x) (himp : ∀ cls, P cls → Q cls) :
    Raises Q x where
  of_error e he := himp _ (h.of_error e he)

/-- A sequence raises what its first part raises, or what the rest does. -/
theorem bind {x : Except PyError α} {f : α → Except PyError β} (hx : Raises P x)
    (hf : ∀ a, x = .ok a → Raises P (f a)) : Raises P (x >>= f) := by
  cases x with
  | error e => exact error_iff.mpr (error_iff.mp hx)
  | ok a => exact hf a rfl

theorem of_require {condition : Prop} [Decidable condition] {cls : ErrorClass} {message : Text}
    (h : P cls) : Raises P (require condition cls message) := by
  unfold require
  split
  · exact ok
  · exact raise_iff.mpr h

/-- What is caught leaves as the new class, the rest as it was. -/
theorem of_rewrap {x : Except PyError α} {caught : ErrorClass → Bool} {cls : ErrorClass}
    {message : Text} (hcls : P cls) (hx : Raises (fun c => caught c = true ∨ P c) x) :
    Raises P (rewrap x caught cls message) := by
  cases x with
  | ok a => exact ok
  | error e =>
    show Raises P (if caught e.cls then raise cls message else .error e)
    by_cases hcaught : caught e.cls
    · rw [if_pos hcaught]
      exact raise_iff.mpr hcls
    · rw [if_neg hcaught]
      exact error_iff.mpr ((error_iff.mp hx).resolve_left hcaught)

end Raises
