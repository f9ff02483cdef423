import MemSandbox.CommandExecutor.Executor
import MemSandbox.Session.Collaborators

/-! # The execution of a command in a session

    The action of `SandboxSession.execute` and `_close_secret_leases`
    (`session/session.py`): the leases of the secrets are acquired one by one,
    the command runs, the leases are closed, and only then the session takes
    over the working directory and the environment.

    The broker, the executor, the workspace and the leases are collaborators:
    their calls are jobs that end in any way.  `history` is not in the source;
    it is what the collaborators and the action have done, in order. -/

open Python EventLoop

/-- `SecretRef`. -/
structure SecretRef where
  name : Text
  deriving DecidableEq

/-- `SessionSecretEnvironmentBinding`. -/
structure SessionSecretEnvironmentBinding where
  name : Text
  secretRef : SecretRef

namespace SandboxSession

/-- `_apply_environment_changes` of the session. -/
def applyEnvironmentChanges (environment : CommandEnvironment) (changes : List EnvironmentChange) :
    Except PyError CommandEnvironment :=
  CommandEnvironment.ofItems (changes.foldl applyChange environment.items)

/-- `_secret_refs`. -/
def secretRefs (bindings : List SessionSecretEnvironmentBinding) : List SecretRef :=
  sorted SecretRef.name (bindings.map SessionSecretEnvironmentBinding.secretRef).dedup

/-! ## Section 1: Collaborators -/

/-- One entry of the history; a lease is known by its place among those of the
    operation. -/
inductive ExecuteEvent where
  | leased (lease : Nat) (ref : SecretRef)
  | returned (result : ExecuteResult)
  | closing (lease : Nat)
  | closed (lease : Nat) (succeeded : Bool)
  | read
  | committed (cwd : SandboxPath) (environment : CommandEnvironment)

/-- What the operation shares with its collaborators. -/
structure ExecuteState where
  cwd : SandboxPath
  environment : CommandEnvironment
  leases : List Nat
  history : List ExecuteEvent

/-- The state with more history. -/
def ExecuteState.record (u : ExecuteState) (event : ExecuteEvent) : ExecuteState :=
  { u with history := u.history ++ [event] }

/-- The collaborator calls of the action. -/
inductive ExecuteJob where
  | lease (ref : SecretRef)
  | command
  | stats
  | close (lease : Nat)

/-- How a call ends: the lease is appended in the task that acquires it, and
    only the executor returns a value that the action uses. -/
def ExecuteJob.act : ExecuteJob → Bool → ExecuteState → Except Raised (Option ExecuteResult) →
    ExecuteState → Prop
  | .lease ref, _, u, .ok value, u' =>
    value = none ∧
      u' = { u.record (.leased u.leases.length ref) with leases := u.leases ++ [u.leases.length] }
  | .command, _, u, .ok value, u' => ∃ result, value = some result ∧ u' = u.record (.returned result)
  | .stats, _, u, .ok value, u' => value = none ∧ u' = u.record .read
  | .close id, _, u, .ok value, u' => value = none ∧ u' = u.record (.closed id true)
  | .close id, _, u, .error _, u' => u' = u.record (.closed id false)
  | _, _, u, .error _, u' => u' = u

/-! ## Section 2: The action -/

abbrev Execution := Code ExecuteState ExecuteJob (Option ExecuteResult)

/-- An assignment to the shared state. -/
def assignState (f : ExecuteState → ExecuteState) : Execution Unit :=
  onShared fun u => (.ok (), f u)

/-- The loop that acquires the leases. -/
def acquireLeases : List SecretRef → Execution Unit
  | [] => pure ()
  | ref :: rest => do
    requireRemaining
    let _ ← awaitCollaborator false (.lease ref)
    acquireLeases rest

/-- The redactor and the overlay, which read the values of the leases. -/
def readLeases : Execution Unit := .step fun s r s' => (r = .ok () ∨ ∃ e, r = .error e) ∧ s' = s

/-- The first `try` statement of the action. -/
def runCommand (refs : List SecretRef) : Execution (Option ExecuteResult) := do
  acquireLeases refs
  readLeases
  requireRemaining
  awaitCollaborator false .command

/-- `task.done()`, `task.cancelled()` and `task.result()` at once. -/
def taskOutcome (id : Nat) : Execution (Option (Except Raised (Option ExecuteResult))) :=
  .step fun s r s' => r = .ok (s.outcome id) ∧ s' = s

/-- The clause for `CancelledError` in `_close_secret_leases`: the task has
    ended, or the next turn waits for it. -/
def closeInterrupted (id : Nat) (failed : Bool) (interruption : Option Raised) :
    Execution (Option Raised ⊕ Bool × Option Raised) := do
  match ← taskOutcome id with
  | some (.error .cancelledError) => return .inr (true, interruption)
  | some (.error _) => return .inr (true, interruption.or (some .cancelledError))
  | some (.ok _) => return .inr (failed, interruption.or (some .cancelledError))
  | none => return .inl (interruption.or (some .cancelledError))

/-- The clause for the other exceptions. -/
def closeRaised (id : Nat) (interruption : Option Raised) (e : Raised) :
    Execution (Option Raised ⊕ Bool × Option Raised) := do
  match ← taskOutcome id with
  | some _ => return .inr (true, interruption)
  | none => return .inl (interruption.or (some e))

/-- One turn of the inner loop of `_close_secret_leases`: the next turn's
    interruption, or what the loop leaves with. -/
def closeRound (id : Nat) (failed : Bool) (interruption : Option Raised) :
    Execution (Option Raised ⊕ Bool × Option Raised) := do
  match ← Coroutine.attempt (shielded .cancelledError id) with
  | .ok _ => return .inr (failed, interruption)
  | .error .cancelledError => closeInterrupted id failed interruption
  | .error e => closeRaised id interruption e

/-- One turn of the outer loop of `_close_secret_leases`. -/
def closeLease (lease : Nat) (failed : Bool) (interruption : Option Raised) :
    Execution (Bool × Option Raised) := do
  let id ← createTask (.close lease)
  assignState (·.record (.closing lease))
  Coroutine.loop (closeRound id failed) interruption

/-- The outer loop of `_close_secret_leases`. -/
def closeLeases : List Nat → Bool → Option Raised → Execution (Bool × Option Raised)
  | [], failed, interruption => return (failed, interruption)
  | lease :: rest, failed, interruption => do
    let (failed, interruption) ← closeLease lease failed interruption
    closeLeases rest failed interruption

/-- `_close_secret_leases`. -/
def closeSecretLeases (leases : List Nat) : Execution Bool := do
  match ← closeLeases leases.reverse false none with
  | (_, some interruption) => throw interruption
  | (failed, none) => return failed

/-- `_exception_graph_contains_protected`, of a call with secrets. -/
def unsafeGraph (refs : List SecretRef) : Execution Bool :=
  .step fun s r s' => (∃ b, r = .ok (!refs.isEmpty && b)) ∧ s' = s

/-- How the action raises its first failure. -/
def raisePrimary {α : Type} (refs : List SecretRef) (primary : Raised) : Execution α := do
  if ← unsafeGraph refs then
    match primary with
    | .cancelledError => throw .cancelledError
    | _ => throw (.of .sessionFailed (py "secret-bearing execute failed with protected error data"))
  else
    match primary with
    | .cancelledError => throw .cancelledError
    | .exit => throw .exit
    | .error e =>
      if refs.isEmpty || e.cls.isSandboxError then throw (.error e)
      else throw (.of .sessionFailed
        (py "secret-bearing execute collaborator failed unexpectedly"))

/-- The end of the action: the session takes over the execution state. -/
def commitResult (result : ExecuteResult) : Execution ExecuteResult := do
  let environment ← onShared fun u =>
    ((applyEnvironmentChanges u.environment result.environmentChanges).mapError Raised.error, u)
  let _ ← awaitCollaborator false .stats
  assignState fun u =>
    { u.record (.committed result.resultingCwd environment) with
      cwd := result.resultingCwd
      environment }
  return result

/-- What follows the first `try` statement of the action: the cleanup, and
    then a failure or the end. -/
def finishExecute (refs : List SecretRef) (result : Except Raised (Option ExecuteResult)) :
    Execution ExecuteResult := do
  let leases ← onShared fun u => (.ok u.leases, u)
  let cleanup ← Coroutine.attempt (closeSecretLeases leases)
  match result, cleanup with
  | .error primary, _ => raisePrimary refs primary
  | .ok _, .error interruption => raisePrimary refs interruption
  | .ok _, .ok true => throw (.of .secretLeaseCleanupFailed (py "secret lease cleanup failed"))
  | .ok none, .ok false => throw (.of .assertionError [])
  | .ok (some result), .ok false => commitResult result

/-- The action of `SandboxSession.execute`. -/
def executeAction (refs : List SecretRef) : Execution ExecuteResult := do
  let result ← Coroutine.attempt (runCommand refs)
  finishExecute refs result

/-- The operation, from where it waits for its action. -/
def executeOperation (bindings : List SessionSecretEnvironmentBinding) : Execution Unit := do
  .await fun s r s' => (r = .ok () ∨ ∃ e, r = .error e) ∧ s' = s
  let _ ← executeAction (secretRefs bindings)
  return ()

/-- The runs of the operation, in a session with a working directory and an
    environment. -/
def executeSystem (bindings : List SessionSecretEnvironmentBinding) (cwd : SandboxPath)
    (environment : CommandEnvironment) :
    System (Coroutine.Config Unit (EventLoop ExecuteState ExecuteJob (Option ExecuteResult) Raised)
      Raised) (Option Unit) :=
  Coroutine.system (Progress ExecuteJob.act)
    (fun s => s.shared = ⟨cwd, environment, [], []⟩ ∧ AllDone s.tasks)
    fun _ => executeOperation bindings

end SandboxSession
