import MemSandbox.Core.Errors
import MemSandbox.Lib.Tasks

/-! # Calls of collaborators

    `_await_collaborator` and `_settle_cancelled_task` of `session/session.py`:
    a collaborator runs as a task that is watched for three ways to give up,
    its deadline, the signal of the caller and the cancellation of the caller.

    Notes on exceptions are left out, and so are the times themselves: a
    deadline may have passed whenever it is looked at. -/

open Python EventLoop

namespace SandboxSession

variable {σ κ ν : Type}

/-! ## Section 1: Model -/

/-- Code of a session, with the tasks it has started. -/
abbrev Code (σ κ ν : Type) := Coroutine (EventLoop σ κ ν Raised) Raised

/-- `SessionOperationTimeout(...)`. -/
def operationTimeout : Raised :=
  .of .sessionOperationTimeout (py "operation exceeded its protected collaborator budget")

/-- `SessionOperationCancelled(...)`. -/
def operationCancelled : Raised :=
  .of .sessionOperationCancelled (py "operation was cooperatively cancelled")

/-- `_remaining`, which raises at the deadline. -/
def requireRemaining : Code σ κ ν Unit :=
  .step fun s r s' => (r = .ok () ∨ r = .error operationTimeout) ∧ s' = s

/-- `_check_cooperative_cancellation`. -/
def checkCooperativeCancellation : Code σ κ ν Unit :=
  .step fun s r s' => (r = .ok () ∨ r = .error operationCancelled) ∧ s' = s

/-- `remaining <= 0`. -/
def overdue : Code σ κ ν Bool := .step fun s r s' => (∃ b, r = .ok b) ∧ s' = s

/-- The `except` clauses of `_settle_cancelled_task`; a `GeneratorExit` of the
    task is returned, the other exits are raised. -/
def settled : Raised → Code σ κ ν Unit
  | .cancelledError => pure ()
  | .error _ => pure ()
  | .exit => .step fun s r s' => (r = .ok () ∨ r = .error .exit) ∧ s' = s

/-- `_settle_cancelled_collaborator`, without a timeout. -/
def settleCancelled (id : Nat) : Code σ κ ν Unit :=
  tryCatch (do
    let _ ← join .cancelledError id
    return ()) settled

/-- The `try` statement of `_await_collaborator`. -/
def pollCollaborator (authoritative : Bool) (id : Nat) : Code σ κ ν ν := do
  Coroutine.whileDo (do return !(← isDone id)) do
    checkCooperativeCancellation
    if ← overdue then
      cancel id
      settleCancelled id
      throw operationTimeout
    else
      waitFor .cancelledError
  let value ← result id
  if authoritative then
    return value
  else
    requireRemaining
    checkCooperativeCancellation
    return value

/-- `task.result()`, where it takes precedence over an interruption. -/
def authoritativeResult (authoritative : Bool) (id : Nat) : Code σ κ ν (Option ν) :=
  .step fun s r s' => s' = s ∧
    r = .ok (if authoritative then (s.outcome id).bind Except.toOption else none)

/-- The body of the `except` clauses of `_await_collaborator`. -/
def interruptCollaborator (authoritative : Bool) (id : Nat) (e : Raised) : Code σ κ ν ν := do
  match ← authoritativeResult authoritative id with
  | some value => return value
  | none =>
    cancel id
    settleCancelled id
    throw e

/-- The `except` clauses of `_await_collaborator`. -/
def collaboratorInterrupted (authoritative : Bool) (id : Nat) : Raised → Code σ κ ν ν
  | .cancelledError => interruptCollaborator authoritative id .cancelledError
  | .error e =>
    if e.cls = .sessionOperationCancelled then interruptCollaborator authoritative id (.error e)
    else throw (.error e)
  | .exit => throw .exit

/-- `_await_collaborator`. -/
def awaitCollaborator (authoritative : Bool) (job : κ) : Code σ κ ν ν := do
  requireRemaining
  checkCooperativeCancellation
  let id ← createTask job
  tryCatch (pollCollaborator authoritative id) (collaboratorInterrupted authoritative id)

/-! ## Section 2: What a call leaves -/

section Rules

open Coroutine (wp wp_bind wp_tryCatch wp_step wp_await ends)

variable {act : κ → Bool → σ → Except Raised ν → σ → Prop}
  {G : EventLoop σ κ ν Raised → EventLoop σ κ ν Raised → Prop}
  {tasks : List (TaskState κ ν Raised)} {job : κ} {u : σ} {authoritative : Bool}
  {s s' : EventLoop σ κ ν Raised}

/-- The task has ended, and the shared state is what it left. -/
inductive TaskEnded (act : κ → Bool → σ → Except Raised ν → σ → Prop)
    (tasks : List (TaskState κ ν Raised)) (job : κ) (u : σ) (outcome : Except Raised ν)
    (cancelling : Bool) : EventLoop σ κ ν Raised → Prop where
  | intro {u' : σ} (h : act job cancelling u outcome u') :
      TaskEnded act tasks job u outcome cancelling ⟨u', tasks ++ [.done job outcome]⟩

/-- The task has ended, and no result that takes precedence is lost: where
    there is one, its cancellation had been requested. -/
def Stopped (act : κ → Bool → σ → Except Raised ν → σ → Prop)
    (tasks : List (TaskState κ ν Raised)) (job : κ) (u : σ) (authoritative : Bool)
    (s : EventLoop σ κ ν Raised) : Prop :=
  ∃ outcome cancelling, TaskEnded act tasks job u outcome cancelling s ∧
    (authoritative = true → cancelling = true ∨ ∀ v, outcome ≠ .ok v)

/-- The task was asked to end, or has ended. -/
def Stopping (act : κ → Bool → σ → Except Raised ν → σ → Prop)
    (tasks : List (TaskState κ ν Raised)) (job : κ) (u : σ) (authoritative : Bool)
    (s : EventLoop σ κ ν Raised) : Prop :=
  s = ⟨u, tasks ++ [.running job true]⟩ ∨ Stopped act tasks job u authoritative s

theorem Stopped.allDone (h : Stopped act tasks job u authoritative s) (htasks : AllDone tasks) :
    AllDone s.tasks := by
  obtain ⟨outcome, cancelling, hended, -⟩ := h
  cases hended
  exact htasks.concat _ _

/-- A task that was asked to end goes on as one that was asked to end. -/
theorem Stopping.awaiting (h : Stopping act tasks job u authoritative s) (htasks : AllDone tasks)
    (hawait : Awaiting act s s') : Stopping act tasks job u authoritative s' := by
  induction hawait with
  | refl => exact h
  | tail _ hprogress ih =>
    rcases ih with rfl | hstopped
    · generalize hs : (⟨u, _⟩ : EventLoop σ κ ν Raised) = v at hprogress
      cases hprogress with
      | cancelled =>
        obtain ⟨rfl, hsplit⟩ := EventLoop.mk.inj hs
        obtain ⟨rfl, hlast, rfl⟩ := htasks.split hsplit
        cases hlast
        exact .inl rfl
      | ended hact =>
        obtain ⟨rfl, hsplit⟩ := EventLoop.mk.inj hs
        obtain ⟨rfl, hlast, rfl⟩ := htasks.split hsplit
        cases hlast
        exact .inr ⟨_, true, ⟨hact⟩, fun _ => .inl rfl⟩
    · exact absurd hprogress (hstopped.allDone htasks).no_progress

theorem Stopping.outcome (h : Stopping act tasks job u authoritative s) {outcome : Except Raised ν}
    (houtcome : s.outcome tasks.length = some outcome) : Stopped act tasks job u authoritative s := by
  rcases h with rfl | h
  · rw [outcome_last] at houtcome
    cases houtcome
  · exact h

/-- Asking a task to end, where no result takes precedence. -/
theorem stopping_of_cancel (h : Working act tasks job u s)
    (hresult : authoritative = true → (s.outcome tasks.length).bind Except.toOption = none) :
    Stopping act tasks job u authoritative
      { s with tasks := s.tasks.modify tasks.length TaskState.cancel } := by
  cases h with
  | running =>
    rw [modify_last]
    exact .inl rfl
  | ended hact =>
    rename_i cancelling outcome u'
    rw [modify_last]
    refine .inr ⟨outcome, cancelling, ⟨hact⟩, ?_⟩
    intro hauthoritative
    refine .inr ?_
    rintro v rfl
    have hnone := hresult hauthoritative
    rw [outcome_last] at hnone
    cases hnone

variable (htasks : AllDone tasks) (hG : ∀ s s', s'.shared = s.shared → G s s')

include htasks hG

theorem wp_settleCancelled {Q : Except Raised Unit → EventLoop σ κ ν Raised → Prop}
    (hs : Stopping act tasks job u authoritative s)
    (hQ : ∀ r s', Stopped act tasks job u authoritative s' → Q r s') :
    wp (Awaiting act) G (settleCancelled tasks.length) Q s := by
  intro v hawait r v' hjoin
  obtain ⟨outcome, houtcome, -, rfl⟩ := hjoin
  have hstopped := (hs.awaiting htasks hawait).outcome houtcome
  refine ⟨hG _ _ rfl, ?_⟩
  rcases r with e | a
  · cases e with
    | cancelledError => exact hQ _ _ hstopped
    | error e => exact hQ _ _ hstopped
    | exit =>
      rintro r v' ⟨-, rfl⟩
      exact ⟨hG _ _ rfl, hQ _ _ hstopped⟩
  · exact hQ _ _ hstopped

/-- Giving up on the task: it has ended when the code goes on. -/
theorem wp_interruptCollaborator {Q : Except Raised ν → EventLoop σ κ ν Raised → Prop} {e : Raised}
    (hs : Working act tasks job u s)
    (hreturned : ∀ v cancelling s', TaskEnded act tasks job u (.ok v) cancelling s' → Q (.ok v) s')
    (hraised : ∀ e s', Stopped act tasks job u authoritative s' → Q (.error e) s') :
    wp (Awaiting act) G (interruptCollaborator authoritative tasks.length e) Q s := by
  rintro r s' ⟨rfl, rfl⟩
  refine ⟨hG _ _ rfl, ?_⟩
  have hstop : ((authoritative = true → (s'.outcome tasks.length).bind Except.toOption = none)) →
      wp (Awaiting act) G (do
        cancel tasks.length
        settleCancelled tasks.length
        throw e : Code σ κ ν ν) Q s' := by
    intro hresult
    rintro r v ⟨rfl, rfl⟩
    refine ⟨hG _ _ rfl, ?_⟩
    apply wp_settleCancelled htasks hG (stopping_of_cancel hs hresult)
    intro r v hstopped
    cases r with
    | ok => exact hraised _ _ hstopped
    | error e' => exact hraised _ _ hstopped
  by_cases hauthoritative : authoritative = true
  · rw [if_pos hauthoritative]
    cases hresult : (s'.outcome tasks.length).bind Except.toOption with
    | none => exact hstop fun _ => hresult
    | some value =>
      -- the task has returned, and its result takes precedence
      cases hs with
      | running =>
        rw [outcome_last] at hresult
        cases hresult
      | ended hact =>
        rename_i cancelling outcome u'
        rw [outcome_last] at hresult
        cases outcome with
        | error e' => cases hresult
        | ok v =>
          cases hresult
          exact hreturned _ _ _ ⟨hact⟩
  · rw [if_neg hauthoritative]
    exact hstop fun h => absurd h hauthoritative

/-- The loop of a call: it goes on while the task is at work, and ends with
    what the task came to. -/
theorem wp_pollCollaborator {Q : Except Raised ν → EventLoop σ κ ν Raised → Prop}
    (hs : Working act tasks job u s)
    (hreturned : ∀ v cancelling s', TaskEnded act tasks job u (.ok v) cancelling s' → Q (.ok v) s')
    (hinterrupted : ∀ e s', e = .cancelledError ∨ e = operationCancelled →
      Working act tasks job u s' → Q (.error e) s')
    (hraised : ∀ e s', Stopped act tasks job u authoritative s' → Q (.error e) s') :
    wp (Awaiting act) G (pollCollaborator authoritative tasks.length) Q s := by
  refine ⟨fun _ => Working act tasks job u, hs, ?_⟩
  rintro - v hv
  rintro r v' ⟨rfl, rfl⟩
  refine ⟨hG _ _ rfl, ?_⟩
  cases hv with
  | running =>
    -- the task is at work: the checks, and then the wait
    have hv : Working act tasks job u ⟨u, tasks ++ [TaskState.running job ‹_›]⟩ := .running
    rw [outcome_last]
    rintro r v' ⟨hr, rfl⟩
    refine ⟨hG _ _ rfl, ?_⟩
    rcases hr with rfl | rfl
    · rintro r v' ⟨⟨b, rfl⟩, rfl⟩
      refine ⟨hG _ _ rfl, ?_⟩
      cases b with
      | true =>
        rintro r v' ⟨rfl, rfl⟩
        refine ⟨hG _ _ rfl, ?_⟩
        rw [modify_last]
        have hstopping : Stopping act tasks job u authoritative
            ⟨u, tasks ++ [TaskState.running job true]⟩ :=
          .inl rfl
        apply wp_settleCancelled htasks hG hstopping
        intro r v hstopped
        cases r with
        | ok => exact hraised _ _ hstopped
        | error e => exact hraised _ _ hstopped
      | false =>
        intro w hawait r w' hwait
        obtain ⟨hr, rfl⟩ := hwait
        have hw := hv.awaiting htasks hawait
        refine ⟨hG _ _ rfl, ?_⟩
        rcases hr with rfl | rfl
        · exact hw
        · exact hinterrupted _ _ (.inl rfl) hw
    · exact hinterrupted _ _ (.inr rfl) hv
  | ended hact =>
    rename_i cancelling outcome u'
    rw [outcome_last]
    rintro r v' ⟨hr, rfl⟩
    rw [outcome_last] at hr
    obtain rfl := Option.some.inj hr
    refine ⟨hG _ _ rfl, ?_⟩
    cases outcome with
    | error e => exact hraised _ _ ⟨_, cancelling, ⟨hact⟩, fun _ => .inr nofun⟩
    | ok v =>
      by_cases hauthoritative : authoritative = true
      · show wp _ _ (if authoritative = true then pure v else _) Q _
        rw [if_pos hauthoritative]
        exact hreturned _ _ _ ⟨hact⟩
      · have hstopped : Stopped act tasks job u authoritative
            ⟨u', tasks ++ [TaskState.done job (.ok v)]⟩ :=
          ⟨_, cancelling, ⟨hact⟩, fun h => absurd h hauthoritative⟩
        show wp _ _ (if authoritative = true then pure v else _) Q _
        rw [if_neg hauthoritative]
        rintro r v' ⟨hr, rfl⟩
        refine ⟨hG _ _ rfl, ?_⟩
        rcases hr with rfl | rfl
        · rintro r v' ⟨hr, rfl⟩
          refine ⟨hG _ _ rfl, ?_⟩
          rcases hr with rfl | rfl
          · exact hreturned _ _ _ ⟨hact⟩
          · exact hraised _ _ hstopped
        · exact hraised _ _ hstopped

omit htasks hG in
theorem Stopped.working (hs : Stopped act tasks job u authoritative s) :
    Working act tasks job u s := by
  obtain ⟨outcome, cancelling, hended, -⟩ := hs
  cases hended with
  | intro h => exact .ended h

/-- A call of a collaborator raises before its task exists, or its task has
    ended when the call does: the call returns what the task returned, and a
    call that raises loses no result that takes precedence. -/
theorem wp_awaitCollaborator {Q : Except Raised ν → EventLoop σ κ ν Raised → Prop}
    (hbefore : ∀ e, Q (.error e) ⟨u, tasks⟩)
    (hreturned : ∀ v cancelling s', TaskEnded act tasks job u (.ok v) cancelling s' → Q (.ok v) s')
    (hraised : ∀ e s', Stopped act tasks job u authoritative s' → Q (.error e) s') :
    wp (Awaiting act) G (awaitCollaborator authoritative job) Q ⟨u, tasks⟩ := by
  rintro r s ⟨hr, rfl⟩
  refine ⟨hG _ _ rfl, ?_⟩
  rcases hr with rfl | rfl
  · rintro r s ⟨hr, rfl⟩
    refine ⟨hG _ _ rfl, ?_⟩
    rcases hr with rfl | rfl
    · rintro r s ⟨rfl, rfl⟩
      refine ⟨hG _ _ rfl, ?_⟩
      apply wp_pollCollaborator htasks hG .running
      · exact hreturned
      · rintro e s' (rfl | rfl) hworking
        · exact wp_interruptCollaborator htasks hG hworking hreturned hraised
        · exact wp_interruptCollaborator htasks hG hworking hreturned hraised
      · intro e s' hstopped
        cases e with
        | cancelledError =>
          exact wp_interruptCollaborator htasks hG hstopped.working hreturned hraised
        | error e =>
          show wp _ _ (if e.cls = .sessionOperationCancelled then _ else _) Q _
          by_cases hcls : e.cls = .sessionOperationCancelled
          · rw [if_pos hcls]
            exact wp_interruptCollaborator htasks hG hstopped.working hreturned hraised
          · rw [if_neg hcls]
            exact hraised _ _ hstopped
        | exit => exact hraised _ _ hstopped
    · exact hbefore _
  · exact hbefore _

end Rules

end SandboxSession
