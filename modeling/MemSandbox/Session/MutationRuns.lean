import MemSandbox.Session.OperationRules
import MemSandbox.Session.Sandbox

/-! # Authoritative mutations

    What `write_file`, `write_bytes`, `create_directory`, `remove_path` and
    `apply_patch` do while they hold the gate, whenever they are cancelled or
    run out of time: an error leaves the workspace as it was, unless the
    mutation was committed and only its report was not accepted.

    * **Section 1** what they do to the workspace;
    * **Section 2** their runs. -/

open Python EventLoop PortableWorkspaceArchiveCodec
open Coroutine (wp wp_bind ends)

namespace SandboxSession

variable {ι α : Type} {call : ι}

/-! ## Section 1: The workspace -/

theorem raised_eq_ok {x : Except PyError α} {a : α} (h : raised x = .ok a) : x = .ok a := by
  cases x with
  | ok b => exact congrArg Except.ok (Except.ok.inj h)
  | error e => exact nomatch h

section Workspace

variable [Sha256] [UnicodeData] {request : MutationRequest} {u₀ u : Sandbox}

/-- The workspace and the execution state are as they were. -/
structure Untouched (u₀ u : Sandbox) : Prop where
  workspace : u.workspace = u₀.workspace
  cwd : u.cwd = u₀.cwd
  environment : u.environment = u₀.environment

/-- The workspace is what the mutation made of it, and nothing else has changed. -/
structure Mutated (request : MutationRequest) (u₀ : Sandbox) (value : SessionValue) (u : Sandbox) :
    Prop where
  mutated : ∃ mutation, request.resolve u₀.workspace.limits u₀.cwd = .ok mutation ∧
    mutation.call u₀.workspace = (.ok value, u.workspace)
  cwd : u.cwd = u₀.cwd
  environment : u.environment = u₀.environment

/-- A mutation that raises has changed nothing. -/
theorem Mutation.call_error {w w' : MemoryWorkspace} (hw : MemoryWorkspace.Consistent w.limits w.state)
    {mutation : Mutation} {e : PyError} (h : mutation.call w = (.error e, w')) : w' = w := by
  have hbind : ∀ {β : Type} {x : Method β} {f : β → SessionValue} {post : β → MemoryWorkspace → Prop},
      Call.Outcome x w post → (x >>= fun a => pure (f a)) w = (.error e, w') → w' = w := by
    intro β x f post houtcome heq
    rcases Call.bind_eq_error.mp heq with hx | ⟨a, s', -, hpure⟩
    · exact houtcome.of_eq_error hx
    · exact nomatch congrArg Prod.fst hpure
  cases mutation with
  | write request => exact hbind (MemoryWorkspace.write_outcome hw request) h
  | mkdir request => exact hbind (MemoryWorkspace.mkdir_outcome hw request) h
  | remove request => exact hbind (MemoryWorkspace.remove_outcome hw request) h
  | patch text expectedHashes =>
    have h : ((liftM (patchRequest text expectedHashes) : Method WorkspacePatchRequest) >>= fun request =>
        MemoryWorkspace.patch request >>= fun a => pure (SessionValue.patched a)) w = (.error e, w') := h
    rw [Call.lift_bind_apply] at h
    cases hrequest : patchRequest text expectedHashes with
    | error e' =>
      rw [hrequest] at h
      exact (congrArg Prod.snd h).symm
    | ok request =>
      rw [hrequest] at h
      exact hbind (MemoryWorkspace.patch_outcome hw request) h

/-- No task is at work, and nothing has been changed. -/
structure Resting (u₀ : Sandbox) (l : EventLoop Sandbox SessionJob SessionValue Raised) : Prop where
  done : AllDone l.tasks
  untouched : Untouched u₀ l.shared

/-- The call is ready to be made. -/
structure Aimed (request : MutationRequest) (u₀ : Sandbox)
    (l : EventLoop Sandbox SessionJob SessionValue Raised) : Prop extends Resting u₀ l where
  target : ∃ mutation, l.shared.target = some mutation ∧
    request.resolve u₀.workspace.limits u₀.cwd = .ok mutation

end Workspace

section Collaborators

variable [Sha256] [UnicodeData] [JsonRuntime] [TarReader] [GzipReader] {request : MutationRequest}
  {u₀ u : Sandbox} {l : EventLoop Sandbox SessionJob SessionValue Raised}

abbrev Unguarded : EventLoop Sandbox SessionJob SessionValue Raised →
    EventLoop Sandbox SessionJob SessionValue Raised → Prop := fun _ _ => True

theorem wp_normalize (h : Resting u₀ l) :
    wp (Awaiting SessionJob.act) Unguarded (onShared request.normalize)
      (ends (fun _ => Aimed request u₀) fun _ => Resting u₀) l := by
  rintro r l' ⟨rfl, rfl⟩
  refine ⟨trivial, ?_⟩
  have hresolve : request.resolve l.shared.workspace.limits l.shared.cwd =
      request.resolve u₀.workspace.limits u₀.cwd := by
    rw [h.untouched.workspace, h.untouched.cwd]
  cases hrequest : request.resolve u₀.workspace.limits u₀.cwd with
  | error e =>
    have hnormalize : request.normalize l.shared = (.error (.error e), l.shared) := by
      simp only [MutationRequest.normalize, hresolve, hrequest]
    rw [hnormalize]
    exact h
  | ok mutation =>
    have hnormalize : request.normalize l.shared =
        (.ok (), { l.shared with target := some mutation }) := by
      simp only [MutationRequest.normalize, hresolve, hrequest]
    rw [hnormalize]
    have huntouched : Untouched u₀ { l.shared with target := some mutation } :=
      ⟨h.untouched.workspace, h.untouched.cwd, h.untouched.environment⟩
    exact ⟨⟨h.done, huntouched⟩, mutation, rfl, hrequest⟩

/-- The policy engine leaves everything alone. -/
theorem wp_evaluate (operationId : OperationId) {I : Sandbox → Prop} (hdone : AllDone l.tasks)
    (hI : I l.shared) :
    wp (Awaiting SessionJob.act) Unguarded (evaluatePolicy operationId)
      (fun _ l' => AllDone l'.tasks ∧ I l'.shared) l := by
  obtain ⟨u, tasks⟩ := l
  have hended : ∀ {r cancelling s'}, TaskEnded SessionJob.act tasks .evaluate u r cancelling s' →
      AllDone s'.tasks ∧ I s'.shared := by
    intro r cancelling s' h
    cases h with
    | intro h =>
      obtain rfl : _ = u := h
      exact ⟨hdone.concat _ _, hI⟩
  apply wp_bind.mpr
  apply wp_awaitCollaborator hdone (fun _ _ _ => trivial)
  · exact fun e => ⟨hdone, hI⟩
  · intro v cancelling s' h
    cases v <;> exact hended h
  · rintro e s' ⟨outcome, cancelling, h, -⟩
    exact hended h

/-- The mutation is made and its result returned, or nothing is changed. -/
theorem wp_mutate (operationId : OperationId)
    (hw : MemoryWorkspace.Consistent u₀.workspace.limits u₀.workspace.state)
    (h : Aimed request u₀ l) :
    wp (Awaiting SessionJob.act) Unguarded (MutationRequest.action operationId)
      (ends (fun result l' => AllDone l'.tasks ∧ Mutated request u₀ result.1 l'.shared)
        fun _ => Resting u₀) l := by
  obtain ⟨u, tasks⟩ := l
  obtain ⟨⟨hdone, huntouched⟩, mutation, htarget, hresolve⟩ := h
  have htake : MutationRequest.takeTarget u = (.ok mutation, u) := by
    have htarget : u.target = some mutation := htarget
    simp only [MutationRequest.takeTarget, htarget]
  apply wp_bind.mpr
  rintro r l' ⟨rfl, rfl⟩
  refine ⟨trivial, ?_⟩
  rw [htake]
  apply wp_bind.mpr
  apply wp_awaitCollaborator hdone (fun _ _ _ => trivial)
  · exact fun e => ⟨hdone, huntouched⟩
  · intro v cancelling s' h
    cases h with
    | intro h =>
      cases cancelling with
      | true => exact nomatch h.1
      | false =>
        obtain ⟨hv, rfl⟩ := h
        refine ⟨hdone.concat _ _, ⟨mutation, hresolve, ?_⟩, huntouched.cwd, huntouched.environment⟩
        have hworkspace : u.workspace = u₀.workspace := huntouched.workspace
        rw [← hworkspace]
        exact Prod.ext (raised_eq_ok hv.symm) rfl
  · rintro e s' ⟨outcome, cancelling, h, hlost⟩
    cases h with
    | intro h =>
      cases cancelling with
      | true =>
        obtain ⟨-, rfl⟩ := h
        exact ⟨hdone.concat _ _, huntouched⟩
      | false =>
        obtain ⟨hv, rfl⟩ := h
        -- the mutation itself failed
        have hworkspace : u.workspace = u₀.workspace := huntouched.workspace
        have hfailed : ∃ e, (mutation.call u.workspace).1 = .error e := by
          cases hcall : (mutation.call u.workspace).1 with
          | error e => exact ⟨e, rfl⟩
          | ok v =>
            rw [hcall] at hv
            exact absurd hv ((hlost rfl).resolve_left Bool.false_ne_true v)
        obtain ⟨e, hcall⟩ := hfailed
        have hsame : (mutation.call u.workspace).2 = u.workspace :=
          mutation.call_error (hworkspace ▸ hw) (Prod.ext hcall rfl)
        refine ⟨hdone.concat _ _, ?_, huntouched.cwd, huntouched.environment⟩
        exact hsame.trans hworkspace

end Collaborators

/-! ## Section 2: Runs -/

section Runs

/-- The state of a session and its sandbox. -/
abbrev SandboxState (ι : Type) := SessionState ι (SessionWork Sandbox SessionJob SessionValue)

/-- The operation, for `_run_operation`. -/
abbrev MutationRequest.runs (request : MutationRequest) (limits : OperationLimits) :
    OrderlyOperation ι (SessionWork Sandbox SessionJob SessionValue) SessionValue :=
  (request.operationRequest limits).orderly

/-- A mutation reports its end only. -/
theorem failsLate_mutation {request : MutationRequest} {limits : OperationLimits} {e : Raised}
    (h : FailsLate (request.runs (ι := ι) limits).toOperation e) : e = clockBackwards := by
  refine h.resolve_right fun hpost => hpost.1 ?_
  cases request <;> rfl

variable [Sha256] [UnicodeData] [JsonRuntime] [TarReader] [GzipReader] {request : MutationRequest}
  {u₀ : Sandbox} {limits : OperationLimits} {s₀ : SandboxState ι}

/-- The mutation is done, and so are the tasks. -/
structure MutationDone (request : MutationRequest) (u₀ : Sandbox) (value : SessionValue)
    (l : EventLoop Sandbox SessionJob SessionValue Raised) : Prop where
  done : AllDone l.tasks
  mutated : Mutated request u₀ value l.shared

/-- So the caller finds it, with the result that it got. -/
structure MutationReturned (request : MutationRequest) (u₀ : Sandbox) (value : SessionValue)
    (l : EventLoop Sandbox SessionJob SessionValue Raised) : Prop
    extends MutationDone request u₀ value l where
  returned : l.shared.returned = some value

/-- What the caller does with the result. -/
def keepResult (value : SessionValue) (work : SessionWork Sandbox SessionJob SessionValue) :
    SessionWork Sandbox SessionJob SessionValue :=
  { work with loop.shared.returned := some value }

theorem mutation_contract
    (hconsistent : MemoryWorkspace.Consistent u₀.workspace.limits u₀.workspace.state) :
    WorkContract SessionJob.act call (request.runs limits).toOperation (Resting u₀)
      (Aimed request u₀) (Resting u₀) (MutationDone request u₀) where
  steady_idle := steady_of_done fun _ h => h.done
  steady_ready := steady_of_done fun _ h => h.done
  steady_intact := steady_of_done fun _ h => h.done
  steady_done := fun _ => steady_of_done fun _ h => h.done
  intact_of_idle := fun _ h => h
  intact_of_ready := fun _ h => h.toResting
  normalize := fun s h => by
    apply Coroutine.wp_mono (wp_tasks (wp_normalize h))
    intro r s' hs'
    cases r with
    | ok => exact hs'
    | error e => exact hs'
  evaluate := fun operationId s h => by
    have hevaluated := wp_evaluate operationId (I := fun u => Untouched u₀ u ∧ ∃ mutation,
      u.target = some mutation ∧ request.resolve u₀.workspace.limits u₀.cwd = .ok mutation) h.done
      ⟨h.untouched, h.target⟩
    apply wp_tasks
    apply Coroutine.wp_mono hevaluated
    exact fun r l' hl => ⟨⟨hl.1, hl.2.1⟩, hl.2.2⟩
  action := fun operationId s h => by
    apply Coroutine.wp_mono (wp_tasks (wp_mutate operationId hconsistent h))
    intro r s' hs'
    cases r with
    | ok result => exact ⟨hs'.1, hs'.2⟩
    | error e => exact hs'

/-- The runs of a mutation that has its turn. -/
def mutationSystem (call : ι) (request : MutationRequest) (limits : OperationLimits)
    (s₀ : SandboxState ι) :=
  turnSystem SessionJob.act call (request.runs limits).toOperation keepResult s₀

/-- How its turn ends: an operation that raises once it is done has a clock
    that went back. -/
abbrev MutationEnd (call : ι) (request : MutationRequest) (u₀ : Sandbox) :
    Except Raised Unit → SandboxState ι → Prop :=
  TurnEnd call (fun e => e = clockBackwards) (Resting u₀) (MutationDone request u₀)
    (MutationReturned request u₀)

end Runs

/-! A session with a new workspace, and a call that is cancelled in its turn. -/

section Cancelled

open NewWorkspace RestoreRaces.OneWorkspace

/-- A new workspace, and nothing at work on it. -/
def newWork (cwd : SandboxPath) : SessionWork Sandbox SessionJob SessionValue :=
  ⟨⟨⟨NewWorkspace.workspace .default, cwd, ⟨[], .nil⟩, .new 1 ⟨1, 1, Nat.one_pos, Nat.one_pos⟩ Int.one_pos,
    none, none⟩, []⟩, []⟩

end Cancelled
end SandboxSession
