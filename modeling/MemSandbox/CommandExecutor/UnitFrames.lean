import MemSandbox.CommandExecutor.Admission
import MemSandbox.CommandExecutor.PlanRuns
import MemSandbox.CommandExecutor.ReadFrames
import MemSandbox.Workspace.Runs

/-! # What a redirected or piped unit touches

    A unit with a redirection or several stages is made of reading commands,
    so that the only change is the write of the redirection, and that write is
    one mutation of the workspace.

    * **Section 1** the stages of an admitted unit;
    * **Section 2** the two halves of a unit;
    * **Section 3** the write of the redirection;
    * **Section 4** the whole unit. -/

open Python FileMap

namespace VirtualCommandExecutor

/-! ## Section 1: Stages -/

/-- The result of a stage or pipeline that was executed. -/
structure Executed (protection : CommandValueProtection) (result : CommandResult) : Prop where
  cwd : result.resultingCwd = none
  changes : result.environmentChanges = []
  code : ∀ code ∈ result.failureCode, code ∈ readingFailures ∨ code = .pipelineLimitExceeded ∨
    code = .protectedValueRejected ∧ protection.containsProtectedText (py ".") = true

/-- A sanitized result without a state transition keeps its failure. -/
theorem sanitizeStage_settled {stage result : CommandResult} {name : Text}
    {protection : CommandValueProtection} {environment : CommandEnvironmentView}
    (hcwd : stage.resultingCwd = none) (hchanges : stage.environmentChanges = [])
    (h : sanitizeStage stage name protection environment = .ok result) :
    result.failureCode = stage.failureCode ∧ result.resultingCwd = none ∧
      result.environmentChanges = [] := by
  unfold sanitizeStage at h
  rw [hcwd, hchanges] at h
  obtain ⟨-, hfailure, -, -, hcwd', hchanges'⟩ := CommandResult.new_eq_ok h
  exact ⟨hfailure, hcwd', hchanges'⟩

theorem Executed.sanitized {stage result : CommandResult} {name : Text}
    {protection : CommandValueProtection} {environment : CommandEnvironmentView}
    (hstage : Executed protection stage)
    (h : sanitizeStage stage name protection environment = .ok result) :
    Executed protection result := by
  obtain ⟨hcode, hcwd, hchanges⟩ := sanitizeStage_settled hstage.cwd hstage.changes h
  exact ⟨hcwd, hchanges, hcode ▸ hstage.code⟩

/-- A stage of a reading command whose arguments hold nothing protected. -/
structure Runnable {σ : Type} [UnicodeData] [CommandRuntime] (reader : CommandWorkspaceReader σ)
    (mutator : CommandWorkspaceEditor σ) (protection : CommandValueProtection)
    (prepared : PreparedStage σ) : Prop where
  command : prepared.command ∈ createCommandProfile reader mutator
  reads : prepared.command.descriptor.pipelineSafe = true ∨
    prepared.command.descriptor.permitsStdoutRedirection = true
  unprotected : ∀ argument ∈ prepared.argv, protection.containsProtectedText argument = false

/-- A runtime that leaves the part `get` of the state alone. -/
structure RuntimeFrames {σ β : Type} (get : σ → β) (runtime : ExecutionRuntime σ) : Prop where
  time : Call.Frames get runtime.time fun _ => True
  cancelling : Call.Frames get runtime.cancelling fun _ => True
  cancellationIsSet : Call.Frames get runtime.cancellationIsSet fun _ => True

section Stages

variable {σ β : Type} {get : σ → β} {runtime : ExecutionRuntime σ} {limits : CommandLimits}
  {protection : CommandValueProtection} {environment : CommandEnvironmentView} {cwd : SandboxPath}
  {deadline : ℚ}

theorem frames_checkExecutionState (hruntime : RuntimeFrames get runtime) :
    Call.Frames get (checkExecutionState runtime deadline) fun _ => True := by
  unfold checkExecutionState
  have hraises : ∀ (e : Raised) (f : Unit → Call σ Raised Unit),
      Call.Frames get (throw e >>= f) fun _ => True := fun e f =>
    (Call.frames_throw : Call.Frames get _ fun _ : Unit => False).bind fun _ h => h.elim
  refine hruntime.time.bind fun now _ => ?_
  dsimp only
  split
  · exact hraises _ _
  · refine hruntime.cancelling.bind fun cancelling _ => ?_
    split
    · exact hraises _ _
    · refine hruntime.cancellationIsSet.bind fun set _ => ?_
      split
      · exact Call.frames_throw
      · exact Call.frames_pure trivial

variable [UnicodeData] [CommandRuntime] {reader : CommandWorkspaceReader σ}
  {mutator : CommandWorkspaceEditor σ}

theorem frames_dispatch (hreader : ReadsOnly get reader) {prepared : PreparedStage σ}
    (hrun : Runnable reader mutator protection prepared) (stdin : Text) (stdinConnected : Bool) :
    Call.Frames get (dispatch prepared stdin stdinConnected environment cwd protection)
      (Executed protection) := by
  have hbody : Call.Frames get (do
      let request ← lift (CommandRequest.new prepared.argv stdin stdinConnected)
      prepared.command.execute request ⟨cwd, environment, protection⟩)
      (Undisclosing protection (py "." :: prepared.argv.tail)) := by
    have hrequest : Call.Frames get (lift (CommandRequest.new prepared.argv stdin stdinConnected))
        fun request => request.argv = prepared.argv := by
      refine frames_of_except fun request hrequest => ?_
      obtain ⟨nonempty, -, h⟩ := Except.bind_eq_ok_iff.mp hrequest
      cases h
      rfl
    refine hrequest.bind fun request hargv => ?_
    have hframe : Call.Frames get
        (prepared.command.execute request ⟨cwd, environment, protection⟩)
        (Undisclosing protection (candidateOperands request)) :=
      frames_readCommand hreader hrun.command hrun.reads
    unfold candidateOperands at hframe
    rwa [hargv] at hframe
  refine (hbody.tryCatch fun e => Call.frames_throw).bind fun result hquiet =>
    frames_of_except fun sanitized hsanitized => ?_
  refine Executed.sanitized ⟨hquiet.cwd, hquiet.changes, fun code hcode => ?_⟩ hsanitized
  rcases hquiet.code code hcode with hreading | ⟨rfl, operand, hmem, hprotected⟩
  · exact .inl hreading
  · refine .inr (.inr ⟨rfl, ?_⟩)
    rcases List.mem_cons.mp hmem with rfl | hmem
    · exact hprotected
    · -- the arguments hold nothing protected
      rw [hrun.unprotected operand (List.mem_of_mem_tail hmem)] at hprotected
      cases hprotected

theorem frames_executePipeline (hreader : ReadsOnly get reader) (hruntime : RuntimeFrames get runtime)
    {stages : List (PreparedStage σ)} (hrun : ∀ stage ∈ stages, Runnable reader mutator protection stage)
    (first : Bool) (p : PipelineState)
    (hcode : ∀ code ∈ p.effectiveFailure, code ∈ readingFailures ∨ code = .pipelineLimitExceeded ∨
      code = .protectedValueRejected ∧ protection.containsProtectedText (py ".") = true) :
    Call.Frames get (executePipeline runtime limits protection environment cwd deadline first stages p)
      (Executed protection) := by
  induction stages generalizing first p with
  | nil =>
    refine frames_of_except fun result hresult => ?_
    obtain ⟨-, hfailure, -, -, hcwd, hchanges⟩ := CommandResult.new_eq_ok hresult
    exact ⟨hcwd, hchanges, hfailure ▸ hcode⟩
  | cons stage rest ih =>
    obtain ⟨hstage, hrest⟩ := List.forall_mem_cons.mp hrun
    unfold executePipeline
    refine (frames_checkExecutionState hruntime).bind fun _ _ => ?_
    refine (frames_dispatch hreader hstage _ _).bind fun result hresult => ?_
    refine (frames_checkExecutionState hruntime).bind fun _ _ => ?_
    have hnone : (result.resultingCwd.isSome || !result.environmentChanges.isEmpty) = false := by
      rw [hresult.cwd, hresult.changes]
      rfl
    rw [hnone]
    dsimp only [Bool.false_eq_true, if_false]
    -- the failure of the pipeline is that of its last failed stage
    generalize hq : (if result.exitCode ≠ 0 then
        ({ p with
          combinedStderr := p.combinedStderr ++ [result.stderr]
          effectiveExit := result.exitCode
          effectiveFailure := result.failureCode } : PipelineState)
      else { p with combinedStderr := p.combinedStderr ++ [result.stderr] }) = q
    have hqcode : ∀ code ∈ q.effectiveFailure, code ∈ readingFailures ∨
        code = .pipelineLimitExceeded ∨
        code = .protectedValueRejected ∧ protection.containsProtectedText (py ".") = true := by
      rw [← hq]
      split
      · exact hresult.code
      · exact hcode
    rw [if_neg Bool.false_ne_true]
    split
    · refine frames_of_except fun settled hsettled => ?_
      obtain ⟨-, hfailure, -, -, hcwd, hchanges⟩ := CommandResult.new_eq_ok hsettled
      exact ⟨hcwd, hchanges, hfailure ▸ hqcode⟩
    · refine (frames_of_except fun _ _ => trivial).bind fun stageBytes (_ : True) => ?_
      split
      · refine (frames_of_except fun _ _ => trivial).bind fun name (_ : True) => ?_
        refine frames_of_except fun settled hsettled => ?_
        obtain ⟨-, hfailure, -, -, hcwd, hchanges⟩ := CommandResult.new_eq_ok hsettled
        refine ⟨hcwd, hchanges, fun code hmem => .inr (.inl ?_)⟩
        rw [hfailure, Option.mem_some] at hmem
        exact hmem.symm
      · exact ih hrest false _ hqcode

theorem frames_executeUnit (hreader : ReadsOnly get reader) (hruntime : RuntimeFrames get runtime)
    {prepared : PreparedUnit σ}
    (hrun : ∀ stage ∈ prepared.stages, Runnable reader mutator protection stage) :
    Call.Frames get (executeUnit runtime limits protection environment cwd deadline prepared)
      (Executed protection) := by
  unfold executeUnit
  split
  · next stage hstages =>
    exact frames_dispatch hreader (hrun stage (hstages ▸ List.mem_singleton_self stage)) _ _
  · exact frames_executePipeline hreader hruntime hrun true _ fun _ hcode => nomatch hcode

/-- The stages of an admitted unit with several stages or a redirection. -/
theorem runnable_of_admitted [UnicodeLetters] {item : PlanUnit} {destination : Option Text}
    {prepared : List (PreparedStage σ)} (hitem : 1 < item.stages.length ∨ item.redirection.isSome)
    (h : UnitAdmitted (commandRegistry reader mutator) limits protection environment cwd item
      destination prepared) : ∀ stage ∈ prepared, Runnable reader mutator protection stage := by
  obtain ⟨hstages, hredirection⟩ := h
  obtain ⟨hlength, hall⟩ := hstages.spec
  intro stage hstage
  obtain ⟨first, last, source, hadmitted⟩ := hall stage hstage
  obtain ⟨name, -, hresolve⟩ := hadmitted.found
  refine ⟨List.mem_of_find?_eq_some hresolve, ?_, fun argument hargument => ?_⟩
  · by_cases hlong : 1 < item.stages.length
    · exact .inl (hadmitted.safe (decide_eq_true hlong))
    · -- a single stage is the last one
      have hone : prepared.length = 1 := by
        have := List.length_pos_of_mem hstage
        omega
      obtain ⟨only, rfl⟩ := List.length_eq_one_iff.mp hone
      rw [List.mem_singleton] at hstage
      subst hstage
      exact .inr (hredirection (hitem.resolve_left hlong) stage rfl)
  · exact Bool.eq_false_iff.mpr fun h =>
      absurd (List.any_eq_true.mpr ⟨argument, hargument, h⟩)
        (Bool.eq_false_iff.mp hadmitted.unprotected)

end Stages

/-! ## Section 2: The two halves of a unit -/

variable {σ : Type}

section Halves

variable [UnicodeLetters] (executor : VirtualCommandExecutor σ) (request : ExecuteRequest)
  (protection : CommandValueProtection) (deadline : ℚ) (item : PlanUnit) (cwd : SandboxPath)
  (environment : CommandEnvironment)

/-- A unit up to its redirection: the preparation, and the sanitized result
    whose output is redirected. -/
def unitStage : Call σ Raised (PreparedUnit σ × CommandResult) := do
  checkExecutionState executor.runtime deadline
  let view : CommandEnvironmentView := ⟨environment, request.overlay⟩
  let prepared ← lift (prepareUnit executor.registry item request.limits view cwd protection)
  let stage ←
    (match prepared.failure with
    | some failure => pure failure
    | none => executeUnit executor.runtime request.limits protection view cwd deadline prepared)
  let stage ← lift (sanitizeStage stage (py "command") protection view)
  checkExecutionState executor.runtime deadline
  return (prepared, stage)

/-- An admitted redirection. -/
def redirectTo (prepared : PreparedUnit σ) (stage : CommandResult) (mode : RedirectionMode) :
    Call σ Raised UnitOutcome := do
  let view : CommandEnvironmentView := ⟨environment, request.overlay⟩
  let destination ← lift
    (match prepared.destination with
    | some destination => .ok destination
    | none => raise .assertionError [])
  let word ← lift
    (match (item.stages.getLast item.nonempty).words with
    | word :: _ => .ok word
    | [] => raise .indexError (py "tuple index out of range"))
  let name ← lift (expandWord word view cwd)
  let name := diagnosticCommandName name
  let stage ← applyRedirection executor.redirectionMutator name destination mode cwd stage
    request.limits protection
  let stage ← lift (sanitizeStage stage name protection view)
  checkExecutionState executor.runtime deadline
  return ⟨stage, true⟩

/-- The redirection of a unit. -/
def redirectUnit (prepared : PreparedUnit σ) (stage : CommandResult) : Call σ Raised UnitOutcome :=
  match item.redirection with
  | none => return ⟨stage, false⟩
  | some redirection =>
    if prepared.redirectionAdmitted ∧ stage.failureCode ≠ some .pipelineLimitExceeded then
      redirectTo executor request protection deadline item cwd environment prepared stage
        redirection.mode
    else
      return ⟨stage, false⟩

theorem runUnit_eq : runUnit executor request protection deadline item cwd environment =
    unitStage executor request protection deadline item cwd environment >>= fun parts =>
      redirectUnit executor request protection deadline item cwd environment parts.1 parts.2 := by
  unfold unitStage
  simp only [Call.bind_assoc]
  rfl

end Halves

/-- What a unit holds when its redirection comes. -/
structure SettledStage (protection : CommandValueProtection) (prepared : PreparedUnit σ)
    (stage : CommandResult) : Prop where
  cwd : stage.resultingCwd = none
  changes : stage.environmentChanges = []
  code : ∀ code ∈ stage.failureCode, code ∈ readingFailures ∨ code = .commandNotFound ∨
    code = .pipelineLimitExceeded ∨ code = .protectedValueRejected ∧
      (prepared.redirectionAdmitted = false ∨ protection.containsProtectedText (py ".") = true)

theorem Executed.settled {protection : CommandValueProtection} {prepared : PreparedUnit σ}
    {stage : CommandResult} (h : Executed protection stage) : SettledStage protection prepared stage := by
  refine ⟨h.cwd, h.changes, fun code hcode => ?_⟩
  rcases h.code code hcode with hreading | hlimit | ⟨hprotected, hdot⟩
  · exact .inl hreading
  · exact .inr (.inr (.inl hlimit))
  · exact .inr (.inr (.inr ⟨hprotected, .inr hdot⟩))

theorem Rejection.settled {protection : CommandValueProtection} {prepared : PreparedUnit σ}
    {stage : CommandResult} (h : Rejection prepared.redirectionAdmitted stage) :
    SettledStage protection prepared stage := by
  refine ⟨h.cwd, h.changes, fun code hcode => ?_⟩
  rcases h.code code hcode with rfl | hmissing | ⟨hprotected, hadmitted⟩
  · exact .inl List.mem_cons_self
  · exact .inr (.inl hmissing)
  · exact .inr (.inr (.inr ⟨hprotected, .inl hadmitted⟩))

theorem SettledStage.sanitized {protection : CommandValueProtection} {prepared : PreparedUnit σ}
    {stage result : CommandResult} {name : Text} {environment : CommandEnvironmentView}
    (hstage : SettledStage protection prepared stage)
    (h : sanitizeStage stage name protection environment = .ok result) :
    SettledStage protection prepared result := by
  obtain ⟨hcode, hcwd, hchanges⟩ := sanitizeStage_settled hstage.cwd hstage.changes h
  exact ⟨hcwd, hchanges, hcode ▸ hstage.code⟩

section First

variable {β : Type} {get : σ → β} [UnicodeLetters] [UnicodeData] [CommandRuntime]
  {reader : CommandWorkspaceReader σ} {mutator : CommandWorkspaceEditor σ}
  {runtime : ExecutionRuntime σ} {request : ExecuteRequest} {protection : CommandValueProtection}
  {deadline : ℚ} {item : PlanUnit} {cwd : SandboxPath} {environment : CommandEnvironment}

/-- The first half changes nothing, and settles the stage. -/
theorem frames_unitStage (hreader : ReadsOnly get reader) (hruntime : RuntimeFrames get runtime)
    (hitem : 1 < item.stages.length ∨ item.redirection.isSome) :
    Call.Frames get
      (unitStage (createDefaultExecutor reader mutator runtime) request protection deadline item cwd
        environment)
      fun parts => SettledStage protection parts.1 parts.2 ∧
        item.redirection.mapM (fun redirection =>
          expandWord redirection.destination ⟨environment, request.overlay⟩ cwd) =
            .ok parts.1.destination := by
  refine (frames_checkExecutionState hruntime).bind fun _ _ => ?_
  refine (frames_of_except fun _ h => h).bind fun prepared hprepared => ?_
  obtain ⟨hfailure, hadmitted⟩ := prepareUnit_spec hprepared
  refine (?_ : Call.Frames get _ (SettledStage protection prepared)).bind fun stage hstage => ?_
  · cases hnone : prepared.failure with
    | some failure => exact Call.frames_pure (hfailure failure hnone).settled
    | none =>
      have hrun := runnable_of_admitted hitem (hadmitted hnone)
      exact (frames_executeUnit hreader hruntime hrun).mono fun _ hstage => hstage.settled
  · refine (frames_of_except fun _ h => hstage.sanitized h).bind fun result hresult => ?_
    refine (frames_checkExecutionState hruntime).bind fun _ _ => ?_
    exact Call.frames_pure ⟨hresult, prepareUnit_destination hprepared⟩

end First

end VirtualCommandExecutor

/-! ## Section 3: The write -/

namespace CommandWorld

open VirtualCommandExecutor MemoryWorkspace

variable {τ : Type}

theorem onHost_workspace {α : Type} (x : Call τ Raised α) (s : CommandWorld τ) :
    (onHost x s).2.workspace = s.workspace := rfl

/-- A method that changes nothing when it raises. -/
theorem onWorkspace_outcome {α : Type} (host : CommandHost τ) {method : Method α} {s : CommandWorld τ}
    {post : α → MemoryWorkspace → Prop} (h : Call.Outcome method s.workspace post) :
    (onWorkspace host method s).2.workspace = s.workspace ∨
      ∃ a, (onWorkspace host method s).1 = .ok a ∧ post a (onWorkspace host method s).2.workspace := by
  have hsame := onHost_workspace host.acquireLock s
  unfold onWorkspace
  rcases hacquired : onHost host.acquireLock s with ⟨e | u, s₁⟩
  · rw [hacquired] at hsame
    rw [Call.bind_of_error hacquired]
    exact .inl hsame
  · rw [hacquired] at hsame
    rw [Call.bind_of_ok hacquired]
    -- the acquisition has left the workspace as it was
    obtain ⟨w, host₁⟩ := s₁
    cases hsame
    unfold Call.Outcome at h
    rcases hmethod : method s.workspace with ⟨e | a, w'⟩
    · rw [hmethod] at h
      refine .inl ?_
      show (method s.workspace).2 = s.workspace
      rw [hmethod]
      exact h
    · rw [hmethod] at h
      refine .inr ⟨a, ?_, ?_⟩
      · show (method s.workspace).1.mapError Raised.error = .ok a
        rw [hmethod]
        rfl
      · show post a (method s.workspace).2
        rw [hmethod]
        exact h

/-- A lifted computation raises in the same state, or the call goes on in it. -/
theorem lift_bind_cases {σ α β : Type} (x : Except PyError α) (f : α → Call σ Raised β) (s : σ) :
    (∃ e, x = .error e ∧ (lift x >>= f) s = (.error (.error e), s)) ∨
      ∃ a, x = .ok a ∧ (lift x >>= f) s = f a s := by
  cases x with
  | error e => exact .inl ⟨e, rfl, rfl⟩
  | ok a => exact .inr ⟨a, rfl, rfl⟩

/-- A resolution raises in the same state, or the call goes on in it. -/
theorem resolvePath_bind_cases {α : Type} {value : Text} {cwd : SandboxPath}
    {f : SandboxPath → Call (CommandWorld τ) Raised α} {s : CommandWorld τ}
    {r : Except Raised α × CommandWorld τ} (h : r = (resolvePath value cwd >>= f) s) :
    r.2 = s ∨ ∃ path, MemoryWorkspace.resolvePath s.workspace.limits value (some cwd) = .ok path ∧
      r = f path s := by
  have hresolve : resolvePath value cwd s = ((MemoryWorkspace.resolvePath s.workspace.limits value
    (some cwd)).mapError Raised.error, s) := rfl
  cases hpath : MemoryWorkspace.resolvePath s.workspace.limits value (some cwd) with
  | error e =>
    rw [hpath] at hresolve
    rw [h, Call.bind_of_error hresolve]
    exact .inl rfl
  | ok path =>
    rw [hpath] at hresolve
    rw [h, Call.bind_of_ok hresolve]
    exact .inr ⟨path, rfl, rfl⟩

/-- A mutation whose result is dropped. -/
theorem onWorkspace_dropped {α : Type} (host : CommandHost τ) {method : Method α} {s : CommandWorld τ}
    {post : MemoryWorkspace → Prop} (h : Call.Outcome method s.workspace fun _ w => post w)
    {r : Except Raised Unit × CommandWorld τ}
    (hr : r = (onWorkspace host method >>= fun _ => pure ()) s) :
    r.2.workspace = s.workspace ∨ r.1 = .ok () ∧ post r.2.workspace := by
  have hcases := onWorkspace_outcome host h
  rcases hmethod : onWorkspace host method s with ⟨e | a, s'⟩
  · rw [hmethod] at hcases
    rw [hr, Call.bind_of_error hmethod]
    refine .inl (hcases.resolve_right ?_)
    rintro ⟨_, hcontra, -⟩
    cases hcontra
  · rw [hmethod] at hcases
    rw [hr, Call.bind_of_ok hmethod]
    rcases hcases with hsame | ⟨_, -, hpost⟩
    · exact .inl hsame
    · exact .inr ⟨rfl, hpost⟩

/-- A handler that turns an exception into the result of the whole. -/
theorem handled_of_error {σ ε α : Type} {x : Call σ ε Unit} (handler : ε → Call σ ε α)
    (k : Option α → Call σ ε α) (hk : ∀ a, k (some a) = pure a) {s s' : σ} {e : ε}
    (h : x s = (.error e, s')) :
    (tryCatch (x >>= fun _ => pure none) (fun e => handler e >>= fun a => pure (some a)) >>= k) s =
      handler e s' := by
  rcases hhandler : handler e s' with ⟨e' | a, s''⟩
  · exact Call.bind_of_error ((Call.tryCatch_of_error (Call.bind_of_error h)).trans
      (Call.bind_of_error hhandler))
  · refine (Call.bind_of_ok ((Call.tryCatch_of_error (Call.bind_of_error h)).trans
      (Call.bind_of_ok hhandler))).trans ?_
    rw [hk]
    rfl

theorem handled_of_ok {σ ε α : Type} {x : Call σ ε Unit} (handler : ε → Call σ ε α)
    (k : Option α → Call σ ε α) {s s' : σ} {u : Unit} (h : x s = (.ok u, s')) :
    (tryCatch (x >>= fun _ => pure none) (fun e => handler e >>= fun a => pure (some a)) >>= k) s =
      k none s' :=
  Call.bind_of_ok (Call.tryCatch_of_ok (Call.bind_of_ok h))

variable [Sha256]

/-- The bytes that a redirection keeps of the file it writes. -/
def keptBytes (mode : RedirectionMode) (m : View Text Bytes) (p : List Text) : Bytes :=
  match mode with
  | .replace => []
  | .append => contentAt m p

/-- `w'` is `w` with the output at the resolved destination. -/
structure Redirected (mode : RedirectionMode) (destination : Text) (cwd : SandboxPath)
    (stdout : Text) (w w' : MemoryWorkspace) : Prop where
  written : ∃ path content, MemoryWorkspace.resolvePath w.limits destination (some cwd) = .ok path ∧
    encodeUtf8 stdout = some content ∧
    Advanced w w' (View.assign path.parts (.file (keptBytes mode w.view path.parts ++ content)) w.view)

/-- A redirection writes the file once, or not at all. -/
theorem writeRedirected_workspace (host : CommandHost τ) {s : CommandWorld τ}
    (hs : Consistent s.workspace.limits s.workspace.state) {destination : Text} {mode : RedirectionMode}
    {cwd : SandboxPath} {stdout : Text} {r : Except Raised Unit × CommandWorld τ}
    (hr : r = writeRedirected (mutator host).toCommandWorkspaceMutator destination mode cwd stdout s) :
    r.2.workspace = s.workspace ∨
      r.1 = .ok () ∧ Redirected mode destination cwd stdout s.workspace r.2.workspace := by
  rcases resolvePath_bind_cases hr with hsame | ⟨path, hpath, hr⟩
  · exact .inl (congrArg workspace hsame)
  · cases hcontent : encodeUtf8 stdout with
    | none =>
      rw [hcontent] at hr
      subst hr
      exact .inl rfl
    | some content =>
      rw [hcontent] at hr
      cases mode with
      | replace =>
        refine onWorkspace_dropped host ((write_outcome hs _).mono fun _ w' h => ?_) hr
        exact ⟨path, content, hpath, hcontent, h.2.2.2⟩
      | append =>
        refine onWorkspace_dropped host ((append_outcome hs _).mono fun _ w' h => ?_) hr
        exact ⟨path, content, hpath, hcontent, h.2.2.2⟩

/-- A result that changes neither the directory nor the environment. -/
def Steady (result : CommandResult) : Prop :=
  result.resultingCwd = none ∧ result.environmentChanges = []

omit [Sha256] in
theorem steady_of_failure {exitCode : Nat} {code : CommandFailureCode} {stderr : Text}
    {result : CommandResult} (h : CommandResult.failure exitCode code stderr = .ok result) :
    Steady result := by
  obtain ⟨-, -, -, -, hcwd, hchanges⟩ := CommandResult.new_eq_ok h
  exact ⟨hcwd, hchanges⟩

omit [Sha256] in
/-- A write that raised fails the unit, and nothing else happens. -/
theorem frames_redirectionFailure (name : Text) (stage : CommandResult) (e : Raised) :
    Call.Frames (workspace : CommandWorld τ → MemoryWorkspace) (redirectionFailure name stage e)
      Steady := by
  unfold redirectionFailure
  split
  · split
    · exact frames_of_except fun _ h => steady_of_failure h
    · split
      · exact Call.frames_throw
      · exact Call.frames_throw
  · exact Call.frames_throw
  · exact Call.frames_throw

/-- What a redirection comes to: nothing was written, or the output of a stage
    whose failure is still that of the unit. -/
theorem applyRedirection_workspace (host : CommandHost τ) {s : CommandWorld τ}
    (hs : Consistent s.workspace.limits s.workspace.state) {name destination : Text}
    {mode : RedirectionMode} {cwd : SandboxPath} {stage : CommandResult} (hstage : Steady stage)
    {limits : CommandLimits} {protection : CommandValueProtection}
    {r : Except Raised CommandResult × CommandWorld τ}
    (hr : r = applyRedirection (mutator host).toCommandWorkspaceMutator name destination mode cwd stage
      limits protection s) :
    (∀ result, r.1 = .ok result → Steady result) ∧ (r.2.workspace = s.workspace ∨
      Redirected mode destination cwd stage.stdout s.workspace r.2.workspace ∧
        ∀ result, r.1 = .ok result → result.failureCode = stage.failureCode) := by
  have hfails : ∀ x : Except PyError CommandResult, (∀ result, x = .ok result → Steady result) →
      r = (lift x : Call (CommandWorld τ) Raised CommandResult) s →
      (∀ result, r.1 = .ok result → Steady result) ∧ r.2.workspace = s.workspace := by
    rintro x hx rfl
    exact ⟨(frames_of_except hx : Call.Frames workspace _ Steady) s |>.2, rfl⟩
  unfold applyRedirection at hr
  split at hr
  · obtain ⟨hsteady, hsame⟩ := hfails _ (fun _ h => steady_of_failure h) hr
    exact ⟨hsteady, .inl hsame⟩
  · rcases lift_bind_cases (boundText stage.stdout limits.maxStdoutBytes limits.stdout_pos) _ s with
      ⟨e, -, hbound⟩ | ⟨bounded, -, hbound⟩
    · rw [hbound] at hr
      subst hr
      exact ⟨fun _ hcontra => (nomatch hcontra), .inl rfl⟩
    · rw [hbound] at hr
      split at hr
      · obtain ⟨hsteady, hsame⟩ := hfails _ (fun _ h => steady_of_failure h) hr
        exact ⟨hsteady, .inl hsame⟩
      · have hwrite := writeRedirected_workspace host hs
          (rfl : _ = writeRedirected (mutator host).toCommandWorkspaceMutator destination mode cwd
            stage.stdout s)
        rcases hrun : writeRedirected (mutator host).toCommandWorkspaceMutator destination mode cwd
            stage.stdout s with ⟨e | u, s'⟩
        · -- the write raised, and changed nothing
          rw [hrun] at hwrite
          have hsame : s'.workspace = s.workspace :=
            hwrite.resolve_right fun hcontra => nomatch hcontra.1
          obtain ⟨hframe, hsteady⟩ := frames_redirectionFailure name stage e s'
          rw [handled_of_error _ _ (fun _ => rfl) hrun] at hr
          rw [← hr] at hframe hsteady
          exact ⟨hsteady, .inl (hframe.trans hsame)⟩
        · rw [hrun] at hwrite
          rw [handled_of_ok _ _ hrun] at hr
          have hnew : ∀ result, r.1 = .ok result →
              result.failureCode = stage.failureCode ∧ Steady result := by
            intro result hresult
            rw [hr] at hresult
            obtain ⟨-, hcode, -, -, hcwd, hchanges⟩ := CommandResult.new_eq_ok (lift_eq_ok.mp
              (Prod.ext hresult rfl)).1
            exact ⟨hcode, hcwd.trans hstage.1, hchanges.trans hstage.2⟩
          have hsame : r.2.workspace = s'.workspace := by rw [hr]; rfl
          rw [hsame]
          refine ⟨fun result h => (hnew result h).2, ?_⟩
          rcases hwrite with hwrite | ⟨-, hwrite⟩
          · exact .inl hwrite
          · exact .inr ⟨hwrite, fun result h => (hnew result h).1⟩

omit [Sha256] in
/-- The statements after a write change nothing, and keep the failure. -/
theorem frames_afterWrite {runtime : ExecutionRuntime (CommandWorld τ)}
    (hruntime : RuntimeFrames (workspace : CommandWorld τ → MemoryWorkspace) runtime)
    {stage : CommandResult} (hstage : Steady stage) (name : Text) (protection : CommandValueProtection)
    (view : CommandEnvironmentView) (deadline : ℚ) :
    Call.Frames (workspace : CommandWorld τ → MemoryWorkspace) (do
      let stage ← lift (sanitizeStage stage name protection view)
      checkExecutionState runtime deadline
      return (⟨stage, true⟩ : UnitOutcome))
      fun outcome => Steady outcome.stage ∧ outcome.stage.failureCode = stage.failureCode := by
  refine (frames_of_except fun _ h => sanitizeStage_settled hstage.1 hstage.2 h).bind
    fun result hresult => ?_
  refine (frames_checkExecutionState hruntime).bind fun _ _ => ?_
  exact Call.frames_pure ⟨hresult.2, hresult.1⟩

omit [Sha256] in
/-- A method that only reads. -/
theorem frames_onWorkspace {α : Type} (host : CommandHost τ) {method : Method α}
    (h : Call.Frames id method fun _ => True) :
    Call.Frames (workspace : CommandWorld τ → MemoryWorkspace) (onWorkspace host method)
      fun _ => True := by
  have hacquire : Call.Frames (workspace : CommandWorld τ → MemoryWorkspace)
      (onHost host.acquireLock) fun _ => True := fun s =>
    ⟨onHost_workspace host.acquireLock s, fun _ _ => trivial⟩
  exact hacquire.bind fun _ _ s => ⟨(h s.workspace).1, fun _ _ => trivial⟩

omit [Sha256] in
/-- The read of the attributes that every method begins with. -/
theorem frames_self {α : Type} {f : MemoryWorkspace → Method α}
    (h : ∀ self, Call.Frames id (f self) fun _ => True) :
    Call.Frames id (get >>= f) fun _ => True :=
  Call.Frames.bind (fun _ => ⟨rfl, fun _ _ => trivial⟩ : Call.Frames id _ fun _ => True) fun self _ =>
    h self

omit [Sha256] in
theorem frames_check {α β : Type} {x : Except PyError α} {f : α → Method β}
    (h : ∀ a, Call.Frames id (f a) fun _ => True) : Call.Frames id (liftM x >>= f) fun _ => True :=
  (Call.frames_lift fun _ _ => trivial).bind fun a (_ : True) => h a

theorem readsOnly_reader (host : CommandHost τ) :
    ReadsOnly (workspace : CommandWorld τ → MemoryWorkspace) (reader host) where
  resolvePath _ _ _ := ⟨rfl, fun _ _ => trivial⟩
  stat path := frames_onWorkspace host <|
    frames_self fun self => frames_check fun _ => frames_check fun node =>
      Call.frames_lift fun _ _ => trivial
  list path := frames_onWorkspace host <|
    frames_self fun self => frames_check fun _ => frames_check fun node => by
      cases node with
      | file content => exact Call.frames_throw
      | directory children => exact Call.frames_lift fun _ _ => trivial
  readText path := frames_onWorkspace host <|
    frames_self fun self => frames_check fun _ => frames_check fun node => frames_check fun bytes =>
      frames_check fun content => Call.frames_pure trivial

omit [Sha256] in
theorem runtimeFrames_runtime (host : CommandHost τ) :
    RuntimeFrames (workspace : CommandWorld τ → MemoryWorkspace) (runtime host) where
  time _ := ⟨rfl, fun _ _ => trivial⟩
  cancelling _ := ⟨rfl, fun _ _ => trivial⟩
  cancellationIsSet _ := ⟨rfl, fun _ _ => trivial⟩

section Unit

variable [UnicodeLetters] [UnicodeData] [CommandRuntime]

/-- An admitted redirection changes at most its destination. -/
theorem redirectTo_workspace (host : CommandHost τ) {s : CommandWorld τ}
    (hs : Consistent s.workspace.limits s.workspace.state) {request : ExecuteRequest}
    {protection : CommandValueProtection} {deadline : ℚ} {item : PlanUnit} {cwd : SandboxPath}
    {environment : CommandEnvironment} {prepared : PreparedUnit (CommandWorld τ)}
    {stage : CommandResult} (hstage : Steady stage) {mode : RedirectionMode}
    {r : Except Raised UnitOutcome × CommandWorld τ}
    (hr : r = redirectTo (executor host) request protection deadline item cwd environment prepared
      stage mode s) :
    (∀ outcome, r.1 = .ok outcome → Steady outcome.stage) ∧ (r.2.workspace = s.workspace ∨
      (∃ destination, prepared.destination = some destination ∧
        Redirected mode destination cwd stage.stdout s.workspace r.2.workspace) ∧
      ∀ outcome, r.1 = .ok outcome → outcome.stage.failureCode = stage.failureCode) := by
  have hraised : ∀ e, r = (.error e, s) → (∀ outcome, r.1 = .ok outcome → Steady outcome.stage) ∧
      (r.2.workspace = s.workspace ∨ (∃ destination, prepared.destination = some destination ∧
        Redirected mode destination cwd stage.stdout s.workspace r.2.workspace) ∧
      ∀ outcome, r.1 = .ok outcome → outcome.stage.failureCode = stage.failureCode) := by
    rintro e rfl
    exact ⟨fun _ hcontra => (nomatch hcontra), .inl rfl⟩
  unfold redirectTo at hr
  cases hdestination : prepared.destination with
  | none =>
    rw [hdestination] at hr
    exact hdestination ▸ hraised _ hr
  | some destination =>
    rw [hdestination] at hr
    cases hwords : (item.stages.getLast item.nonempty).words with
    | nil =>
      rw [hwords] at hr
      exact hdestination ▸ hraised _ hr
    | cons word words =>
      rw [hwords] at hr
      rcases lift_bind_cases (expandWord word ⟨environment, request.overlay⟩ cwd) _ s with
        ⟨e, -, hname⟩ | ⟨name, -, hname⟩
      · exact hdestination ▸ hraised _ (hr.trans hname)
      · have hr := hr.trans hname
        -- the redirection itself, and what comes after it
        rcases happlied : applyRedirection (executor host).redirectionMutator
            (diagnosticCommandName name) destination mode cwd stage request.limits protection s with
          ⟨e | result, s'⟩
        · obtain ⟨-, heffect⟩ := applyRedirection_workspace host hs hstage happlied.symm
          have hr := hr.trans (Call.bind_of_error happlied)
          rw [hr]
          refine ⟨fun _ hcontra => (nomatch hcontra), heffect.imp_right fun hwritten => ?_⟩
          exact ⟨⟨destination, rfl, hwritten.1⟩, fun _ hcontra => nomatch hcontra⟩
        · obtain ⟨hsteady, heffect⟩ := applyRedirection_workspace host hs hstage happlied.symm
          have hr := hr.trans (Call.bind_of_ok happlied)
          obtain ⟨hframe, hafter⟩ := frames_afterWrite (runtimeFrames_runtime host)
            (hsteady result rfl) (diagnosticCommandName name) protection
            ⟨environment, request.overlay⟩ deadline s'
          have hsame : r.2.workspace = s'.workspace := (congrArg (·.2.workspace) hr).trans hframe
          have hafter : ∀ outcome, r.1 = .ok outcome →
              Steady outcome.stage ∧ outcome.stage.failureCode = result.failureCode := by
            intro outcome houtcome
            exact hafter outcome ((congrArg Prod.fst hr).symm.trans houtcome)
          rw [hsame]
          refine ⟨fun outcome h => (hafter outcome h).1, heffect.imp_right fun hwritten => ?_⟩
          exact ⟨⟨destination, rfl, hwritten.1⟩, fun outcome h =>
            (hafter outcome h).2.trans (hwritten.2 result rfl)⟩

/-- The redirection of a unit changes at most its destination. -/
theorem redirectUnit_workspace (host : CommandHost τ) {s : CommandWorld τ}
    (hs : Consistent s.workspace.limits s.workspace.state) {request : ExecuteRequest}
    {protection : CommandValueProtection} {deadline : ℚ} {item : PlanUnit} {cwd : SandboxPath}
    {environment : CommandEnvironment} {prepared : PreparedUnit (CommandWorld τ)}
    {stage : CommandResult} (hstage : Steady stage)
    (hdestination : item.redirection.mapM (fun redirection =>
      expandWord redirection.destination ⟨environment, request.overlay⟩ cwd) =
        .ok prepared.destination)
    {r : Except Raised UnitOutcome × CommandWorld τ}
    (hr : r = redirectUnit (executor host) request protection deadline item cwd environment prepared
      stage s) :
    (∀ outcome, r.1 = .ok outcome → Steady outcome.stage) ∧ (r.2.workspace = s.workspace ∨
      (prepared.redirectionAdmitted = true ∧ stage.failureCode ≠ some .pipelineLimitExceeded) ∧
      (∃ redirection ∈ item.redirection, ∃ destination,
        expandWord redirection.destination ⟨environment, request.overlay⟩ cwd = .ok destination ∧
        Redirected redirection.mode destination cwd stage.stdout s.workspace r.2.workspace) ∧
      ∀ outcome, r.1 = .ok outcome → outcome.stage.failureCode = stage.failureCode) := by
  unfold redirectUnit at hr
  cases hredirection : item.redirection with
  | none =>
    rw [hredirection] at hr
    subst hr
    exact ⟨fun outcome h => (Except.ok.inj h) ▸ hstage, .inl rfl⟩
  | some redirection =>
    rw [hredirection] at hr hdestination
    by_cases hadmitted : prepared.redirectionAdmitted = true ∧
        stage.failureCode ≠ some .pipelineLimitExceeded
    · simp only [if_pos hadmitted] at hr
      obtain ⟨hsteady, heffect⟩ := redirectTo_workspace host hs hstage hr
      refine ⟨hsteady, ?_⟩
      rcases heffect with hsame | ⟨⟨destination, hsome, hwritten⟩, hcode⟩
      · exact .inl hsame
      · refine .inr ⟨hadmitted, ⟨redirection, rfl, destination, ?_, hwritten⟩, hcode⟩
        rw [hsome] at hdestination
        obtain ⟨expanded, hexpanded, hsame⟩ := Except.bind_eq_ok_iff.mp hdestination
        cases hsame
        exact hexpanded
    · simp only [if_neg hadmitted] at hr
      subst hr
      exact ⟨fun outcome h => (Except.ok.inj h) ▸ hstage, .inl rfl⟩

end Unit

end CommandWorld

/-! ## Section 4: The whole unit -/

section Law

variable {τ : Type} [Sha256] [UnicodeLetters] [UnicodeData] [CommandRuntime]

open VirtualCommandExecutor CommandWorld

/-- What holds of one run of a unit by the profile of a workspace. -/
structure UnitLaw (host : CommandHost τ) (request : ExecuteRequest)
    (protection : CommandValueProtection) (deadline : ℚ) (item : PlanUnit) (cwd : SandboxPath)
    (environment : CommandEnvironment) (s : CommandWorld τ)
    (r : Except Raised UnitOutcome × CommandWorld τ) : Prop where
  /-- Nothing changed, or the destination holds the sanitized output. -/
  writes : r.2.workspace = s.workspace ∨ ∃ redirection ∈ item.redirection,
    ∃ destination prepared stage,
      expandWord redirection.destination ⟨environment, request.overlay⟩ cwd = .ok destination ∧
      (unitStage (executor host) request protection deadline item cwd environment s).1 =
        .ok (prepared, stage) ∧
      Redirected redirection.mode destination cwd stage.stdout s.workspace r.2.workspace
  /-- The failures that leave the workspace alone. -/
  fails : ∀ outcome, r.1 = .ok outcome →
    outcome.stage.failureCode = some .redirectionFailure ∨
      outcome.stage.failureCode = some .pipelineLimitExceeded ∨
      outcome.stage.failureCode = some .protectedValueRejected ∧
        protection.containsProtectedText (py ".") = false →
    r.2.workspace = s.workspace
  /-- The plan goes on with its directory and its environment. -/
  keeps : ∀ outcome, r.1 = .ok outcome → ∀ p p' : PlanState, p.record outcome = .ok p' →
    p'.cwd = p.cwd ∧ p'.environment = p.environment ∧ p'.allChanges = p.allChanges
  /-- A unit that is not admitted does the same whatever its commands execute. -/
  undispatched : (∀ destination prepared,
      item.redirection.mapM (fun redirection =>
        expandWord redirection.destination ⟨environment, request.overlay⟩ cwd) = .ok destination →
      ¬ UnitAdmitted (executor host).registry request.limits protection
        ⟨environment, request.overlay⟩ cwd item destination prepared) →
    ∀ handlers : Handlers (CommandWorld τ),
      runUnit { executor host with registry := (executor host).registry.withHandlers handlers }
        request protection deadline item cwd environment s = r

omit [Sha256] [UnicodeData] [CommandRuntime] in
/-- A unit that is not admitted runs no handler. -/
theorem runUnit_withHandlers {σ : Type} (executor : VirtualCommandExecutor σ)
    (request : ExecuteRequest) (protection : CommandValueProtection) (deadline : ℚ) (item : PlanUnit)
    (cwd : SandboxPath) (environment : CommandEnvironment)
    (h : ∀ destination prepared,
      item.redirection.mapM (fun redirection =>
        expandWord redirection.destination ⟨environment, request.overlay⟩ cwd) = .ok destination →
      ¬ UnitAdmitted executor.registry request.limits protection ⟨environment, request.overlay⟩ cwd
        item destination prepared) (handlers : Handlers σ) :
    runUnit { executor with registry := executor.registry.withHandlers handlers } request protection
        deadline item cwd environment =
      runUnit executor request protection deadline item cwd environment := by
  unfold runUnit
  dsimp only
  rw [prepareUnit_withHandlers]
  cases hprepared : prepareUnit executor.registry item request.limits
      ⟨environment, request.overlay⟩ cwd protection with
  | error e => rfl
  | ok prepared =>
    cases hfailure : prepared.failure with
    | none =>
      -- the preparation would have admitted the unit
      exact absurd ((prepareUnit_spec hprepared).2 hfailure)
        (h _ _ (prepareUnit_destination hprepared))
    | some failure =>
      obtain ⟨stages, destination, failure', redirectionAdmitted⟩ := prepared
      cases hfailure
      rfl

/-- A unit with several stages or a redirection touches only its destination. -/
theorem CommandWorld.runUnit_frame {limits : WorkspaceLimits} {s : CommandWorld τ}
    (hs : (MemoryWorkspace.system limits).Reachable s.workspace) (host : CommandHost τ)
    (request : ExecuteRequest) (protection : CommandValueProtection) (deadline : ℚ) {item : PlanUnit}
    (hitem : 1 < item.stages.length ∨ item.redirection.isSome) (cwd : SandboxPath)
    (environment : CommandEnvironment) :
    UnitLaw host request protection deadline item cwd environment s
      (runUnit (executor host) request protection deadline item cwd environment s) := by
  have hconsistent := (MemoryWorkspace.reachable_sound hs).1.state
  have hrun := congrFun (runUnit_eq (executor host) request protection deadline item cwd environment) s
  have hframes : Call.Frames (workspace : CommandWorld τ → MemoryWorkspace)
      (unitStage (executor host) request protection deadline item cwd environment)
      fun parts => SettledStage protection parts.1 parts.2 ∧
        item.redirection.mapM (fun redirection =>
          expandWord redirection.destination ⟨environment, request.overlay⟩ cwd) =
            .ok parts.1.destination :=
    frames_unitStage (readsOnly_reader host) (runtimeFrames_runtime host) hitem
  obtain ⟨hsame, hsettled⟩ := hframes s
  have hundispatched := runUnit_withHandlers (executor host) request protection deadline item cwd
    environment
  rcases hstage : unitStage (executor host) request protection deadline item cwd environment s with
    ⟨e | ⟨prepared, stage⟩, s₁⟩
  · -- the unit raised before its redirection
    rw [hstage] at hsame
    rw [Call.bind_of_error hstage] at hrun
    have hworkspace : (runUnit (executor host) request protection deadline item cwd environment s).2.workspace =
        s.workspace := (congrArg (·.2.workspace) hrun).trans hsame
    exact {
      writes := .inl hworkspace
      fails := fun _ _ _ => hworkspace
      keeps := fun outcome houtcome => nomatch (congrArg Prod.fst hrun).symm.trans houtcome
      undispatched := fun h handlers => congrFun (hundispatched h handlers) s }
  · rw [hstage] at hsame hsettled
    obtain ⟨hstage', hdestination⟩ := hsettled _ rfl
    rw [Call.bind_of_ok hstage] at hrun
    have hconsistent₁ : MemoryWorkspace.Consistent s₁.workspace.limits s₁.workspace.state := by
      rw [show s₁.workspace = s.workspace from hsame]
      exact hconsistent
    obtain ⟨hsteady, heffect⟩ := redirectUnit_workspace host hconsistent₁
      ⟨hstage'.cwd, hstage'.changes⟩ hdestination hrun
    rw [show s₁.workspace = s.workspace from hsame] at heffect
    refine ⟨?_, fun outcome houtcome hcode => ?_, fun outcome houtcome p p' hrecord => ?_,
      fun h handlers => congrFun (hundispatched h handlers) s⟩
    · rcases heffect with hsame | ⟨-, ⟨redirection, hmem, destination, hexpand, hwritten⟩, -⟩
      · exact .inl hsame
      · exact .inr ⟨redirection, hmem, destination, prepared, stage, hexpand, congrArg Prod.fst hstage,
          hwritten⟩
    · rcases heffect with hsame | ⟨⟨hadmitted, hlimit⟩, -, hkeeps⟩
      · exact hsame
      · -- a stage that was redirected has none of these failures
        rw [hkeeps outcome houtcome] at hcode
        rcases hcode with hcode | hcode | ⟨hcode, hdot⟩
        · rcases hstage'.code _ hcode with hreading | hcontra | hcontra | ⟨hcontra, -⟩
          · simp [readingFailures] at hreading
          · cases hcontra
          · cases hcontra
          · cases hcontra
        · exact absurd hcode hlimit
        · rcases hstage'.code _ hcode with hreading | hcontra | hcontra | ⟨-, hrejected | hprotected⟩
          · simp [readingFailures] at hreading
          · cases hcontra
          · cases hcontra
          · rw [hadmitted] at hrejected
            cases hrejected
          · rw [hdot] at hprotected
            cases hprotected
    · obtain ⟨hcwd, hchanges⟩ := hsteady outcome houtcome
      obtain ⟨-, -, hcwd', hchanges', henvironment⟩ := PlanState.record_eq_ok hrecord
      rw [hcwd] at hcwd'
      rw [hchanges] at hchanges' henvironment
      refine ⟨?_, ?_, ?_⟩
      · rw [hcwd']
        split <;> rfl
      · simpa using henvironment
      · rw [hchanges']
        split
        · exact List.append_nil _
        · rfl

end Law

/-! ## Section 5: A listing whose own operand is protected -/

namespace CommandWorld

open VirtualCommandExecutor NewWorkspace

/-- A runtime without regular expressions. -/
abbrev plainRuntime : CommandRuntime where
  isDigit := isAsciiDecimal
  compile _ _ := .invalid []
  fnmatchcase _ _ := false
  frames := 0

/-- A host whose clock stands still. -/
def stillHost : CommandHost Unit where
  runtime := ⟨pure 0, pure false, pure false, pure false, pure 0⟩
  acquireLock := pure ()

/-- A new workspace and its host. -/
def newWorld : CommandWorld Unit := ⟨NewWorkspace.workspace .default, ()⟩

/-- The protection of the single value `"."`. -/
def dotProtection : CommandValueProtection where
  redactText text := replace text (py ".") (py "[REDACTED]")
  containsProtectedText text := contains (py ".") text

/-- A word without quotes. -/
def plainWord (text : Text) : CommandWord := ⟨[⟨text, false⟩]⟩

/-- `ls > out` -/
def listingUnit : PlanUnit where
  connector := .always
  stages := [⟨[plainWord (py "ls")], List.cons_ne_nil _ _⟩]
  redirection := some ⟨.replace, plainWord (py "out")⟩
  nonempty := List.cons_ne_nil _ _

theorem nothing_revealed :
    CommandEnvironmentOverlay.empty.entries.length ≤ CommandLimits.default.maxSecretBindings :=
  Nat.zero_le _

def listingRequest : ExecuteRequest :=
  ⟨py "ls > out", SandboxPath.root, ⟨[], List.nodup_nil⟩, .default, .empty, nothing_revealed⟩

/-- The run of `ls > out` in a new workspace. -/
def listingRun (protection : CommandValueProtection) :
    Except Raised UnitOutcome × CommandWorld Unit :=
  @runUnit _ asciiLetters (@executor Unit _ stillHost _ plainRuntime) listingRequest protection 1
    listingUnit SandboxPath.root ⟨[], List.nodup_nil⟩ newWorld

/-- The files of a new workspace are listed into a new file. -/
theorem runUnit_frame_listing :
    @UnitLaw Unit _ asciiLetters _ plainRuntime stillHost listingRequest .noOp 1 listingUnit
      SandboxPath.root ⟨[], List.nodup_nil⟩ newWorld (listingRun .noOp) :=
  @runUnit_frame Unit _ asciiLetters _ plainRuntime .default newWorld (NewWorkspace.reachable .default)
    stillHost listingRequest .noOp 1 listingUnit (.inr rfl) SandboxPath.root ⟨[], List.nodup_nil⟩


/-- A rejected value does not always leave the workspace alone: `ls` rejects
    its own operand, and the redirection is written all the same. -/
theorem runUnit_rejected_writes :
    ¬ ∀ (protection : CommandValueProtection) (outcome : UnitOutcome),
      (listingRun protection).1 = .ok outcome →
      outcome.stage.failureCode = some .protectedValueRejected →
      (listingRun protection).2.workspace = newWorld.workspace := by
  intro hclaim
  have hcode : (listingRun dotProtection).1.toOption.map (fun outcome => outcome.stage.failureCode) =
      some (some .protectedValueRejected) := by
    decide +kernel
  obtain ⟨outcome, houtcome, hcode⟩ := Option.map_eq_some_iff.mp hcode
  have hok : (listingRun dotProtection).1 = .ok outcome := by
    cases hrun : (listingRun dotProtection).1 with
    | ok other =>
      rw [hrun] at houtcome
      cases houtcome
      rfl
    | error e =>
      rw [hrun] at houtcome
      cases houtcome
  have hsame := congrArg (·.state.stats.revision) (hclaim dotProtection outcome hok hcode)
  have hwritten : (listingRun dotProtection).2.workspace.state.stats.revision = 1 := by
    decide +kernel
  rw [hwritten] at hsame
  cases hsame

end CommandWorld
