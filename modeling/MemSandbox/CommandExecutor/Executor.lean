import MemSandbox.CommandExecutor.Output
import MemSandbox.CommandExecutor.Registry
import MemSandbox.Lib.Dict
import MemSandbox.Lib.Sorted

/-! # The executor of the command language

    `command_executor/executor.py`: the units of a plan are prepared, run,
    sanitized and redirected one after the other.

    The commands, the redirection port and what the event loop tells are
    calls on a state of which nothing is assumed: it holds the workspace, the
    clock and whatever else they read. -/

open Python

/-- What the executor asks the event loop and its caller, with one context. -/
structure ExecutionRuntime (σ : Type) where
  /-- `asyncio.get_running_loop().time()`. -/
  time : Call σ Raised ℚ
  /-- `asyncio.current_task().cancelling()`. -/
  cancelling : Call σ Raised Bool
  /-- `context.cancellation.is_set()`, false without a signal. -/
  cancellationIsSet : Call σ Raised Bool
  /-- The scope of `asyncio.timeout_at` was cancelled by its own timer. -/
  expired : Call σ Raised Bool
  /-- `time.perf_counter()`. -/
  perfCounter : Call σ Raised ℚ

/-- `VirtualCommandExecutor`, in one runtime. -/
structure VirtualCommandExecutor (σ : Type) where
  registry : CommandRegistry σ
  redirectionMutator : CommandWorkspaceMutator σ
  runtime : ExecutionRuntime σ

/-- `_PreparedStage`. -/
structure PreparedStage (σ : Type) where
  argv : List Text
  command : VirtualCommand σ

/-- `_PreparedUnit`. -/
structure PreparedUnit (σ : Type) where
  stages : List (PreparedStage σ)
  destination : Option Text
  failure : Option CommandResult
  redirectionAdmitted : Bool

/-- The classes of `_EXPECTED_WORKSPACE_FAILURES`. -/
def isExpectedWorkspaceFailure (cls : ErrorClass) : Bool :=
  cls.category ∈ [some .invalidRequest, some .notFound, some .conflict, some .quotaExceeded,
    some .unsupported]

/-- `argv[0]`. -/
def commandName : List Text → Except PyError Text
  | name :: _ => .ok name
  | [] => raise .indexError (py "tuple index out of range")

/-- `_diagnostic_command_name`. -/
def diagnosticCommandName (value : Text) : Text :=
  if ValidUtf8 value then value else py "command"

/-! ## Section 1: The environment -/

/-- One turn of the loop of `_apply_environment_changes`. -/
def applyChange (current : List (Text × Text)) (change : EnvironmentChange) : List (Text × Text) :=
  match change.value with
  | none => Dict.erase change.name current
  | some value => Dict.set change.name value current

/-- The assignments of an environment, by name. -/
def CommandEnvironment.items (environment : CommandEnvironment) : List (Text × Text) :=
  environment.values.map fun item => (item.name, item.value)

/-- `CommandEnvironment` of the sorted items of a `dict`; its names differ, so
    the values take no part in the order. -/
def CommandEnvironment.ofItems (current : List (Text × Text)) :
    Except PyError CommandEnvironment := do
  let values ← (sorted Prod.fst current).mapM fun item => EnvironmentValue.new item.1 item.2
  CommandEnvironment.new values

namespace VirtualCommandExecutor

/-- `_apply_environment_changes`. -/
def applyEnvironmentChanges (environment : CommandEnvironment) (changes : List EnvironmentChange) :
    Except PyError CommandEnvironment :=
  CommandEnvironment.ofItems (changes.foldl applyChange environment.items)

/-! ## Section 2: Results that keep nothing protected -/

/-- `_protected_failure`. -/
def protectedFailure (name : Text) (protection : CommandValueProtection) :
    Except PyError CommandResult :=
  CommandResult.failure 1 .protectedValueRejected
    (protection.redactText name ++ py ": protected values cannot be persisted\n")

/-- The condition on a change in the loop of `_sanitize_stage`. -/
def isProtectedChange (protection : CommandValueProtection) (environment : CommandEnvironmentView)
    (change : EnvironmentChange) : Except PyError Bool :=
  if protection.containsProtectedText change.name then
    .ok true
  else do
    if ← environment.isOverlayName change.name then
      return true
    else
      return change.value.any protection.containsProtectedText

/-- `_sanitize_stage`. -/
def sanitizeStage (stage : CommandResult) (name : Text) (protection : CommandValueProtection)
    (environment : CommandEnvironmentView) : Except PyError CommandResult := do
  if stage.resultingCwd.any fun cwd => protection.containsProtectedText cwd.value then
    protectedFailure name protection
  else if ← stage.environmentChanges.anyM (isProtectedChange protection environment) then
    protectedFailure name protection
  else
    CommandResult.new stage.exitCode stage.failureCode (protection.redactText stage.stdout)
      (protection.redactText stage.stderr) stage.resultingCwd stage.environmentChanges

/-! ## Section 3: Preparation -/

/-- `_expanded_argument_error`, of the arguments and the destination. -/
def expandedArgumentError (limits : CommandLimits) (protection : CommandValueProtection) :
    List Text → Option Text
  | [] => none
  | argument :: rest =>
    match utf8Length argument with
    | none => some (py "expanded argument must be valid UTF-8")
    | some size =>
      if size > limits.maxArgumentBytes then
        if protection.containsProtectedText argument then
          some (py "expanded protected argument exceeds the configured limit")
        else
          some (py "expanded argument contains " ++ Text.ofNat size ++ py " bytes; limit is " ++
            Text.ofNat limits.maxArgumentBytes)
      else
        expandedArgumentError limits protection rest

/-- The local variables of `_prepare_unit`. -/
structure Preparation (σ : Type) where
  prepared : List (PreparedStage σ)
  firstFailure : Option CommandResult
  finalCommand : Option (VirtualCommand σ)
  finalArgv : List Text
  redirectionAdmitted : Bool

namespace Preparation

variable {σ : Type}

/-- `if first_failure is None: first_failure = …`. -/
def fail (p : Preparation σ) (failure : Except PyError CommandResult) :
    Except PyError (Preparation σ) :=
  match p.firstFailure with
  | some _ => .ok p
  | none => do
    let failure ← failure
    return { p with firstFailure := some failure }

/-- `redirection_admitted = False`. -/
def reject (p : Preparation σ) : Preparation σ := { p with redirectionAdmitted := false }

/-- A failed check, which also keeps the redirection from being written. -/
def failWhen (p : Preparation σ) (condition : Bool) (failure : Except PyError CommandResult) :
    Except PyError (Preparation σ) :=
  if condition then p.reject.fail failure else .ok p

end Preparation

/-- The failure of a unit with a protected argument or destination. -/
def protectedArgument : Except PyError CommandResult :=
  CommandResult.failure 1 .protectedValueRejected
    (py "command: protected command arguments are not permitted\n")

variable {σ : Type} [UnicodeLetters]

section Prepare

variable (registry : CommandRegistry σ) (limits : CommandLimits)
  (protection : CommandValueProtection) (environment : CommandEnvironmentView)
  (cwd : SandboxPath) (destination : Option Text) (isPipeline : Bool)

/-- One turn of the loop of `_prepare_unit`, past the check for protected
    arguments. -/
def admitStage (first last : Bool) (argv : List Text) (p : Preparation σ) :
    Except PyError (Preparation σ) := do
  let p ←
    (match expandedArgumentError limits protection
      (argv ++ if last then destination.toList else []) with
    | none => pure p
    | some message => do
      let name ← commandName argv
      p.reject.fail (CommandResult.failure 2 .invalidArgument
        (diagnosticCommandName name ++ py ": " ++ message ++ py "\n")))
  let name ← commandName argv
  match registry.resolve name with
  | none => p.fail (CommandResult.failure 127 .commandNotFound (name ++ py ": command not found\n"))
  | some command => do
    let p := if last then { p with finalCommand := some command } else p
    let p ← p.failWhen (isPipeline && !command.descriptor.pipelineSafe)
      (CommandResult.failure 2 .invalidArgument
        (name ++ py ": command is not permitted in pipelines\n"))
    let p ← p.failWhen (!first && !command.descriptor.acceptsStdin)
      (CommandResult.failure 2 .invalidArgument
        (name ++ py ": command does not accept pipeline input\n"))
    return { p with prepared := p.prepared ++ [⟨argv, command⟩] }

/-- The loop of `_prepare_unit`; `first` tells `index = 0`. -/
def prepareStages (first : Bool) : List CommandStage → Preparation σ →
    Except PyError (Preparation σ)
  | [], p => .ok p
  | stage :: rest, p => do
    let argv ← stage.words.mapM fun word => expandWord word environment cwd
    let p := if rest = [] then { p with finalArgv := argv } else p
    let p ←
      (if argv.any protection.containsProtectedText then
        p.reject.fail protectedArgument
      else
        admitStage registry limits protection destination isPipeline first (rest = []) argv p)
    prepareStages false rest p

end Prepare

/-- `_prepare_unit`. -/
def prepareUnit (registry : CommandRegistry σ) (item : PlanUnit) (limits : CommandLimits)
    (environment : CommandEnvironmentView) (cwd : SandboxPath)
    (protection : CommandValueProtection) : Except PyError (PreparedUnit σ) := do
  let destination ← item.redirection.mapM fun redirection =>
    expandWord redirection.destination environment cwd
  let start : Preparation σ := ⟨[], none, none, [], true⟩
  let start ← start.failWhen (destination.any protection.containsProtectedText) protectedArgument
  let p ← prepareStages registry limits protection environment cwd destination
    (decide (item.stages.length > 1)) true item.stages start
  if item.redirection.isSome &&
      p.finalCommand.any fun command => !command.descriptor.permitsStdoutRedirection then do
    let failure ←
      (match p.firstFailure.filter fun failure => failure.failureCode = some .protectedValueRejected with
      | some failure => pure failure
      | none => do
        let name ← commandName p.finalArgv
        CommandResult.failure 2 .invalidArgument
          (name ++ py ": stdout redirection is not permitted\n"))
    return ⟨p.prepared, destination, some failure, false⟩
  else
    return ⟨p.prepared, destination, p.firstFailure, p.redirectionAdmitted⟩

/-! ## Section 4: Execution of one unit -/

/-- `_check_execution_state`. -/
def checkExecutionState (runtime : ExecutionRuntime σ) (deadline : ℚ) : Call σ Raised Unit := do
  if (← runtime.time) ≥ deadline then
    throw (.of .commandTimeout (py "command execution exceeded the complete-plan timeout"))
  if ← runtime.cancelling then
    throw .cancelledError
  if ← runtime.cancellationIsSet then
    throw (.of .commandCancelled (py "command execution was cancelled"))

/-- The code of the executor itself raises exceptions only. -/
def lift {α : Type} (x : Except PyError α) : Call σ Raised α :=
  liftM (x.mapError Raised.error)

/-- The `except` clauses of `_dispatch`. -/
def handlerFailure (descriptor : CommandDescriptor) (protection : CommandValueProtection) :
    Raised → Raised
  | .error e =>
    if protection.containsProtectedText e.message then
      .of .commandInternalFailure (py "command handler " ++ descriptor.name ++
        py " failed with protected error data")
    else if e.cls.isSandboxError then
      .error e
    else
      .of .commandInternalFailure (py "command handler " ++ descriptor.name ++
        py " failed unexpectedly")
  | .cancelledError => .cancelledError
  | .exit => .exit

/-- `_dispatch`. -/
def dispatch (prepared : PreparedStage σ) (stdin : Text) (stdinConnected : Bool)
    (environment : CommandEnvironmentView) (cwd : SandboxPath)
    (protection : CommandValueProtection) : Call σ Raised CommandResult := do
  let result ← tryCatch
    (do
      let request ← lift (CommandRequest.new prepared.argv stdin stdinConnected)
      prepared.command.execute request ⟨cwd, environment, protection⟩)
    (fun e => throw (handlerFailure prepared.command.descriptor protection e))
  lift (sanitizeStage result prepared.command.descriptor.name protection environment)

/-- The local variables of `_execute_unit`. -/
structure PipelineState where
  intermediateBytes : Nat
  previousStdout : Text
  combinedStderr : List Text
  effectiveExit : Nat
  effectiveFailure : Option CommandFailureCode

/-- `len(text.encode("utf-8"))`. -/
def encodedLength (text : Text) : Except PyError Nat :=
  match utf8Length text with
  | some size => .ok size
  | none => raise .unicodeEncodeError (py "surrogates not allowed")

section Run

variable (runtime : ExecutionRuntime σ) (limits : CommandLimits)
  (protection : CommandValueProtection) (environment : CommandEnvironmentView)
  (cwd : SandboxPath) (deadline : ℚ)

/-- The loop of `_execute_unit` over the stages of a pipeline. -/
def executePipeline (first : Bool) : List (PreparedStage σ) → PipelineState →
    Call σ Raised CommandResult
  | [], p => lift (CommandResult.new p.effectiveExit p.effectiveFailure [] p.combinedStderr.flatten
      none [])
  | stage :: rest, p => do
    checkExecutionState runtime deadline
    let result ← dispatch stage (if first then [] else p.previousStdout) (!first) environment cwd
      protection
    checkExecutionState runtime deadline
    if result.resultingCwd.isSome || !result.environmentChanges.isEmpty then
      throw (.of .commandInternalFailure (py "pipeline-safe command " ++
        stage.command.descriptor.name ++ py " attempted to change execution state"))
    let p := { p with combinedStderr := p.combinedStderr ++ [result.stderr] }
    let p :=
      if result.exitCode ≠ 0 then
        { p with effectiveExit := result.exitCode, effectiveFailure := result.failureCode }
      else
        p
    if rest.isEmpty then
      lift (CommandResult.new p.effectiveExit p.effectiveFailure result.stdout
        p.combinedStderr.flatten none [])
    else do
      let stageBytes ← lift (encodedLength result.stdout)
      let p := { p with intermediateBytes := p.intermediateBytes + stageBytes }
      if stageBytes > limits.maxPipelineIntermediateBytes ∨
          p.intermediateBytes > limits.maxPipelineAggregateBytes then do
        let name ← lift (commandName stage.argv)
        lift (CommandResult.failure 1 .pipelineLimitExceeded (p.combinedStderr.flatten ++ name ++
          py ": pipeline intermediate output exceeds the configured limit\n"))
      else
        executePipeline false rest { p with previousStdout := result.stdout }

/-- `_execute_unit`. -/
def executeUnit (prepared : PreparedUnit σ) : Call σ Raised CommandResult :=
  match prepared.stages with
  | [stage] => dispatch stage [] false environment cwd protection
  | stages =>
    executePipeline runtime limits protection environment cwd deadline true stages ⟨0, [], [], 0, none⟩

end Run

/-- The `except` clauses of `_apply_redirection`; an expected failure becomes
    the result of the unit. -/
def redirectionFailure (name : Text) (stage : CommandResult) :
    Raised → Call σ Raised CommandResult
  | .error e =>
    if isExpectedWorkspaceFailure e.cls then
      lift (CommandResult.failure 1 .redirectionFailure
        (stage.stderr ++ name ++ py ": redirection failed: " ++ e.message ++ py "\n"))
    else if e.cls.isSandboxError then
      throw (.error e)
    else
      throw (.of .commandInternalFailure (py "stdout redirection failed unexpectedly"))
  | .cancelledError => throw .cancelledError
  | .exit => throw .exit

/-- The body of the `try` statement of `_apply_redirection`. -/
def writeRedirected (mutator : CommandWorkspaceMutator σ) (destination : Text)
    (mode : RedirectionMode) (cwd : SandboxPath) (stdout : Text) : Call σ Raised Unit := do
  let path ← mutator.resolvePath destination cwd
  let content ← lift
    (match encodeUtf8 stdout with
    | some content => .ok content
    | none => raise .unicodeEncodeError (py "surrogates not allowed"))
  match mode with
  | .replace => do
    let _ ← mutator.write { path, content, precondition := .anyCurrentState }
    return ()
  | .append => do
    let _ ← mutator.append { path, content, precondition := .anyCurrentState }
    return ()

/-- `_apply_redirection`. -/
def applyRedirection (mutator : CommandWorkspaceMutator σ) (name destination : Text)
    (mode : RedirectionMode) (cwd : SandboxPath) (stage : CommandResult) (limits : CommandLimits)
    (protection : CommandValueProtection) : Call σ Raised CommandResult := do
  if protection.containsProtectedText destination then
    lift (protectedFailure name protection)
  else
    let bounded ← lift (boundText stage.stdout limits.maxStdoutBytes limits.stdout_pos)
    if bounded.truncated then
      lift (CommandResult.failure 1 .redirectionFailure
        (stage.stderr ++ name ++ py ": redirected stdout exceeds the output limit\n"))
    else
      let failure ← tryCatch
        (do
          writeRedirected mutator destination mode cwd stage.stdout
          return none)
        (fun e => do return some (← redirectionFailure name stage e))
      match failure with
      | some failure => return failure
      | none => lift (CommandResult.new stage.exitCode stage.failureCode [] stage.stderr
          stage.resultingCwd stage.environmentChanges)

/-! ## Section 5: Execution of a plan -/

/-- What a unit of the plan came to: the stage, and whether its output went
    to a redirection. -/
structure UnitOutcome where
  stage : CommandResult
  redirected : Bool

/-- The local variables of `_execute_plan`. -/
structure PlanState where
  stdout : BoundedOutputCollector
  stderr : BoundedOutputCollector
  cwd : SandboxPath
  environment : CommandEnvironment
  allChanges : List EnvironmentChange
  lastResult : CommandResult
  lastExit : Nat
  executed : Bool

/-- The state in which `_execute_plan` enters its loop. -/
def PlanState.initial (request : ExecuteRequest) : PlanState where
  stdout := .new request.limits.maxStdoutBytes request.limits.stdout_pos
  stderr := .new request.limits.maxStderrBytes request.limits.stderr_pos
  cwd := request.cwd
  environment := request.environment
  allChanges := []
  lastResult := .success
  lastExit := 0
  executed := false

section Plan

variable (executor : VirtualCommandExecutor σ) (request : ExecuteRequest)
  (protection : CommandValueProtection) (deadline : ℚ)

/-- The body of the loop of `_execute_plan`, up to the collectors. -/
def runUnit (item : PlanUnit) (cwd : SandboxPath) (environment : CommandEnvironment) :
    Call σ Raised UnitOutcome := do
  checkExecutionState executor.runtime deadline
  let view : CommandEnvironmentView := ⟨environment, request.overlay⟩
  let prepared ← lift (prepareUnit executor.registry item request.limits view cwd protection)
  let stage ←
    (match prepared.failure with
    | some failure => pure failure
    | none => executeUnit executor.runtime request.limits protection view cwd deadline prepared)
  let stage ← lift (sanitizeStage stage (py "command") protection view)
  checkExecutionState executor.runtime deadline
  match item.redirection with
  | none => return ⟨stage, false⟩
  | some redirection =>
    if prepared.redirectionAdmitted ∧ stage.failureCode ≠ some .pipelineLimitExceeded then do
      let destination ← lift
        (match prepared.destination with
        | some destination => .ok destination
        | none => raise .assertionError [])
      let word ← lift
        (match (item.stages.getLast item.nonempty).words with
        | word :: _ => .ok word
        | [] => raise .indexError (py "tuple index out of range"))
      let name ← lift (expandWord word view cwd)
      let name := diagnosticCommandName name
      let stage ← applyRedirection executor.redirectionMutator name destination redirection.mode cwd
        stage request.limits protection
      let stage ← lift (sanitizeStage stage name protection view)
      checkExecutionState executor.runtime deadline
      return ⟨stage, true⟩
    else
      return ⟨stage, false⟩

/-- `stdout.append(stage.stdout)`, of a unit without redirection. -/
def UnitOutcome.appendStdout (outcome : UnitOutcome) (stdout : BoundedOutputCollector) :
    Except PyError BoundedOutputCollector :=
  if outcome.redirected then .ok stdout else stdout.append outcome.stage.stdout

/-- The rest of the loop's body: the streams, and the changes of a unit that
    exited with zero. -/
def PlanState.record (p : PlanState) (outcome : UnitOutcome) : Except PyError PlanState := do
  let stage := outcome.stage
  let stdout ← outcome.appendStdout p.stdout
  let stderr ← p.stderr.append stage.stderr
  let p := { p with stdout, stderr, executed := true, lastResult := stage, lastExit := stage.exitCode }
  if stage.exitCode = 0 then do
    let p := { p with cwd := stage.resultingCwd.getD p.cwd }
    if stage.environmentChanges.isEmpty then
      return p
    else do
      let environment ← applyEnvironmentChanges p.environment stage.environmentChanges
      return { p with environment, allChanges := p.allChanges ++ stage.environmentChanges }
  else
    return p

/-- The loop of `_execute_plan`. -/
def executeUnits : List PlanUnit → PlanState → Call σ Raised PlanState
  | [], p => return p
  | item :: rest, p =>
    if item.connector = .onSuccess ∧ p.lastExit ≠ 0 then
      executeUnits rest p
    else do
      let outcome ← runUnit executor request protection deadline item p.cwd p.environment
      let p ← lift (p.record outcome)
      executeUnits rest p

/-- What `_execute_plan` returns after the loop. -/
def PlanState.result (p : PlanState) : Except PyError ExecuteResult := do
  require (p.executed = true) .assertionError []
  ExecuteResult.new p.lastResult.exitCode p.lastResult.failureCode p.stdout.result p.stderr.result 0
    p.cwd p.allChanges

/-- `_execute_plan`. -/
def executePlan (units : List PlanUnit) : Call σ Raised ExecuteResult := do
  let p ← executeUnits executor request protection deadline units (PlanState.initial request)
  lift p.result

end Plan

/-- `_validate_plan_structure`. -/
def validatePlanStructure (units : List PlanUnit) (limits : CommandLimits) : Except PyError Unit :=
  units.forM fun unit => do
    require (unit.stages.length ≤ limits.maxPipelineStages) .commandSyntaxInvalid
      (py "pipeline has " ++ Text.ofNat unit.stages.length ++ py " stages; limit is " ++
        Text.ofNat limits.maxPipelineStages)
    unit.stages.forM fun stage =>
      require (stage.words.length ≤ limits.maxArgvEntries) .commandSyntaxInvalid
        (py "command has " ++ Text.ofNat stage.words.length ++ py " argv entries; limit is " ++
          Text.ofNat limits.maxArgvEntries)

/-- `async with asyncio.timeout_at(deadline)`, within `except TimeoutError`. -/
def timeoutScope {α : Type} (runtime : ExecutionRuntime σ) (body : Call σ Raised α) :
    Call σ Raised α :=
  let timeout : Raised :=
    .of .commandTimeout (py "command execution exceeded the complete-plan timeout")
  tryCatch body fun
    | .cancelledError => do if ← runtime.expired then throw timeout else throw .cancelledError
    | .error e => if e.cls = .timeoutError then throw timeout else throw (.error e)
    | .exit => throw .exit

/-- `VirtualCommandExecutor.execute`. -/
def execute (executor : VirtualCommandExecutor σ) (request : ExecuteRequest)
    (protection : CommandValueProtection) : Call σ Raised ExecuteResult := do
  let commandBytes ← lift
    (match utf8Length request.command with
    | some size => .ok size
    | none => raise .commandSyntaxInvalid (py "command text must be valid UTF-8"))
  lift (require (commandBytes ≤ request.limits.maxCommandBytes) .commandTooLong
    (py "command contains " ++ Text.ofNat commandBytes ++ py " bytes; limit is " ++
      Text.ofNat request.limits.maxCommandBytes ++ py " bytes"))
  let plan ← lift (parseExecutionPlan request.command)
  lift (validatePlanStructure plan.units request.limits)
  let started ← executor.runtime.perfCounter
  let now ← executor.runtime.time
  let deadline := now + request.limits.timeoutSeconds
  let result ← timeoutScope executor.runtime
    (executePlan executor request protection deadline plan.units)
  let stopped ← executor.runtime.perfCounter
  lift (ExecuteResult.new result.exitCode result.failureCode result.stdout result.stderr
    ((stopped - started) * 1000) result.resultingCwd result.environmentChanges)

end VirtualCommandExecutor
