import MemSandbox.CommandExecutor.Output
import MemSandbox.CommandExecutor.Parser
import MemSandbox.Lib.Effect

/-! # Commands

    What the executor and the commands exchange: the results, requests and
    contexts of `command_executor/models.py`, the workspace ports of
    `ports.py` and the lookup of `registry.py`.

    A command is code of its own.  It runs on a state of which nothing is
    assumed, and returns or raises anything. -/

open Python

/-! ## Section 1: Results -/

/-- Stable normal command failure categories. -/
inductive CommandFailureCode where
  | commandNotFound
  | invalidArgument
  | noMatch
  | workspaceFailure
  | pipelineLimitExceeded
  | redirectionFailure
  | protectedValueRejected
  deriving DecidableEq, Repr

/-- An explicit environment assignment, or a removal. -/
structure EnvironmentChange where
  name : Text
  value : Option Text
  name_syntax : isEnvironmentName name = true
  utf8 : ∀ text ∈ value, ValidUtf8 text

/-- What `_require_result_fields` checks. -/
structure ResultFields (exitCode : Nat) (failureCode : Option CommandFailureCode)
    (stdout stderr : Text) : Prop where
  failed_iff : exitCode = 0 ↔ failureCode = none
  stdout_utf8 : ValidUtf8 stdout
  stderr_utf8 : ValidUtf8 stderr

/-- `_require_result_fields`. -/
def requireResultFields (exitCode : Nat) (failureCode : Option CommandFailureCode)
    (stdout stderr : Text) :
    Except PyError (PLift (ResultFields exitCode failureCode stdout stderr)) := do
  let success ← ensure (exitCode = 0 → failureCode = none) .valueError
    (py "successful results must not have a failure code")
  let failure ← ensure (exitCode ≠ 0 → failureCode ≠ none) .valueError
    (py "non-zero results must have a failure code")
  let stdout_utf8 ← ensure (ValidUtf8 stdout) .valueError (py "stdout must be valid UTF-8 text")
  let stderr_utf8 ← ensure (ValidUtf8 stderr) .valueError (py "stderr must be valid UTF-8 text")
  return ⟨⟨success.down, fun h => by_contra fun hne => failure.down hne h⟩, stdout_utf8.down,
    stderr_utf8.down⟩

/-- One pipeline-ready stage result and explicit state transition. -/
structure CommandResult where
  exitCode : Nat
  failureCode : Option CommandFailureCode
  stdout : Text
  stderr : Text
  resultingCwd : Option SandboxPath
  environmentChanges : List EnvironmentChange
  fields : ResultFields exitCode failureCode stdout stderr

namespace CommandResult

/-- `CommandResult(...)`. -/
def new (exitCode : Nat) (failureCode : Option CommandFailureCode) (stdout stderr : Text)
    (resultingCwd : Option SandboxPath) (environmentChanges : List EnvironmentChange) :
    Except PyError CommandResult := do
  let fields ← requireResultFields exitCode failureCode stdout stderr
  return ⟨exitCode, failureCode, stdout, stderr, resultingCwd, environmentChanges, fields.down⟩

/-- A failed result, without a state transition. -/
def failure (exitCode : Nat) (failureCode : CommandFailureCode) (stderr : Text) :
    Except PyError CommandResult := new exitCode (some failureCode) [] stderr none []

/-- `CommandResult.success()`. -/
def success : CommandResult where
  exitCode := 0
  failureCode := none
  stdout := []
  stderr := []
  resultingCwd := none
  environmentChanges := []
  fields := ⟨Iff.intro (fun _ => rfl) fun _ => rfl, rfl, rfl⟩

theorem new_eq_ok {exitCode : Nat} {failureCode : Option CommandFailureCode} {stdout stderr : Text}
    {resultingCwd : Option SandboxPath} {environmentChanges : List EnvironmentChange}
    {result : CommandResult}
    (h : new exitCode failureCode stdout stderr resultingCwd environmentChanges = .ok result) :
    result.exitCode = exitCode ∧ result.failureCode = failureCode ∧ result.stdout = stdout ∧
      result.stderr = stderr ∧ result.resultingCwd = resultingCwd ∧
      result.environmentChanges = environmentChanges := by
  obtain ⟨fields, -, h⟩ := Except.bind_eq_ok_iff.mp h
  cases h
  exact ⟨rfl, rfl, rfl, rfl, rfl, rfl⟩

end CommandResult

/-- Normal completion, including structured non-zero command status; `stdout`
    and `stderr` stand for the three fields of each stream. -/
structure ExecuteResult where
  exitCode : Nat
  failureCode : Option CommandFailureCode
  stdout : BoundedText
  stderr : BoundedText
  durationMs : ℚ
  resultingCwd : SandboxPath
  environmentChanges : List EnvironmentChange
  fields : ResultFields exitCode failureCode stdout.text stderr.text
  duration_nonneg : 0 ≤ durationMs

/-- `ExecuteResult(...)`. -/
def ExecuteResult.new (exitCode : Nat) (failureCode : Option CommandFailureCode)
    (stdout stderr : BoundedText) (durationMs : ℚ) (resultingCwd : SandboxPath)
    (environmentChanges : List EnvironmentChange) : Except PyError ExecuteResult := do
  let fields ← requireResultFields exitCode failureCode stdout.text stderr.text
  let duration_nonneg ← ensure (0 ≤ durationMs) .valueError
    (py "duration_ms must be non-negative and finite")
  return ⟨exitCode, failureCode, stdout, stderr, durationMs, resultingCwd, environmentChanges,
    fields.down, duration_nonneg.down⟩

theorem ExecuteResult.new_eq_ok {exitCode : Nat} {failureCode : Option CommandFailureCode}
    {stdout stderr : BoundedText} {durationMs : ℚ} {resultingCwd : SandboxPath}
    {environmentChanges : List EnvironmentChange} {result : ExecuteResult}
    (h : new exitCode failureCode stdout stderr durationMs resultingCwd environmentChanges =
      .ok result) :
    result.exitCode = exitCode ∧ result.failureCode = failureCode ∧ result.stdout = stdout ∧
      result.stderr = stderr ∧ result.durationMs = durationMs ∧
      result.resultingCwd = resultingCwd ∧ result.environmentChanges = environmentChanges := by
  obtain ⟨fields, -, h⟩ := Except.bind_eq_ok_iff.mp h
  obtain ⟨duration, -, h⟩ := Except.bind_eq_ok_iff.mp h
  cases h
  exact ⟨rfl, rfl, rfl, rfl, rfl, rfl, rfl⟩

/-! ## Section 2: Requests -/

theorem default_timeout_pos : (0 : ℚ) < 30 := by norm_num

/-- `CommandLimits`: validated resource limits for one complete plan. -/
structure CommandLimits where
  maxCommandBytes : Nat := 32 * 1024
  maxArgvEntries : Nat := 256
  maxArgumentBytes : Nat := 8 * 1024
  maxStdoutBytes : Nat := 256 * 1024
  maxStderrBytes : Nat := 256 * 1024
  maxPipelineStages : Nat := 8
  maxPipelineIntermediateBytes : Nat := 256 * 1024
  maxPipelineAggregateBytes : Nat := 1024 * 1024
  maxSecretBindings : Nat := 16
  timeoutSeconds : ℚ := 30
  command_pos : 0 < maxCommandBytes := by decide
  argv_pos : 0 < maxArgvEntries := by decide
  argument_pos : 0 < maxArgumentBytes := by decide
  stdout_pos : 0 < maxStdoutBytes := by decide
  stderr_pos : 0 < maxStderrBytes := by decide
  stages_pos : 0 < maxPipelineStages := by decide
  intermediate_pos : 0 < maxPipelineIntermediateBytes := by decide
  aggregate_pos : 0 < maxPipelineAggregateBytes := by decide
  bindings_pos : 0 < maxSecretBindings := by decide
  timeout_pos : 0 < timeoutSeconds := by exact default_timeout_pos

/-- `CommandLimits()`. -/
def CommandLimits.default : CommandLimits := {}

/-- `CommandValueProtection`. -/
structure CommandValueProtection where
  redactText : Text → Text
  containsProtectedText : Text → Bool

/-- `NoOpCommandValueProtection`. -/
def CommandValueProtection.noOp : CommandValueProtection where
  redactText := id
  containsProtectedText _ := false

/-- A complete constrained command-language request. -/
structure ExecuteRequest where
  command : Text
  cwd : SandboxPath
  environment : CommandEnvironment
  limits : CommandLimits
  overlay : CommandEnvironmentOverlay
  bindings_le : overlay.entries.length ≤ limits.maxSecretBindings

/-- One expanded simple-command request. -/
structure CommandRequest where
  argv : List Text
  stdin : Text
  stdinConnected : Bool
  nonempty : argv ≠ []

/-- `CommandRequest(argv, stdin, stdin_connected)`. -/
def CommandRequest.new (argv : List Text) (stdin : Text) (stdinConnected : Bool) :
    Except PyError CommandRequest := do
  let nonempty ← ensure (argv ≠ []) .valueError (py "argv must not be empty")
  return ⟨argv, stdin, stdinConnected, nonempty.down⟩

/-- `CommandContext`: the state supplied to one command stage. -/
structure CommandContext where
  cwd : SandboxPath
  environment : CommandEnvironmentView
  protection : CommandValueProtection

/-! ## Section 3: Commands and their registry -/

/-- `_COMMAND_NAME.fullmatch(text)`. -/
def isCommandName (text : Text) : Bool :=
  text ≠ [] && text.all fun c => isNameCharacter c || c ∈ py ".-"

/-- The registry-owned metadata for one virtual command. -/
structure CommandDescriptor where
  name : Text
  aliases : List Text
  permitsStdoutRedirection : Bool
  acceptsStdin : Bool
  pipelineSafe : Bool := false
  name_syntax : isCommandName name = true
  alias_syntax : ∀ text ∈ aliases, isCommandName text = true
  distinct : (name :: aliases).Nodup

/-- One focused pipeline-ready virtual command handler. -/
structure VirtualCommand (σ : Type) where
  descriptor : CommandDescriptor
  execute : CommandRequest → CommandContext → Call σ Raised CommandResult

/-- The name of a command and its aliases. -/
def VirtualCommand.names {σ : Type} (command : VirtualCommand σ) : List Text :=
  command.descriptor.name :: command.descriptor.aliases

/-- An immutable duplicate-safe command and alias lookup. -/
structure CommandRegistry (σ : Type) where
  commands : List (VirtualCommand σ)
  distinct : (commands.flatMap VirtualCommand.names).Nodup

/-- `CommandRegistry.resolve`. -/
def CommandRegistry.resolve {σ : Type} (registry : CommandRegistry σ) (name : Text) :
    Option (VirtualCommand σ) :=
  registry.commands.find? fun command => name ∈ command.names

/-- `CommandWorkspaceMutator`, as far as the executor itself uses it. -/
structure CommandWorkspaceMutator (σ : Type) where
  resolvePath : Text → SandboxPath → Call σ Raised SandboxPath
  write : WorkspaceWriteRequest → Call σ Raised WorkspaceMutation
  append : WorkspaceAppendRequest → Call σ Raised WorkspaceMutation
