import MemSandbox.CommandExecutor.EditCommands
import MemSandbox.Workspace.Memory

/-! # The profile of commands

    `create_command_profile` and `create_default_executor`, and the executor
    whose ports are those of an in-memory workspace. -/

open Python

/-! ## Section 1: The profile -/

section Profile

variable {σ : Type} [UnicodeData] [CommandRuntime]

/-- `create_first_wave_commands`. -/
def createFirstWaveCommands (reader : CommandWorkspaceReader σ)
    (mutator : CommandWorkspaceEditor σ) : List (VirtualCommand σ) :=
  [pwdCommand, cdCommand reader, lsCommand reader, catCommand reader, echoCommand,
    mkdirCommand reader mutator, touchCommand reader mutator, rmCommand reader mutator]

/-- `create_command_profile`. -/
def createCommandProfile (reader : CommandWorkspaceReader σ) (mutator : CommandWorkspaceEditor σ) :
    List (VirtualCommand σ) :=
  createFirstWaveCommands reader mutator ++
    [headCommand reader, tailCommand reader, grepCommand reader, findCommand reader,
      wcCommand reader, sortCommand reader, uniqCommand reader, cpCommand reader mutator,
      mvCommand reader mutator, envCommand, exportCommand, unsetCommand]

/-- The names of the profile, in its order. -/
def profileNames : List Text :=
  [py "pwd", py "cd", py "ls", py "cat", py "echo", py "mkdir", py "touch", py "rm", py "head",
    py "tail", py "grep", py "find", py "wc", py "sort", py "uniq", py "cp", py "mv", py "env",
    py "export", py "unset"]

theorem names_createCommandProfile (reader : CommandWorkspaceReader σ)
    (mutator : CommandWorkspaceEditor σ) :
    (createCommandProfile reader mutator).flatMap VirtualCommand.names = profileNames := rfl

/-- `CommandRegistry(create_command_profile(reader, mutator))`. -/
def commandRegistry (reader : CommandWorkspaceReader σ) (mutator : CommandWorkspaceEditor σ) :
    CommandRegistry σ where
  commands := createCommandProfile reader mutator
  distinct := by
    rw [names_createCommandProfile]
    decide +kernel

/-- `create_default_executor`, in one runtime. -/
def createDefaultExecutor (reader : CommandWorkspaceReader σ) (mutator : CommandWorkspaceEditor σ)
    (runtime : ExecutionRuntime σ) : VirtualCommandExecutor σ where
  registry := commandRegistry reader mutator
  redirectionMutator := mutator.toCommandWorkspaceMutator
  runtime

end Profile

/-! ## Section 2: The ports of a workspace -/

/-- A workspace and everything else that the executor reads. -/
structure CommandWorld (τ : Type) where
  workspace : MemoryWorkspace
  host : τ

/-- What the event loop does to a command: the runtime, and the acquisition of
    the state lock, at which a cancellation may arrive. -/
structure CommandHost (τ : Type) where
  runtime : ExecutionRuntime τ
  acquireLock : Call τ Raised Unit

namespace CommandWorld

variable {τ α : Type}

/-- A call that does not reach the workspace. -/
def onHost (x : Call τ Raised α) : Call (CommandWorld τ) Raised α := fun s =>
  ((x s.host).1, { s with host := (x s.host).2 })

/-- A method of the workspace under its state lock. -/
def underLock (method : Method α) : Call (CommandWorld τ) Raised α := fun s =>
  ((method s.workspace).1.mapError Raised.error, { s with workspace := (method s.workspace).2 })

/-- A call of a method of the workspace. -/
def onWorkspace (host : CommandHost τ) (method : Method α) : Call (CommandWorld τ) Raised α := do
  onHost host.acquireLock
  underLock method

/-- `MemoryWorkspace.resolve_path`, which takes no lock. -/
def resolvePath (value : Text) (cwd : SandboxPath) : Call (CommandWorld τ) Raised SandboxPath :=
  fun s => ((MemoryWorkspace.resolvePath s.workspace.limits value (some cwd)).mapError Raised.error, s)

variable [Sha256] (host : CommandHost τ)

/-- The workspace as the reader of the commands. -/
def reader : CommandWorkspaceReader (CommandWorld τ) where
  resolvePath := resolvePath
  stat path := onWorkspace host (MemoryWorkspace.stat path)
  list path := onWorkspace host (MemoryWorkspace.list path)
  readText path := onWorkspace host (MemoryWorkspace.readText path)

/-- The workspace as the mutator of the commands. -/
def mutator : CommandWorkspaceEditor (CommandWorld τ) where
  resolvePath := resolvePath
  write request := onWorkspace host (MemoryWorkspace.write request)
  append request := onWorkspace host (MemoryWorkspace.append request)
  mkdir request := onWorkspace host (MemoryWorkspace.mkdir request)
  remove request := onWorkspace host (MemoryWorkspace.remove request)
  copy request := onWorkspace host (MemoryWorkspace.copy request)
  move request := onWorkspace host (MemoryWorkspace.move request)

/-- The runtime of the executor. -/
def runtime : ExecutionRuntime (CommandWorld τ) where
  time := onHost host.runtime.time
  cancelling := onHost host.runtime.cancelling
  cancellationIsSet := onHost host.runtime.cancellationIsSet
  expired := onHost host.runtime.expired
  perfCounter := onHost host.runtime.perfCounter

/-- `create_default_executor(workspace, workspace)`. -/
def executor [UnicodeData] [CommandRuntime] : VirtualCommandExecutor (CommandWorld τ) :=
  createDefaultExecutor (reader host) (mutator host) (runtime host)

end CommandWorld

/-! ## Section 3: Undisturbed calls -/

namespace CommandWorld

variable {τ α : Type} {host : CommandHost τ}

/-- No cancellation arrives at the state lock. -/
def Grants (host : CommandHost τ) : Prop := ∀ t, (host.acquireLock t).1 = .ok ()

/-- An undisturbed call of a method of the workspace. -/
theorem onWorkspace_apply (hlock : Grants host) (method : Method α) (s : CommandWorld τ) :
    onWorkspace host method s =
      ((method s.workspace).1.mapError Raised.error,
        ⟨(method s.workspace).2, (host.acquireLock s.host).2⟩) := by
  have hacquire : onHost host.acquireLock s =
      (.ok (), { s with host := (host.acquireLock s.host).2 }) := by
    rw [onHost, hlock]
  rw [onWorkspace, Call.bind_of_ok hacquire]
  rfl

end CommandWorld
