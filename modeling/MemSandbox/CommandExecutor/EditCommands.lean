import MemSandbox.CommandExecutor.ReadCommands

/-! # The commands that change something, and the profile

    The handlers of `command_executor/commands.py` that change the workspace,
    the working directory or the environment, and the profile of all twenty.
    None of the eight may be redirected or stand in a pipeline. -/

open Python
open VirtualCommandExecutor (lift)

variable {σ : Type}

/-! ## Section 1: The working directory and the environment -/

/-- `CdCommand`. -/
def cdCommand (reader : CommandWorkspaceReader σ) : VirtualCommand σ where
  descriptor := commandDescriptor (py "cd") false false false rfl
  execute request context := rejectStdin (py "cd") request
    (let usage : Call σ Raised CommandResult :=
      lift (invalidArguments (py "cd") (py "usage: cd PATH"))
    match dropWord (py "--") request.argv.tail with
    | [operand] =>
      if hasDash operand ∧ request.argv.tail.head? ≠ some (py "--") then usage
      else if protectsAny context.protection [operand] then
        lift (protectedValue (py "cd"))
      else do
        let found ← expecting do
          let path ← reader.resolvePath operand context.cwd
          let entry ← reader.stat path
          if entry.kind = .directory then
            return path
          else
            throw (.of .notADirectoryError (path.value ++ py " is not a directory"))
        match found with
        | .error message => lift (commandFailure (py "cd") message [])
        | .ok path => lift (CommandResult.new 0 none [] [] (some path) [])
    | _ => usage)

/-- `EnvironmentChange(name, value)`. -/
def EnvironmentChange.new (name : Text) (value : Option Text) :
    Except PyError EnvironmentChange := do
  let name_syntax ← ensure (isEnvironmentName name = true) .valueError
    (py "environment name must use shell variable syntax")
  let utf8 ← ensure (∀ text ∈ value, ValidUtf8 text) .valueError
    (py "environment change value must be valid UTF-8 text")
  return ⟨name, value, name_syntax.down, utf8.down⟩

/-- `argument.partition("=")`, `none` without a separator. -/
def splitAssignment (argument : Text) : Option (Text × Text) :=
  partition (py "=") argument

/-- The loop of `export`: its changes, or the result of an early return. -/
def exportChanges (context : CommandContext) : List Text →
    Except PyError (Except CommandResult (List EnvironmentChange))
  | [] => .ok (.ok [])
  | argument :: rest =>
    let usage : Except PyError (Except CommandResult (List EnvironmentChange)) := do
      let failure ← invalidArguments (py "export") (py "usage: export NAME=VALUE...")
      return .error failure
    if context.protection.containsProtectedText argument then do
      let failure ← protectedValue (py "export")
      return .error failure
    else
      match splitAssignment argument with
      | none => usage
      | some (name, value) =>
        if name = py "PWD" then usage
        else do
          if ← context.environment.isOverlayName name then do
            let failure ← protectedValue (py "export")
            return .error failure
          else do
            let change ← EnvironmentChange.new name (some value)
            match ← exportChanges context rest with
            | .error failure => return .error failure
            | .ok changes => return .ok (change :: changes)

/-- `except (TypeError, ValueError): return _invalid(command, usage)`. -/
def orInvalid (command usage : Text) (result : Except PyError CommandResult) :
    Except PyError CommandResult :=
  match result with
  | .ok result => .ok result
  | .error e =>
    if e.cls.isTypeError || e.cls.isValueError then invalidArguments command usage else .error e

/-- `ExportCommand`. -/
def exportCommand : VirtualCommand σ where
  descriptor := commandDescriptor (py "export") false false false rfl
  execute request context := rejectStdin (py "export") request
    (let usage := py "usage: export NAME=VALUE..."
    let arguments := dropWord (py "--") request.argv.tail
    if arguments = [] then
      lift (invalidArguments (py "export") usage)
    else
      lift (orInvalid (py "export") usage do
        match ← exportChanges context arguments with
        | .error failure => return failure
        | .ok changes => CommandResult.new 0 none [] [] none changes))

/-- `UnsetCommand`. -/
def unsetCommand : VirtualCommand σ where
  descriptor := commandDescriptor (py "unset") false false false rfl
  execute request context := rejectStdin (py "unset") request
    (let usage := py "usage: unset NAME..."
    let arguments := dropWord (py "--") request.argv.tail
    if arguments = [] ∨ py "PWD" ∈ arguments then
      lift (invalidArguments (py "unset") usage)
    else if protectsAny context.protection arguments then
      lift (protectedValue (py "unset"))
    else
      lift (orInvalid (py "unset") usage do
        if ← arguments.anyM context.environment.isOverlayName then
          protectedValue (py "unset")
        else do
          let changes ← arguments.mapM fun name => EnvironmentChange.new name none
          CommandResult.new 0 none [] [] none changes))

/-! ## Section 2: The workspace -/

/-- The arguments of `touch`, and of `mkdir` after `-p`: the operands, `none`
    for a usage error. -/
def pathArguments (arguments : List Text) : Option (List Text) :=
  let operands := dropWord (py "--") arguments
  if operands = [] then none
  else if arguments.head? ≠ some (py "--") ∧ operands.any hasDash then none
  else some operands

/-- The loop that `mkdir`, `touch` and `rm` end with: one operand after the
    other, up to the first failure. -/
def eachOperand (command : Text) (act : Text → Call σ Raised (Option Text)) :
    List Text → Call σ Raised CommandResult
  | [] => lift (printed [])
  | operand :: rest => do
    match ← expecting (act operand) with
    | .error message => lift (commandFailure command message [])
    | .ok (some message) => lift (commandFailure command message [])
    | .ok none => eachOperand command act rest

/-- `MkdirCommand`. -/
def mkdirCommand (reader : CommandWorkspaceReader σ) (mutator : CommandWorkspaceEditor σ) :
    VirtualCommand σ where
  descriptor := commandDescriptor (py "mkdir") false false false rfl
  execute request context := rejectStdin (py "mkdir") request
    (let createParents := decide (request.argv.tail.head? = some (py "-p"))
    match pathArguments (dropWord (py "-p") request.argv.tail) with
    | none => lift (invalidArguments (py "mkdir") (py "usage: mkdir [-p] PATH..."))
    | some operands =>
      if protectsAny context.protection operands then
        lift (protectedValue (py "mkdir"))
      else
        eachOperand (py "mkdir") (fun operand => do
          let path ← reader.resolvePath operand context.cwd
          let _ ← mutator.mkdir { path, createParents, existOk := createParents }
          return none) operands)

/-- `TouchCommand`. -/
def touchCommand (reader : CommandWorkspaceReader σ) (mutator : CommandWorkspaceEditor σ) :
    VirtualCommand σ where
  descriptor := commandDescriptor (py "touch") false false false rfl
  execute request context := rejectStdin (py "touch") request
    (match pathArguments request.argv.tail with
    | none => lift (invalidArguments (py "touch") (py "usage: touch FILE..."))
    | some operands =>
      if protectsAny context.protection operands then
        lift (protectedValue (py "touch"))
      else
        eachOperand (py "touch") (fun operand => do
          let path ← reader.resolvePath operand context.cwd
          match ← orAbsent (reader.stat path) with
          | none => do
            let _ ← mutator.write { path, content := [], precondition := .pathMustNotExist }
            return none
          | some entry =>
            if entry.kind = .directory then
              return some (path.value ++ py " is a directory")
            else
              return none) operands)

/-- `RmCommand`. -/
def rmCommand (reader : CommandWorkspaceReader σ) (mutator : CommandWorkspaceEditor σ) :
    VirtualCommand σ where
  descriptor := commandDescriptor (py "rm") false false false rfl
  execute request context := rejectStdin (py "rm") request
    (let usage : Call σ Raised CommandResult :=
      lift (invalidArguments (py "rm") (py "usage: rm [-rR] [-f] PATH..."))
    match scanArguments hasDash (onlyFlags (py "rRf")) request.argv.tail with
    | none => usage
    | some (options, operands) =>
      let recursive := options.any fun option =>
        CodePoint.ofChar 'r' ∈ option || CodePoint.ofChar 'R' ∈ option
      let force := options.any fun option => CodePoint.ofChar 'f' ∈ option
      if operands = [] then usage
      else if protectsAny context.protection operands then
        lift (protectedValue (py "rm"))
      else
        eachOperand (py "rm") (fun operand => do
          let path ← reader.resolvePath operand context.cwd
          let _ ← mutator.remove { path, recursive, missingOk := force }
          return none) operands)

/-- The turn of the loop of `_transfer` for one source: the message of an
    early return, if any. -/
def transferOne (reader : CommandWorkspaceReader σ) (mutator : CommandWorkspaceEditor σ)
    (cwd : SandboxPath) (recursive move : Bool) (destination : SandboxPath) (intoDirectory : Bool)
    (operand : Text) : Call σ Raised (Option Text) := do
  let source ← reader.resolvePath operand cwd
  let entry ← reader.stat source
  if entry.kind = .directory ∧ recursive = false then
    return some (source.value ++ py " is a directory; use -r")
  else do
    let exactDestination ←
      -- `join` checks its own limits, not those of the workspace
      (if intoDirectory then
        lift (destination.join source.name 4096 255)
      else
        pure destination)
    let existing ← orAbsent (reader.stat exactDestination)
    if entry.kind = .directory ∧ existing.isSome then
      return some (py "recursive directory merge is unsupported")
    else if entry.kind = .file ∧ existing.any (·.kind = .directory) then
      return some (exactDestination.value ++ py " is a directory")
    else if move then do
      let _ ← mutator.move { source, destination := exactDestination, overwrite := true }
      return none
    else do
      let _ ← mutator.copy { source, destination := exactDestination, overwrite := true }
      return none

/-- The loop of `_transfer` over its sources. -/
def transferAll (one : Text → Call σ Raised (Option Text)) :
    List Text → Call σ Raised (Option Text)
  | [] => return none
  | operand :: rest => do
    match ← one operand with
    | some message => return some message
    | none => transferAll one rest

/-- `_transfer`. -/
def transfer (command : Text) (reader : CommandWorkspaceReader σ)
    (mutator : CommandWorkspaceEditor σ) (sources : List Text) (operand : Text)
    (context : CommandContext) (recursive move : Bool) : Call σ Raised CommandResult :=
  if protectsAny context.protection (sources ++ [operand]) then
    lift (protectedValue command)
  else do
    let failure ← expecting do
      let destination ← reader.resolvePath operand context.cwd
      let entry ← orAbsent (reader.stat destination)
      let intoDirectory := entry.any (·.kind = .directory)
      if 1 < sources.length ∧ intoDirectory = false then
        return some (py "destination must be an existing directory")
      else
        transferAll (transferOne reader mutator context.cwd recursive move destination intoDirectory)
          sources
    match failure with
    | .error message => lift (commandFailure command message [])
    | .ok (some message) => lift (commandFailure command message [])
    | .ok none => lift (printed [])

/-- What `CpCommand` and `MvCommand` execute; `accepts` are their options. -/
def transferCommand (command : Text) (accepts : Text → Bool) (usage : Text) (move : Bool)
    (reader : CommandWorkspaceReader σ) (mutator : CommandWorkspaceEditor σ)
    (request : CommandRequest) (context : CommandContext) : Call σ Raised CommandResult :=
  rejectStdin command request
  (match scanArguments hasDash accepts request.argv.tail with
  | none => lift (invalidArguments command usage)
  | some (options, operands) =>
    let recursive := move || options.any fun option =>
      CodePoint.ofChar 'r' ∈ option || CodePoint.ofChar 'R' ∈ option
    if operands.length < 2 then
      lift (invalidArguments command usage)
    else
      transfer command reader mutator operands.dropLast (operands.getLastD []) context
        recursive move)

/-- `CpCommand`. -/
def cpCommand (reader : CommandWorkspaceReader σ) (mutator : CommandWorkspaceEditor σ) :
    VirtualCommand σ where
  descriptor := commandDescriptor (py "cp") false false false rfl
  execute := transferCommand (py "cp") (onlyFlags (py "fRr"))
    (py "usage: cp [-fRr] SOURCE... DEST") false reader mutator

/-- `MvCommand`. -/
def mvCommand (reader : CommandWorkspaceReader σ) (mutator : CommandWorkspaceEditor σ) :
    VirtualCommand σ where
  descriptor := commandDescriptor (py "mv") false false false rfl
  execute := transferCommand (py "mv") (fun argument => argument = py "-f")
    (py "usage: mv [-f] SOURCE... DEST") true reader mutator
