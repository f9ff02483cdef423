import MemSandbox.CommandExecutor.Executor
import MemSandbox.Lib.Separators

/-! # What the commands share

    The helpers of `command_executor/commands.py` and the reader they ask.

    * **Section 1** the standard library: numbers in texts, and a parameter for
      regular expressions, globs and the depth of the interpreter's stack;
    * **Section 2** results, records and arguments;
    * **Section 3** the ports, and what is read through them. -/

open Python

variable {σ α : Type}

/-! ## Section 1: The standard library -/

/-- What `re.compile` comes to. -/
inductive CompiledPattern where
  /-- An expression, by its `search`. -/
  | expression (search : Text → Except PyError Bool)
  /-- `re.error`, with its text. -/
  | invalid (message : Text)
  /-- Another exception. -/
  | fails (e : PyError)

/-- `re`, `fnmatch`, the Unicode database and the interpreter, as far as the
    commands use them. -/
class CommandRuntime where
  /-- `character.isdigit()`. -/
  isDigit : CodePoint → Bool
  /-- `re.compile(pattern, re.IGNORECASE if ignore_case else 0)`. -/
  compile : Text → Bool → CompiledPattern
  /-- `fnmatch.fnmatchcase(name, pattern)`. -/
  fnmatchcase : Text → Text → Bool
  /-- The calls that may still be nested before `RecursionError`. -/
  frames : Nat

/-- `int(text)`, `none` for a `ValueError`. -/
def parseInteger [UnicodeData] (text : Text) : Option Int :=
  let body := stripEnds isWhitespace text
  let negative := body.head? = some (CodePoint.ofChar '-')
  let digits := if negative ∨ body.head? = some (CodePoint.ofChar '+') then body.tail else body
  let groups := split (CodePoint.ofChar '_') digits
  -- an underscore stands between two digits
  if groups.all (fun group => group ≠ [] && group.all isDecimal) && groups.flatten.length ≤ 4300 then
    some (if negative then -(numeral groups.flatten : Int) else numeral groups.flatten)
  else
    none

/-- The characters that `re.escape` escapes. -/
def reSpecial : Text := py "()[]\x7b\x7d?*+-|^$\\.&~# \t\n\r\x0b\x0c"

/-- `re.escape(pattern)`. -/
def reEscape (pattern : Text) : Text :=
  pattern.flatMap fun c => if c ∈ reSpecial then [CodePoint.ofChar '\\', c] else [c]

/-- `len(text.split())`. -/
def countWords (text : Text) : Nat :=
  ((text.splitOnP isWhitespace).filter (· ≠ [])).length

/-- A count, right-aligned in seven columns. -/
def padCount (count : Nat) : Text :=
  List.replicate (7 - (Text.ofNat count).length) (CodePoint.ofChar ' ') ++ Text.ofNat count

/-! ## Section 2: Results, records and arguments -/

/-- `_failure`. -/
def commandFailure (command message stdout : Text) : Except PyError CommandResult :=
  CommandResult.new 1 (some .workspaceFailure) stdout (command ++ py ": " ++ message ++ py "\n")
    none []

/-- `_invalid`. -/
def invalidArguments (command message : Text) : Except PyError CommandResult :=
  CommandResult.failure 2 .invalidArgument (command ++ py ": " ++ message ++ py "\n")

/-- `_protected_value`. -/
def protectedValue (command : Text) : Except PyError CommandResult :=
  CommandResult.failure 1 .protectedValueRejected
    (command ++ py ": protected values cannot be persisted\n")

/-- `CommandResult.success(stdout=stdout)`. -/
def printed (stdout : Text) : Except PyError CommandResult :=
  CommandResult.new 0 none stdout [] none []

/-- `_reject_protected_operands`, as a condition. -/
def protectsAny (protection : CommandValueProtection) (operands : List Text) : Bool :=
  operands.any protection.containsProtectedText

/-- The condition of `_reject_stdin`. -/
def hasStdin (request : CommandRequest) : Bool := request.stdinConnected || request.stdin ≠ []

/-- `_reject_stdin`, of the commands that read no standard input. -/
def rejectStdin (command : Text) (request : CommandRequest)
    (body : Call σ Raised CommandResult) : Call σ Raised CommandResult :=
  if hasStdin request then
    VirtualCommandExecutor.lift (invalidArguments command (py "stdin is not accepted"))
  else
    body

/-- `_records`. -/
def records (text : Text) : List Text :=
  let parts := split (CodePoint.ofChar '\n') text
  let last := parts.getLastD []
  (parts.dropLast.map fun part => part ++ py "\n") ++ if last = [] then [] else [last]

/-- `_without_lf`. -/
def withoutLf (record : Text) : Text :=
  if endsWith record (py "\n") then record.dropLast else record

/-- `_with_lf`. -/
def withLf (record : Text) : Text :=
  if endsWith record (py "\n") then record else record ++ py "\n"

/-- The loop over the arguments that most commands begin with: the options and
    the operands, or `none` at an option that is not accepted.  What follows
    `--` or the first operand is an operand. -/
def scanArguments (isOption accepts : Text → Bool) : List Text → Option (List Text × List Text)
  | [] => some ([], [])
  | argument :: rest =>
    if argument = py "--" then some ([], rest)
    else if isOption argument then
      if accepts argument then
        (scanArguments isOption accepts rest).map fun parts => (argument :: parts.1, parts.2)
      else
        none
    else
      some ([], argument :: rest)

/-- `argument.startswith("-")`. -/
def hasDash (argument : Text) : Bool := startsWith argument (py "-")

/-- `argument.startswith("-") and argument != "-"`. -/
def isFlags (argument : Text) : Bool := hasDash argument && argument ≠ py "-"

/-- The flags of an option, at least one and all of them known. -/
def onlyFlags (known argument : Text) : Bool :=
  1 < argument.length && (argument.drop 1).all fun flag => flag ∈ known

/-- `if arguments and arguments[0] == word: arguments.pop(0)`. -/
def dropWord (word : Text) : List Text → List Text
  | [] => []
  | argument :: rest => if argument = word then rest else argument :: rest

/-- The usage of the two commands that take a count. -/
def countUsage (command : Text) : Text := py "usage: " ++ command ++ py " [-n COUNT] [FILE...]"

/-- The count that the arguments of `_parse_count` spell, and the others. -/
def countWord [CommandRuntime] : List Text → Option (Option Text × List Text)
  | [] => some (none, [])
  | argument :: rest =>
    if argument = py "-n" then
      match rest with
      | [] => none
      | value :: rest => some (some value, rest)
    else if startsWith argument (py "-n") && 2 < argument.length then
      some (some (argument.drop 2), rest)
    else if hasDash argument && 1 < argument.length &&
        (argument.drop 1).all CommandRuntime.isDigit then
      some (some (argument.drop 1), rest)
    else
      some (none, argument :: rest)

/-- The operands of `_parse_count`, after the count. -/
def countOperands : List Text → Option (List Text)
  | [] => some []
  | argument :: rest =>
    if argument = py "--" then some rest
    else if (argument :: rest).any isFlags then none
    else some (argument :: rest)

/-- `_parse_count`, `none` for a usage error. -/
def parseCount [UnicodeData] [CommandRuntime] : List Text → Option (Nat × List Text)
  | [] => some (10, [])
  | argument :: rest =>
    if argument = py "--" then some (10, rest)
    else do
      let (value, remaining) ← countWord (argument :: rest)
      let count ← (match value with
        | none => some 10
        | some value => (parseInteger value).bind Int.toNat?)
      let operands ← countOperands remaining
      return (count, operands)

/-- `_display_path`. -/
def displayPath (operand : Text) (root path : SandboxPath) : Text :=
  let relative := path.parts.drop root.parts.length
  let stripped := (operand.reverse.dropWhile (· = slash)).reverse
  let base :=
    if startsWith operand (py "/") then root.value
    else if stripped = [] then py "."
    else stripped
  if relative = [] then base
  else if base = py "." then py "./" ++ join (py "/") relative
  else base ++ py "/" ++ join (py "/") relative

/-! ## Section 3: Ports -/

/-- `CommandWorkspaceReader`. -/
structure CommandWorkspaceReader (σ : Type) where
  resolvePath : Text → SandboxPath → Call σ Raised SandboxPath
  stat : SandboxPath → Call σ Raised WorkspaceEntry
  list : SandboxPath → Call σ Raised (List WorkspaceEntry)
  readText : SandboxPath → Call σ Raised WorkspaceTextResult

/-- The rest of `CommandWorkspaceMutator`, which only the commands use. -/
structure CommandWorkspaceEditor (σ : Type) extends CommandWorkspaceMutator σ where
  mkdir : MakeDirectoryRequest → Call σ Raised WorkspaceMutation
  remove : RemovePathRequest → Call σ Raised WorkspaceMutation
  copy : CopyPathRequest → Call σ Raised WorkspaceMutation
  move : MovePathRequest → Call σ Raised WorkspaceMutation

/-- `except _EXPECTED_WORKSPACE_FAILURES as error`, with the text of the
    error. -/
def expecting (x : Call σ Raised α) : Call σ Raised (Except Text α) :=
  tryCatch (do return .ok (← x)) fun
    | .error e => if isExpectedWorkspaceFailure e.cls then return .error e.message else throw (.error e)
    | .cancelledError => throw .cancelledError
    | .exit => throw .exit

/-- `except PathNotFoundError`, with `none` for the missing node. -/
def orAbsent (x : Call σ Raised α) : Call σ Raised (Option α) :=
  tryCatch (do return some (← x)) fun
    | .error e => if e.cls = .pathNotFoundError then return none else throw (.error e)
    | .cancelledError => throw .cancelledError
    | .exit => throw .exit

/-- One node that `_walk` found. -/
structure FoundNode where
  path : SandboxPath
  depth : Nat
  kind : NodeKind

/-- `visit`, with the calls that may still be nested. -/
def visitNode (reader : CommandWorkspaceReader σ) (maxDepth : Option Nat) :
    Nat → SandboxPath → Nat → List FoundNode → Call σ Raised (List FoundNode)
  | 0, _, _, _ => throw (.of .recursionError (py "maximum recursion depth exceeded"))
  | frames + 1, path, depth, output => do
    let entry ← reader.stat path
    let output := output ++ [⟨entry.path, depth, entry.kind⟩]
    if entry.kind = .directory ∧ maxDepth.all (depth < ·) then do
      let children ← reader.list entry.path
      children.foldlM (fun output child => visitNode reader maxDepth frames child.path (depth + 1) output)
        output
    else
      return output

/-- `_walk`. -/
def walk [CommandRuntime] (reader : CommandWorkspaceReader σ) (root : SandboxPath)
    (maxDepth : Option Nat) : Call σ Raised (List FoundNode) :=
  visitNode reader maxDepth CommandRuntime.frames root 0 []

/-- One input of a text command: its label and its text. -/
structure CommandInput where
  label : Option Text
  text : Text

/-- The file behind an operand. -/
def readOperand (reader : CommandWorkspaceReader σ) (cwd : SandboxPath) (operand : Text) :
    Call σ Raised Text := do
  let path ← reader.resolvePath operand cwd
  let result ← reader.readText path
  return result.content

/-- The loop of `_read_inputs` over the operands; a failure ends it. -/
def readOperands (command : Text) (reader : CommandWorkspaceReader σ) (request : CommandRequest)
    (context : CommandContext) : List Text → List CommandInput →
    Call σ Raised (Except CommandResult (List CommandInput))
  | [], output => return .ok output
  | operand :: rest, output =>
    if operand = py "-" then
      readOperands command reader request context rest (output ++ [⟨some (py "-"), request.stdin⟩])
    else if protectsAny context.protection [operand] then do
      let failure ← VirtualCommandExecutor.lift (protectedValue command)
      return .error failure
    else do
      match ← expecting (readOperand reader context.cwd operand) with
      | .error message => do
        let failure ← VirtualCommandExecutor.lift (commandFailure command message [])
        return .error failure
      | .ok text =>
        readOperands command reader request context rest (output ++ [⟨some operand, text⟩])

/-- `_read_inputs`. -/
def readInputs (command : Text) (reader : CommandWorkspaceReader σ) (operands : List Text)
    (request : CommandRequest) (context : CommandContext) :
    Call σ Raised (Except CommandResult (List CommandInput)) :=
  if operands = [] then
    return .ok [⟨none, request.stdin⟩]
  else
    readOperands command reader request context operands []
