import MemSandbox.CommandExecutor.CommandSupport

/-! # The commands that only read

    The twelve handlers of `command_executor/commands.py` whose output may be
    redirected.  Each is built from its descriptor and the loop that its
    `execute` runs; all but `find`, `grep` and `ls` read what
    `_read_inputs` gives, or nothing. -/

open Python
open VirtualCommandExecutor (lift)

variable {σ : Type}

theorem no_alias_syntax : ∀ text ∈ ([] : List Text), isCommandName text = true :=
  List.forall_mem_nil _

/-- The descriptor of a command without aliases. -/
def commandDescriptor (name : Text) (permitsStdoutRedirection acceptsStdin pipelineSafe : Bool)
    ( name_syntax : isCommandName name = true) : CommandDescriptor where
  name
  aliases := []
  permitsStdoutRedirection
  acceptsStdin
  pipelineSafe
  name_syntax
  alias_syntax := no_alias_syntax
  distinct := List.nodup_singleton name

/-! ## Section 1: State and arguments -/

/-- `PwdCommand`. -/
def pwdCommand : VirtualCommand σ where
  descriptor := commandDescriptor (py "pwd") true false true rfl
  execute request context := rejectStdin (py "pwd") request
    (if request.argv.length ≠ 1 then
      lift (invalidArguments (py "pwd") (py "usage: pwd"))
    else
      lift (printed (context.cwd.value ++ py "\n")))

/-- `EchoCommand`. -/
def echoCommand : VirtualCommand σ where
  descriptor := commandDescriptor (py "echo") true false true rfl
  execute request _ := rejectStdin (py "echo") request
    (let arguments := request.argv.tail
    if arguments.head? = some (py "-n") then
      lift (printed (join (py " ") arguments.tail))
    else
      lift (printed (join (py " ") arguments ++ py "\n")))

/-- `CommandEnvironmentViewEntry`, as its own check. -/
def viewEntry (item : Text × Text) : Except PyError (Text × Text) := do
  requireEnvironmentName item.1
  require (ValidUtf8 item.2) .valueError (py "environment view value must be valid UTF-8 text")
  return item

/-- `CommandEnvironmentView.values`. -/
def CommandEnvironmentView.items (view : CommandEnvironmentView) :
    Except PyError (List (Text × Text)) := do
  let current ← view.overlay.entries.foldlM (fun current entry => do
    let value ← entry.revealText
    return Dict.set entry.name value current) view.base.items
  (sorted Prod.fst current).mapM viewEntry

/-- `EnvCommand`. -/
def envCommand : VirtualCommand σ where
  descriptor := commandDescriptor (py "env") true false true rfl
  execute request context := rejectStdin (py "env") request
    (if request.argv.tail = [] ∨ request.argv.tail = [py "--"] then do
      let items ← lift context.environment.items
      let values := sorted Prod.fst (Dict.set (py "PWD") context.cwd.value items)
      lift (printed (values.flatMap fun item => item.1 ++ py "=" ++ item.2 ++ py "\n"))
    else
      lift (invalidArguments (py "env") (py "usage: env")))

/-! ## Section 2: Listings -/

/-- What `ls` prints for one operand. -/
def lsSection (reader : CommandWorkspaceReader σ) (cwd : SandboxPath) (multiple : Bool)
    (operand : Text) : Call σ Raised Text := do
  let path ← reader.resolvePath operand cwd
  let entry ← reader.stat path
  if entry.kind = .directory then do
    let children ← reader.list path
    let body := children.flatMap fun child => child.path.name ++ py "\n"
    return if multiple then operand ++ py ":\n" ++ body else body
  else
    return operand ++ py "\n"

/-- The loop of `ls` over its operands. -/
def lsOperands (reader : CommandWorkspaceReader σ) (context : CommandContext) (multiple : Bool) :
    List Text → List Text → Call σ Raised CommandResult
  | [], sections => lift (printed (join (py "\n") sections))
  | operand :: rest, sections =>
    if protectsAny context.protection [operand] then
      lift (protectedValue (py "ls"))
    else do
      match ← expecting (lsSection reader context.cwd multiple operand) with
      | .error message => lift (commandFailure (py "ls") message (join (py "\n") sections))
      | .ok body => lsOperands reader context multiple rest (sections ++ [body])

/-- `LsCommand`. -/
def lsCommand (reader : CommandWorkspaceReader σ) : VirtualCommand σ where
  descriptor := commandDescriptor (py "ls") true false true rfl
  execute request context := rejectStdin (py "ls") request
    (match scanArguments isFlags (onlyFlags (py "1a")) request.argv.tail with
    | none => lift (invalidArguments (py "ls") (py "usage: ls [-1a] [PATH...]"))
    | some (_, operands) =>
      let operands := if operands = [] then [py "."] else operands
      lsOperands reader context (decide (1 < operands.length)) operands [])

/-- The options of `find`. -/
structure FindOptions where
  kindFilter : Option NodeKind := none
  nameFilter : Option Text := none
  maxDepth : Option Nat := none

/-- The loop of `find` over its options; the error is the message. -/
def findOptions [UnicodeData] : List Text → FindOptions → Except Text FindOptions
  | option :: value :: rest, options =>
    if option = py "-type" then
      if value = py "f" then findOptions rest { options with kindFilter := some .file }
      else if value = py "d" then findOptions rest { options with kindFilter := some .directory }
      else .error (py "type must be 'f' or 'd'")
    else if option = py "-name" then
      findOptions rest { options with nameFilter := some value }
    else if option = py "-maxdepth" then
      match (parseInteger value).bind Int.toNat? with
      | some maxDepth => findOptions rest { options with maxDepth := some maxDepth }
      | none => .error (py "maxdepth must be a non-negative integer")
    else
      .error (py "usage: find [PATH] [-type f|d] [-name GLOB] [-maxdepth N]")
  | [], options => .ok options
  | [_], _ => .error (py "usage: find [PATH] [-type f|d] [-name GLOB] [-maxdepth N]")

/-- The operand of `find`, and the rest of its arguments. -/
def findOperand : List Text → Text × List Text
  | [] => (py ".", [])
  | argument :: rest =>
    if argument = py "--" then
      match rest with
      | [] => (py ".", [])
      | operand :: rest => (operand, rest)
    else if hasDash argument then (py ".", argument :: rest)
    else (argument, rest)

/-- The nodes that the options of `find` let through. -/
def FindOptions.selects [CommandRuntime] (options : FindOptions) (node : FoundNode) : Bool :=
  options.kindFilter.all (· = node.kind) &&
    options.nameFilter.all (CommandRuntime.fnmatchcase node.path.name)

/-- `find` from its operand on. -/
def findBelow [UnicodeData] [CommandRuntime] (reader : CommandWorkspaceReader σ)
    (context : CommandContext) (operand : Text) (arguments : List Text) :
    Call σ Raised CommandResult :=
  match findOptions arguments {} with
  | .error message => lift (invalidArguments (py "find") message)
  | .ok options =>
    if protectsAny context.protection [operand] then
      lift (protectedValue (py "find"))
    else do
      let found ← expecting do
        let root ← reader.resolvePath operand context.cwd
        let entries ← walk reader root options.maxDepth
        return (root, entries)
      match found with
      | .error message => lift (commandFailure (py "find") message [])
      | .ok (root, entries) =>
        lift (printed ((entries.filter options.selects).flatMap fun node =>
          displayPath operand root node.path ++ py "\n"))

/-- `FindCommand`. -/
def findCommand [UnicodeData] [CommandRuntime] (reader : CommandWorkspaceReader σ) :
    VirtualCommand σ where
  descriptor := commandDescriptor (py "find") true false true rfl
  execute request context := rejectStdin (py "find") request
    (findBelow reader context (findOperand request.argv.tail).1 (findOperand request.argv.tail).2)

/-! ## Section 3: Texts -/

/-- The loop of `cat` over its operands. -/
def catOperands (reader : CommandWorkspaceReader σ) (request : CommandRequest)
    (context : CommandContext) : List Text → Text → Call σ Raised CommandResult
  | [], output => lift (printed output)
  | operand :: rest, output =>
    if operand = py "-" then
      catOperands reader request context rest (output ++ request.stdin)
    else if protectsAny context.protection [operand] then
      lift (protectedValue (py "cat"))
    else do
      match ← expecting (readOperand reader context.cwd operand) with
      | .error message => lift (commandFailure (py "cat") message output)
      | .ok text => catOperands reader request context rest (output ++ text)

/-- `CatCommand`. -/
def catCommand (reader : CommandWorkspaceReader σ) : VirtualCommand σ where
  descriptor := commandDescriptor (py "cat") true true true rfl
  execute request context :=
    match scanArguments isFlags (fun _ => false) request.argv.tail with
    | none => lift (invalidArguments (py "cat") (py "usage: cat [FILE...]"))
    | some (_, operands) =>
      if operands = [] then
        lift (printed request.stdin)
      else
        catOperands reader request context operands []

/-- A command whose output is computed from the inputs that `_read_inputs`
    reads. -/
def printInputs (command : Text) (reader : CommandWorkspaceReader σ) (operands : List Text)
    (request : CommandRequest) (context : CommandContext)
    (output : List CommandInput → Except PyError Text) : Call σ Raised CommandResult := do
  match ← readInputs command reader operands request context with
  | .error failure => return failure
  | .ok inputs => do
    let text ← lift (output inputs)
    lift (printed text)

/-- `_limited_input_output`. -/
def limitedInputOutput (count : Nat) (fromEnd : Bool) (inputs : List CommandInput) : Text :=
  let body (text : Text) : Text :=
    let lines := records text
    (if fromEnd && count ≠ 0 then lines.drop (lines.length - count) else lines.take count).flatten
  let display : Option Text → Text
    | none => py "standard input"
    | some label => if label = py "-" then py "standard input" else label
  join (py "\n") (inputs.map fun input =>
    if 1 < inputs.length then
      py "==> " ++ display input.label ++ py " <==\n" ++ body input.text
    else
      body input.text)

/-- What `HeadCommand` and `TailCommand` execute. -/
def limitedCommand [UnicodeData] [CommandRuntime] (command : Text) (fromEnd : Bool)
    (reader : CommandWorkspaceReader σ) (request : CommandRequest) (context : CommandContext) :
    Call σ Raised CommandResult :=
  match parseCount request.argv.tail with
  | none => lift (invalidArguments command (countUsage command))
  | some (count, operands) =>
    printInputs command reader operands request context fun inputs =>
      .ok (limitedInputOutput count fromEnd inputs)

/-- `HeadCommand`. -/
def headCommand [UnicodeData] [CommandRuntime] (reader : CommandWorkspaceReader σ) :
    VirtualCommand σ where
  descriptor := commandDescriptor (py "head") true true true rfl
  execute := limitedCommand (py "head") false reader

/-- `TailCommand`. -/
def tailCommand [UnicodeData] [CommandRuntime] (reader : CommandWorkspaceReader σ) :
    VirtualCommand σ where
  descriptor := commandDescriptor (py "tail") true true true rfl
  execute := limitedCommand (py "tail") true reader

/-- The counts of `wc` for one text, by their flags. -/
def wcCounts (selected : Text) (text : Text) : Except PyError (List Nat) := do
  let bytes ← VirtualCommandExecutor.encodedLength text
  return selected.map fun flag =>
    if flag = CodePoint.ofChar 'l' then text.count (CodePoint.ofChar '\n')
    else if flag = CodePoint.ofChar 'w' then countWords text
    else bytes

/-- A row of `wc`. -/
def wcRow (counts : List Nat) (suffix : Text) : Text :=
  join (py " ") (counts.map Text.ofNat) ++ suffix ++ py "\n"

/-- The rows of `wc`, and their sum below more than one. -/
def wcOutput (selected : Text) (inputs : List CommandInput) : Except PyError Text := do
  let counted ← inputs.mapM fun input => wcCounts selected input.text
  let rows := (inputs.zip counted).flatMap fun row =>
    wcRow row.2 ((row.1.label.map fun label => py " " ++ label).getD [])
  let totals := counted.foldl (List.zipWith (· + ·)) (selected.map fun _ => 0)
  return rows ++ if 1 < inputs.length then wcRow totals (py " total") else []

/-- `WcCommand`. -/
def wcCommand (reader : CommandWorkspaceReader σ) : VirtualCommand σ where
  descriptor := commandDescriptor (py "wc") true true true rfl
  execute request context :=
    match scanArguments isFlags (onlyFlags (py "clw")) request.argv.tail with
    | none => lift (invalidArguments (py "wc") (py "usage: wc [-clw] [FILE...]"))
    | some (options, operands) =>
      let requested := options.flatMap (List.drop 1)
      let selected := (py "lwc").filter fun flag => requested = [] || flag ∈ requested
      printInputs (py "wc") reader operands request context (wcOutput selected)

/-- `_numeric_sort_key`. -/
def numericSortKey [UnicodeData] (value : Text) : ℚ :=
  let body := value.dropWhile (· ∈ py " \t")
  let negative := body.head? = some (CodePoint.ofChar '-')
  let digits := if negative ∨ body.head? = some (CodePoint.ofChar '+') then body.tail else body
  let whole := digits.takeWhile isDecimal
  let rest := digits.dropWhile isDecimal
  let fraction := if rest.head? = some dot then rest.tail.takeWhile isDecimal else []
  let magnitude : ℚ := numeral (whole ++ fraction) / 10 ^ fraction.length
  if negative then -magnitude else magnitude

/-- `_byte_sort_key`. -/
def byteSortKey (value : Text) : Except PyError Bytes :=
  match encodeUtf8 value with
  | some key => .ok key
  | none => raise .unicodeEncodeError (py "surrogates not allowed")

/-- The lines of `sort -u`: one whose key differs from that of the line before. -/
def dropRepeats {κ : Type} [DecidableEq κ] (previous : Option κ) :
    List (κ × Text) → List (κ × Text)
  | [] => []
  | line :: rest =>
    if previous = some line.1 then dropRepeats (some line.1) rest
    else line :: dropRepeats (some line.1) rest

/-- `lines.sort(key=key, reverse=reverse)` and what `-u` leaves of it. -/
def sortLines {κ : Type} [LinearOrder κ] (reverse unique : Bool) (lines : List (κ × Text)) :
    List Text :=
  let ordered :=
    if reverse then sorted (fun line => OrderDual.toDual line.1) lines else sorted Prod.fst lines
  (if unique then dropRepeats none ordered else ordered).map Prod.snd

/-- What `sort` prints. -/
def sortOutput [UnicodeData] (numeric reverse unique : Bool) (inputs : List CommandInput) :
    Except PyError Text := do
  let lines := inputs.flatMap fun input => (records input.text).map withoutLf
  let output ←
    (if numeric then
      .ok (sortLines reverse unique (lines.map fun line => (numericSortKey line, line)))
    else do
      let keys ← lines.mapM byteSortKey
      .ok (sortLines reverse unique (keys.zip lines)))
  return output.flatMap fun line => line ++ py "\n"

/-- `SortCommand`. -/
def sortCommand [UnicodeData] (reader : CommandWorkspaceReader σ) : VirtualCommand σ where
  descriptor := commandDescriptor (py "sort") true true true rfl
  execute request context :=
    match scanArguments isFlags (onlyFlags (py "nru")) request.argv.tail with
    | none => lift (invalidArguments (py "sort") (py "usage: sort [-nru] [FILE...]"))
    | some (options, operands) =>
      let given (flag : Char) : Bool := options.any fun option => CodePoint.ofChar flag ∈ option
      printInputs (py "sort") reader operands request context
        (sortOutput (given 'n') (given 'r') (given 'u'))

/-- What `uniq` prints of its first input. -/
def uniqOutput (count : Bool) : List CommandInput → Except PyError Text
  | [] => raise .indexError (py "list index out of range")
  | input :: _ =>
    let runs := ((records input.text).map withoutLf).splitBy (· == ·)
    .ok (runs.flatMap fun run =>
      (if count then padCount run.length ++ py " " else []) ++ run.headD [] ++ py "\n")

/-- `UniqCommand`. -/
def uniqCommand (reader : CommandWorkspaceReader σ) : VirtualCommand σ where
  descriptor := commandDescriptor (py "uniq") true true true rfl
  execute request context :=
    let count := decide (request.argv.tail.head? = some (py "-c"))
    let arguments := dropWord (py "--") (dropWord (py "-c") request.argv.tail)
    if 1 < arguments.length ∨ arguments.any isFlags then
      lift (invalidArguments (py "uniq") (py "usage: uniq [-c] [FILE]"))
    else
      printInputs (py "uniq") reader arguments request context (uniqOutput count)

/-! ## Section 4: Searches -/

/-- The options of `grep`. -/
structure GrepOptions where
  fixed : Bool := false
  ignoreCase : Bool := false
  invert : Bool := false
  lineNumbers : Bool := false
  filesOnly : Bool := false
  recursive : Bool := false

/-- One flag of an option of `grep`. -/
def GrepOptions.set (options : GrepOptions) (flag : CodePoint) : GrepOptions :=
  if flag = CodePoint.ofChar 'F' then { options with fixed := true }
  else if flag = CodePoint.ofChar 'E' then { options with fixed := false }
  else if flag = CodePoint.ofChar 'i' then { options with ignoreCase := true }
  else if flag = CodePoint.ofChar 'v' then { options with invert := true }
  else if flag = CodePoint.ofChar 'n' then { options with lineNumbers := true }
  else if flag = CodePoint.ofChar 'l' then { options with filesOnly := true }
  else { options with recursive := true }

/-- A text that `grep` searches. -/
structure GrepSource where
  label : Text
  text : Text

/-- The files below a directory that `grep -r` reads. -/
def grepTree (reader : CommandWorkspaceReader σ) (operand : Text) (root : SandboxPath) :
    List FoundNode → List GrepSource → Call σ Raised (List GrepSource)
  | [], sources => return sources
  | node :: rest, sources =>
    if node.kind = .file then do
      let result ← reader.readText node.path
      grepTree reader operand root rest
        (sources ++ [⟨displayPath operand root node.path, result.content⟩])
    else
      grepTree reader operand root rest sources

/-- The body of the `try` statement of `grep`, with the result of an early
    return. -/
def grepSources [CommandRuntime] (reader : CommandWorkspaceReader σ) (recursive : Bool)
    (request : CommandRequest) (context : CommandContext) :
    List Text → List GrepSource → Call σ Raised (Except CommandResult (List GrepSource))
  | [], sources => return .ok sources
  | operand :: rest, sources =>
    if operand = py "-" then
      grepSources reader recursive request context rest
        (sources ++ [⟨py "(standard input)", request.stdin⟩])
    else if protectsAny context.protection [operand] then do
      let failure ← lift (protectedValue (py "grep"))
      return .error failure
    else do
      let root ← reader.resolvePath operand context.cwd
      let entry ← reader.stat root
      if entry.kind = .directory then
        if recursive then do
          let found ← walk reader root none
          let sources ← grepTree reader operand root found sources
          grepSources reader recursive request context rest sources
        else do
          let failure ← lift (commandFailure (py "grep") (root.value ++ py " is a directory") [])
          return .error failure
      else do
        let result ← reader.readText root
        grepSources reader recursive request context rest (sources ++ [⟨operand, result.content⟩])

/-- The loop of `grep` over the records of one source, from a line number on:
    the output, and whether a record matched. -/
def grepRecords (search : Text → Except PyError Bool) (options : GrepOptions) (prefixFile : Bool)
    (label : Text) : Nat → List Text → Text × Bool → Except PyError (Text × Bool)
  | _, [], found => .ok found
  | lineNumber, record :: rest, (output, anyMatch) => do
    let matched ← search (withoutLf record)
    if matched = options.invert then
      grepRecords search options prefixFile label (lineNumber + 1) rest (output, anyMatch)
    else if options.filesOnly then
      .ok (output ++ label ++ py "\n", true)
    else
      let file := if prefixFile then label ++ py ":" else []
      let number := if options.lineNumbers then Text.ofNat lineNumber ++ py ":" else []
      grepRecords search options prefixFile label (lineNumber + 1) rest
        (output ++ file ++ number ++ withLf record, true)

/-- The loop of `grep` over its sources. -/
def grepOutput (search : Text → Except PyError Bool) (options : GrepOptions) (prefixFile : Bool) :
    List GrepSource → Text × Bool → Except PyError (Text × Bool)
  | [], found => .ok found
  | source :: rest, found => do
    let found ← grepRecords search options prefixFile source.label 1 (records source.text) found
    grepOutput search options prefixFile rest found

/-- The loop of `grep` over its options, `none` for a usage error. -/
def grepOptions : List Text → GrepOptions → Option (GrepOptions × List Text)
  | [], options => some (options, [])
  | argument :: rest, options =>
    if !isFlags argument then some (options, argument :: rest)
    else if argument = py "--" then some (options, rest)
    else if onlyFlags (py "FEivnlrR") argument then
      grepOptions rest ((argument.drop 1).foldl GrepOptions.set options)
    else none

/-- `grep` with a compiled pattern. -/
def grepSearch [CommandRuntime] (reader : CommandWorkspaceReader σ) (options : GrepOptions)
    (search : Text → Except PyError Bool) (arguments : List Text) (request : CommandRequest)
    (context : CommandContext) : Call σ Raised CommandResult := do
  let operands :=
    if arguments = [] then (if options.recursive then [py "."] else [py "-"]) else arguments
  match ← expecting (grepSources reader options.recursive request context operands []) with
  | .error message => lift (commandFailure (py "grep") message [])
  | .ok (.error failure) => return failure
  | .ok (.ok sources) => do
    let prefixFile := options.recursive || decide (1 < sources.length)
    let (output, anyMatch) ← lift (grepOutput search options prefixFile sources ([], false))
    if anyMatch then
      lift (printed output)
    else
      lift (CommandResult.failure 1 .noMatch [])

/-- `GrepCommand`. -/
def grepCommand [CommandRuntime] (reader : CommandWorkspaceReader σ) : VirtualCommand σ where
  descriptor := commandDescriptor (py "grep") true true true rfl
  execute request context :=
    let usage : Call σ Raised CommandResult :=
      lift (invalidArguments (py "grep") (py "usage: grep [-FEivnlrR] PATTERN [FILE...]"))
    match grepOptions request.argv.tail {} with
    | none => usage
    | some (_, []) => usage
    | some (options, pattern :: arguments) =>
      match CommandRuntime.compile (if options.fixed then reEscape pattern else pattern)
          options.ignoreCase with
      | .invalid message => lift (invalidArguments (py "grep") (py "invalid pattern: " ++ message))
      | .fails e => throw (.error e)
      | .expression search => grepSearch reader options search arguments request context
