import MemSandbox.CommandExecutor.Models

/-! # The command language

    `command_executor/parser.py`: the tokenizer, the construction of plans and
    the expansion of words.

    An index into the text or into the tokens is the list of what remains;
    reading past its end is the `IndexError` it is in the source, and every
    `assert` is a check that may fail.  The outer loops recurse on a remainder
    that has become shorter. -/

open Python

/-! ## Section 1: Tokens -/

/-- `_Operator`. -/
inductive Operator where
  | sequence
  | and
  | pipe
  | redirect
  | append
  deriving DecidableEq, Repr

/-- `_Token`. -/
inductive Token where
  | word (word : CommandWord)
  | operator (value : Operator)
  deriving DecidableEq

/-- `isinstance(token, CommandWord)`. -/
def Token.isWord : Token → Bool
  | .word _ => true
  | .operator _ => false

/-- The local variables of `tokenize`. -/
structure Tokenizer where
  tokens : List Token
  fragments : List WordFragment
  wordStarted : Bool
  deriving DecidableEq

namespace Tokenizer

/-- `flush_word`. -/
def flushWord (t : Tokenizer) : Tokenizer where
  tokens := if t.wordStarted then t.tokens ++ [.word ⟨t.fragments⟩] else t.tokens
  fragments := []
  wordStarted := false

/-- `append_fragment`. -/
def appendFragment (t : Tokenizer) (text : Text) (expands : Bool) : Tokenizer :=
  { t with fragments := t.fragments ++ [⟨text, expands⟩], wordStarted := true }

/-- `tokens.append(_OperatorToken(operator))`, after `flush_word()`. -/
def appendOperator (t : Tokenizer) (operator : Operator) : Tokenizer :=
  { t.flushWord with tokens := t.flushWord.tokens ++ [.operator operator] }

end Tokenizer

/-- The loop over a quoted word: the text since the last fragment, whether
    that is the whole of it (`index == start`), and what remains. -/
def quotedWord (quote : CodePoint) (expands : Bool) :
    Tokenizer → Text → Bool → Text → Except PyError (Tokenizer × Text)
  | _, _, _, [] => raise .commandSyntaxInvalid (py "unterminated quoted word")
  | t, segment, atStart, current :: rest =>
    if current = quote then
      .ok (t.appendFragment segment expands, rest)
    else if quote = CodePoint.ofChar '"' ∧ current = CodePoint.ofChar '\\' then
      match rest with
      | [] => raise .commandSyntaxInvalid (py "incomplete escape in double-quoted word")
      | escaped :: rest =>
        if escaped ∉ py "$`\"\\" then
          quotedWord quote expands t (segment ++ py "\\") false (escaped :: rest)
        else
          let t := if segment ≠ [] ∨ atStart then t.appendFragment segment expands else t
          quotedWord quote expands (t.appendFragment [escaped] false) [] true rest
    else if current ∈ py "\n\r" then
      raise .commandSyntaxUnsupported (py "multiline command input is unsupported")
    else
      quotedWord quote expands t (segment ++ [current]) false rest

/-- A quoted word ends before what remains of the text. -/
theorem quotedWord_length {quote : CodePoint} {expands : Bool} {t t' : Tokenizer}
    {segment : Text} {atStart : Bool} {text rest : Text}
    (h : quotedWord quote expands t segment atStart text = .ok (t', rest)) :
    rest.length < text.length := by
  fun_induction quotedWord quote expands t segment atStart text with
  | case1 => exact absurd h raise_ne_ok
  | case2 =>
    obtain ⟨-, rfl⟩ := Prod.mk.inj (Except.ok.inj h)
    simp
  | case3 => exact absurd h raise_ne_ok
  | case4 t segment atStart current _ _ escaped rest' _ ih =>
    have := ih h
    simp only [List.length_cons] at this ⊢
    omega
  | case5 t segment atStart current _ _ escaped rest' _ t₁ ih =>
    have := ih h
    simp only [List.length_cons] at this ⊢
    omega
  | case6 => exact absurd h raise_ne_ok
  | case7 t segment atStart current rest' _ _ _ ih =>
    have := ih h
    simp only [List.length_cons]
    omega

/-- What ends an unquoted run of a word. -/
def endsRun (c : CodePoint) : Bool := isWhitespace c || decide (c ∈ py "'\"\\#`()<>|&;")

theorem mem_special {c : CodePoint} : c ∈ py "'\"\\#`()<>|&;" ↔
    c ∈ py "'\"" ∨ c = CodePoint.ofChar '\\' ∨ c = CodePoint.ofChar '#' ∨
      c = CodePoint.ofChar '`' ∨ c ∈ py "()" ∨ c = CodePoint.ofChar '<' ∨
      c = CodePoint.ofChar '>' ∨ c = CodePoint.ofChar '|' ∨ c = CodePoint.ofChar '&' ∨
      c = CodePoint.ofChar ';' := by
  simp [py, or_assoc]

/-- A run is not empty where it begins with a character that does not end it. -/
theorem length_dropWhile_run {c : CodePoint} {rest : Text} (h : endsRun c = false) :
    ((c :: rest).dropWhile fun c => !endsRun c).length < (c :: rest).length := by
  rw [List.dropWhile_cons_of_pos (by rw [h]; rfl)]
  exact Nat.lt_succ_of_le (List.dropWhile_suffix _).length_le

/-- The outer loop of `tokenize`. -/
def tokenizeFrom (t : Tokenizer) (text : Text) : Except PyError Tokenizer :=
  match text with
  | [] => .ok t
  | character :: rest =>
    let two := (character :: rest).take 2
    if isWhitespace character then
      tokenizeFrom t.flushWord rest
    else if character ∈ py "'\"" then
      match _h : quotedWord character (character = CodePoint.ofChar '"')
          { t with wordStarted := true } [] true rest with
      | .ok (t', rest') => tokenizeFrom t' rest'
      | .error e => .error e
    else if character = CodePoint.ofChar '\\' then
      match rest with
      | [] => raise .commandSyntaxInvalid (py "incomplete escape at end of input")
      | escaped :: rest =>
        tokenizeFrom ({ t with wordStarted := true }.appendFragment [escaped] false) rest
    else if character = CodePoint.ofChar '#' then
      raise .commandSyntaxUnsupported (py "comments are unsupported")
    else if character = CodePoint.ofChar '`' then
      raise .commandSyntaxUnsupported (py "command substitution is unsupported")
    else if character ∈ py "()" then
      raise .commandSyntaxUnsupported (py "command and process substitution are unsupported")
    else if two = py "$(" then
      raise .commandSyntaxUnsupported (py "command substitution is unsupported")
    else if two = py "<(" ∨ two = py ">(" then
      raise .commandSyntaxUnsupported (py "process substitution is unsupported")
    else if two = py "||" then
      raise .commandSyntaxUnsupported (py "OR sequencing is unsupported")
    else if two = py "<<" then
      raise .commandSyntaxUnsupported (py "heredocs and input redirection are unsupported")
    else if character = CodePoint.ofChar '<' then
      raise .commandSyntaxUnsupported (py "input redirection is unsupported")
    else if character = CodePoint.ofChar '|' then
      tokenizeFrom (t.appendOperator .pipe) rest
    else if character = CodePoint.ofChar '&' ∧ two ≠ py "&&" then
      raise .commandSyntaxUnsupported (py "background jobs are unsupported")
    else if two = py "&&" then
      tokenizeFrom (t.appendOperator .and) (rest.drop 1)
    else if two = py ">>" then
      tokenizeFrom (t.appendOperator .append) (rest.drop 1)
    else if character = CodePoint.ofChar ';' then
      tokenizeFrom (t.appendOperator .sequence) rest
    else if character = CodePoint.ofChar '>' then
      tokenizeFrom (t.appendOperator .redirect) rest
    else
      let run := (character :: rest).takeWhile fun c => !endsRun c
      let rest' := (character :: rest).dropWhile fun c => !endsRun c
      if t.wordStarted = false ∧ isAsciiNumber run ∧ rest'.head? = some (CodePoint.ofChar '>') then
        raise .commandSyntaxUnsupported (py "file-descriptor redirection is unsupported")
      else
        tokenizeFrom (t.appendFragment run true) rest'
termination_by text.length
decreasing_by
  · simp
  · have := quotedWord_length _h
    simp only [List.length_cons]
    omega
  · simp
  · simp
  · simp only [List.length_drop, List.length_cons]
    omega
  · simp only [List.length_drop, List.length_cons]
    omega
  · simp
  · simp
  · apply length_dropWhile_run
    rename_i hspace hquote hbackslash hhash htick hparen _ _ _ _ hless hpipe hand handand _ hsemi
      hgreater _
    simp only [endsRun, Bool.or_eq_false_iff, decide_eq_false_iff_not, mem_special]
    simp only [Bool.not_eq_true] at hspace
    refine ⟨hspace, ?_⟩
    intro h
    have hamp : character ≠ CodePoint.ofChar '&' := fun heq => hand ⟨heq, handand⟩
    tauto

/-- `tokenize`. -/
def tokenize (command : Text) : Except PyError (List Token) := do
  require (CodePoint.ofChar '\n' ∉ command ∧ CodePoint.ofChar '\r' ∉ command)
    .commandSyntaxUnsupported (py "multiline command input is unsupported")
  let t ← tokenizeFrom ⟨[], [], false⟩ command
  .ok t.flushWord.tokens

/-! ## Section 2: Expansion -/

section Expansion

variable [UnicodeLetters]

/-- `_is_environment_name_character`. -/
def isNameCharacter (c : CodePoint) : Bool := isNameStart c || (0x30 ≤ c.val && c.val ≤ 0x39)

/-- `_environment_value`; a `CommandEnvironment` is a view without an overlay. -/
def environmentValue (name : Text) (environment : Option CommandEnvironmentView)
    (cwd : Option SandboxPath) : Except PyError Text :=
  match environment with
  | none => .ok []
  | some environment =>
    if name = py "PWD" then
      match cwd with
      | some cwd => .ok cwd.value
      | none => raise .assertionError []
    else
      environment.get name

/-- `_scan_expansion`. -/
def scanExpansion (environment : Option CommandEnvironmentView) (cwd : Option SandboxPath)
    (text : Text) : Except PyError Text :=
  match text with
  | [] => .ok []
  | c :: rest =>
    if c ≠ CodePoint.ofChar '$' then do
      let tail ← scanExpansion environment cwd rest
      .ok (c :: tail)
    else
      match rest with
      | [] => .ok (py "$")
      | next :: rest' =>
        if next = CodePoint.ofChar '\x7b' then
          let name := rest'.takeWhile fun c => c ≠ CodePoint.ofChar '\x7d'
          if CodePoint.ofChar '\x7d' ∉ rest' then
            raise .commandSyntaxInvalid (py "unterminated environment expansion")
          else if isEnvironmentName name = false then
            raise .commandSyntaxInvalid (py "invalid environment expansion name")
          else do
            let value ← environmentValue name environment cwd
            let tail ← scanExpansion environment cwd (rest'.drop (name.length + 1))
            .ok (value ++ tail)
        else if isNameStart next then do
          let value ← environmentValue (next :: rest'.takeWhile isNameCharacter) environment cwd
          let tail ← scanExpansion environment cwd (rest'.dropWhile isNameCharacter)
          .ok (value ++ tail)
        else if isAlpha next then
          raise .commandSyntaxInvalid (py "invalid environment expansion name")
        else do
          let tail ← scanExpansion environment cwd (next :: rest')
          .ok (CodePoint.ofChar '$' :: tail)
termination_by text.length
decreasing_by
  · simp
  · simp only [List.length_drop, List.length_cons]
    omega
  · have := (List.dropWhile_suffix isNameCharacter (l := rest')).length_le
    simp only [List.length_cons]
    omega
  · simp

/-- `expand_word`. -/
def expandWord (word : CommandWord) (environment : CommandEnvironmentView) (cwd : SandboxPath) :
    Except PyError Text := do
  let parts ← word.fragments.mapM fun fragment =>
    if fragment.expandsEnvironment then scanExpansion (some environment) (some cwd) fragment.text
    else .ok fragment.text
  .ok parts.flatten

/-- `_validate_word_expansions`. -/
def validateWordExpansions (word : CommandWord) : Except PyError Unit :=
  word.fragments.forM fun fragment =>
    if fragment.expandsEnvironment then do
      let _ ← scanExpansion none none fragment.text
      .ok ()
    else
      .ok ()

/-! ## Section 3: Plans -/

/-- `CommandStage(words)`. -/
def CommandStage.new (words : List CommandWord) : Except PyError CommandStage :=
  if h : words ≠ [] then .ok ⟨words, h⟩
  else raise .valueError (py "command stage words must not be empty")

/-- `PlanUnit(connector, stages, redirection)`. -/
def PlanUnit.new (connector : Connector) (stages : List CommandStage)
    (redirection : Option StdoutRedirection) : Except PyError PlanUnit :=
  if h : stages ≠ [] then .ok ⟨connector, stages, redirection, h⟩
  else raise .valueError (py "plan unit stages must not be empty")

/-- `ExecutionPlan(units)`. -/
def ExecutionPlan.new (units : List PlanUnit) : Except PyError ExecutionPlan :=
  if h : units ≠ [] then .ok ⟨units, h⟩
  else raise .valueError (py "execution plan units must not be empty")

/-- The loop over the words of a stage. -/
def parseWords : List Token → List CommandWord → Except PyError (List CommandWord × List Token)
  | .word word :: rest, words => do
    validateWordExpansions word
    parseWords rest (words ++ [word])
  | tokens, words => .ok (words, tokens)

theorem parseWords_length {tokens rest : List Token} {words words' : List CommandWord}
    (h : parseWords tokens words = .ok (words', rest)) : rest.length ≤ tokens.length := by
  fun_induction parseWords tokens words with
  | case1 word rest' words ih =>
    obtain ⟨_, -, h⟩ := Except.bind_eq_ok_iff.mp h
    have := ih h
    simp only [List.length_cons]
    omega
  | case2 tokens words =>
    obtain ⟨-, rfl⟩ := Prod.mk.inj (Except.ok.inj h)
    exact le_rfl

/-- The loop over the stages of a pipeline. -/
def parseStages (stages : List CommandStage) (tokens : List Token) :
    Except PyError (List CommandStage × List Token) :=
  match tokens with
  | [] => raise .indexError (py "tuple index out of range")
  | .operator _ :: _ => raise .commandSyntaxInvalid (py "expected a command word")
  | .word word :: rest =>
    match _h : parseWords (.word word :: rest) [] with
    | .error e => .error e
    | .ok (words, rest') =>
      match CommandStage.new words with
      | .error e => .error e
      | .ok stage =>
        match rest' with
        | [] => .ok (stages ++ [stage], [])
        | .word _ :: _ => raise .assertionError []
        | .operator operator :: rest'' =>
          if operator = .pipe then
            if rest'' = [] then
              raise .commandSyntaxInvalid (py "pipeline requires a following command")
            else
              parseStages (stages ++ [stage]) rest''
          else
            .ok (stages ++ [stage], .operator operator :: rest'')
termination_by tokens.length
decreasing_by
  have := parseWords_length _h
  simp only [List.length_cons] at this ⊢
  omega

/-- The redirection of a unit. -/
def parseRedirection : List Token → Except PyError (Option StdoutRedirection × List Token)
  | [] => .ok (none, [])
  | .word _ :: _ => raise .assertionError []
  | .operator operator :: rest =>
    if operator = .redirect ∨ operator = .append then
      match rest with
      | .word destination :: rest' => do
        validateWordExpansions destination
        require (rest'.head?.all fun token => !token.isWord) .commandSyntaxInvalid
          (py "stdout redirection must be trailing")
        require (rest'.head? ≠ some (.operator .pipe)) .commandSyntaxInvalid
          (py "stdout redirection is only allowed on the final pipeline stage")
        require (rest'.head? ≠ some (.operator .redirect) ∧
            rest'.head? ≠ some (.operator .append)) .commandSyntaxInvalid
          (py "only one stdout redirection is permitted")
        .ok (some ⟨if operator = .redirect then .replace else .append, destination⟩, rest')
      | _ => raise .commandSyntaxInvalid (py "stdout redirection requires one destination")
    else
      .ok (none, .operator operator :: rest)

theorem parseStages_length {tokens rest : List Token} {stages stages' : List CommandStage}
    (h : parseStages stages tokens = .ok (stages', rest)) : rest.length ≤ tokens.length := by
  fun_induction parseStages stages tokens with
  | case1 => exact absurd h raise_ne_ok
  | case2 => exact absurd h raise_ne_ok
  | case3 => cases h
  | case4 => cases h
  | case5 stages word rest' words hwords stage hstage =>
    obtain ⟨-, rfl⟩ := Prod.mk.inj (Except.ok.inj h)
    simp
  | case6 => exact absurd h raise_ne_ok
  | case7 => exact absurd h raise_ne_ok
  | case8 stages word rest' words stage hstage rest'' hne _ hwords ih =>
    have hrest := ih h
    have := parseWords_length hwords
    simp only [List.length_cons] at this ⊢
    omega
  | case9 stages word rest' words stage hstage operator rest'' hwords hop =>
    obtain ⟨-, rfl⟩ := Prod.mk.inj (Except.ok.inj h)
    exact parseWords_length hwords

theorem parseRedirection_length {tokens rest : List Token} {redirection : Option StdoutRedirection}
    (h : parseRedirection tokens = .ok (redirection, rest)) : rest.length ≤ tokens.length := by
  cases tokens with
  | nil =>
    obtain ⟨-, rfl⟩ := Prod.mk.inj (Except.ok.inj h)
    exact le_rfl
  | cons token tokens =>
    cases token with
    | word => exact absurd h raise_ne_ok
    | operator operator =>
      simp only [parseRedirection] at h
      split at h
      · split at h
        · simp only [Except.bind_eq_ok_iff, Except.ok.injEq, Prod.mk.injEq] at h
          obtain ⟨_, _, _, _, _, _, _, _, -, rfl⟩ := h
          simp only [List.length_cons]
          omega
        · exact absurd h raise_ne_ok
      · obtain ⟨-, rfl⟩ := Prod.mk.inj (Except.ok.inj h)
        exact le_rfl

/-- The loop over the units of a plan. -/
def parseUnits (connector : Connector) (units : List PlanUnit) (tokens : List Token) :
    Except PyError (List PlanUnit) :=
  match tokens with
  | [] => .ok units
  | token :: tokens =>
    match _h : parseStages [] (token :: tokens) with
    | .error e => .error e
    | .ok (stages, rest) =>
      match _h' : parseRedirection rest with
      | .error e => .error e
      | .ok (redirection, rest) =>
        match PlanUnit.new connector stages redirection with
        | .error e => .error e
        | .ok unit =>
          match rest with
          | [] => .ok (units ++ [unit])
          | .word _ :: _ => raise .assertionError []
          | .operator separator :: rest =>
            if separator = .sequence ∨ separator = .and then
              if rest = [] then
                raise .commandSyntaxInvalid (py "input ends with an incomplete separator")
              else
                parseUnits (if separator = .sequence then .always else .onSuccess)
                  (units ++ [unit]) rest
            else
              raise .commandSyntaxInvalid (py "unexpected redirection operator")
termination_by tokens.length
decreasing_by
  have hstages := parseStages_length _h
  have hredirection := parseRedirection_length _h'
  simp only [List.length_cons] at hstages hredirection ⊢
  omega

/-- `parse_execution_plan`, of the tokens. -/
def parseTokens (tokens : List Token) : Except PyError ExecutionPlan := do
  require (tokens ≠ []) .commandEmpty (py "command text must contain a command")
  let units ← parseUnits .always [] tokens
  ExecutionPlan.new units

/-- `parse_execution_plan`. -/
def parseExecutionPlan (command : Text) : Except PyError ExecutionPlan := do
  let tokens ← tokenize command
  parseTokens tokens

end Expansion
