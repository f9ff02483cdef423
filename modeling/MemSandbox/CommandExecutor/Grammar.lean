import MemSandbox.CommandExecutor.Parser

/-! # The grammar of plans

    What `parse_execution_plan` accepts of the tokens, and what it makes of
    them.  A plan is written back as tokens (`ExecutionPlan.write`); parsing is
    the inverse of writing, and the written plans are the token sequences of
    the grammar. -/

open Python

/-! ## Section 1: Writing a plan -/

/-- The tokens of a stage. -/
def CommandStage.write (stage : CommandStage) : List Token := stage.words.map .word

/-- The tokens of a pipeline. -/
def writeStages : List CommandStage → List Token
  | [] => []
  | stage :: rest => stage.write ++ rest.flatMap fun stage => .operator .pipe :: stage.write

theorem writeStages_cons {stage : CommandStage} {stages : List CommandStage} (hne : stages ≠ []) :
    writeStages (stage :: stages) = stage.write ++ Token.operator .pipe :: writeStages stages := by
  cases stages with
  | nil => exact absurd rfl hne
  | cons next stages => simp [writeStages]

theorem writeStages_ne_nil {stages : List CommandStage} (hne : stages ≠ []) :
    writeStages stages ≠ [] := by
  cases stages with
  | nil => exact absurd rfl hne
  | cons stage stages =>
    obtain ⟨words, hwords⟩ := stage
    simp [writeStages, CommandStage.write, hwords]

/-- The operator of a redirection. -/
def RedirectionMode.operator : RedirectionMode → Operator
  | .replace => .redirect
  | .append => .append

/-- The tokens of a redirection. -/
def StdoutRedirection.write (redirection : StdoutRedirection) : List Token :=
  [.operator redirection.mode.operator, .word redirection.destination]

/-- The tokens of an optional redirection. -/
def writeRedirection : Option StdoutRedirection → List Token
  | none => []
  | some redirection => redirection.write

/-- The tokens of a unit, after its connector. -/
def PlanUnit.write (unit : PlanUnit) : List Token :=
  writeStages unit.stages ++ writeRedirection unit.redirection

/-- The operator of a connector. -/
def Connector.operator : Connector → Operator
  | .always => .sequence
  | .onSuccess => .and

/-- The tokens of units, each but the first after its connector. -/
def writeUnits : List PlanUnit → List Token
  | [] => []
  | unit :: rest => unit.write ++ rest.flatMap fun unit => .operator unit.connector.operator :: unit.write

theorem writeUnits_cons {unit next : PlanUnit} {rest : List PlanUnit} :
    writeUnits (unit :: next :: rest) =
      unit.write ++ Token.operator next.connector.operator :: writeUnits (next :: rest) := by
  simp [writeUnits]

theorem writeUnits_ne_nil {unit : PlanUnit} {rest : List PlanUnit} :
    writeUnits (unit :: rest) ≠ [] := by
  intro h
  rw [writeUnits, PlanUnit.write] at h
  exact writeStages_ne_nil unit.nonempty
    (List.append_eq_nil_iff.mp (List.append_eq_nil_iff.mp h).1).1

theorem Connector.operator_separates (connector : Connector) :
    connector.operator = .sequence ∨ connector.operator = .and := by
  cases connector with
  | always => exact .inl rfl
  | onSuccess => exact .inr rfl

/-- The tokens of a plan. -/
def ExecutionPlan.write (plan : ExecutionPlan) : List Token := writeUnits plan.units

/-- `stage = word word*` -/
inductive StageTokens : List Token → Prop
  | word (word : CommandWord) : StageTokens [.word word]
  | more (word : CommandWord) {tokens : List Token} (h : StageTokens tokens) :
      StageTokens (.word word :: tokens)

/-- `stage ('|' stage)*` -/
inductive PipelineTokens : List Token → Prop
  | stage {tokens : List Token} (h : StageTokens tokens) : PipelineTokens tokens
  | pipe {stage tokens : List Token} (hstage : StageTokens stage) (h : PipelineTokens tokens) :
      PipelineTokens (stage ++ .operator .pipe :: tokens)

/-- `unit = stage ('|' stage)* [('>' | '>>') word]` -/
inductive UnitTokens : List Token → Prop
  | pipeline {tokens : List Token} (h : PipelineTokens tokens) : UnitTokens tokens
  | redirected {tokens : List Token} {operator : Operator} {word : CommandWord}
      (h : PipelineTokens tokens) (hoperator : operator = .redirect ∨ operator = .append) :
      UnitTokens (tokens ++ [.operator operator, .word word])

/-- `plan = unit ((';' | '&&') unit)*` -/
inductive PlanTokens : List Token → Prop
  | unit {tokens : List Token} (h : UnitTokens tokens) : PlanTokens tokens
  | more {unit tokens : List Token} {operator : Operator} (hunit : UnitTokens unit)
      (hoperator : operator = .sequence ∨ operator = .and) (h : PlanTokens tokens) :
      PlanTokens (unit ++ .operator operator :: tokens)

/-! ## Section 2: Grammar and writing -/

theorem stageTokens_iff {tokens : List Token} : StageTokens tokens ↔ ∃ stage, CommandStage.write stage = tokens := by
  constructor
  · intro h
    induction h with
    | word word => exact ⟨⟨[word], List.cons_ne_nil _ _⟩, rfl⟩
    | more word _ ih =>
      obtain ⟨stage, rfl⟩ := ih
      exact ⟨⟨word :: stage.words, List.cons_ne_nil _ _⟩, rfl⟩
  · intro h
    obtain ⟨⟨words, hwords⟩, rfl⟩ := h
    induction words with
    | nil => exact absurd rfl hwords
    | cons word words ih =>
      cases words with
      | nil => exact .word word
      | cons next words => exact .more word (ih (List.cons_ne_nil _ _))

theorem pipelineTokens_iff {tokens : List Token} :
    PipelineTokens tokens ↔ ∃ stages, stages ≠ [] ∧ writeStages stages = tokens := by
  constructor
  · intro h
    induction h with
    | stage h =>
      obtain ⟨stage, rfl⟩ := stageTokens_iff.mp h
      exact ⟨[stage], List.cons_ne_nil _ _, by simp [writeStages]⟩
    | pipe hstage _ ih =>
      obtain ⟨stage, rfl⟩ := stageTokens_iff.mp hstage
      obtain ⟨stages, hne, rfl⟩ := ih
      refine ⟨stage :: stages, List.cons_ne_nil _ _, ?_⟩
      rw [writeStages_cons hne]
  · intro h
    obtain ⟨stages, hne, rfl⟩ := h
    induction stages with
    | nil => exact absurd rfl hne
    | cons stage stages ih =>
      have hstage : StageTokens stage.write := stageTokens_iff.mpr ⟨stage, rfl⟩
      cases stages with
      | nil =>
        rw [writeStages, List.flatMap_nil, List.append_nil]
        exact .stage hstage
      | cons next stages =>
        rw [writeStages_cons (List.cons_ne_nil _ _)]
        exact .pipe hstage (ih (List.cons_ne_nil _ _))

theorem unitTokens_iff {tokens : List Token} :
    UnitTokens tokens ↔ ∃ unit : PlanUnit, unit.write = tokens := by
  constructor
  · intro h
    cases h with
    | pipeline h =>
      obtain ⟨stages, hne, rfl⟩ := pipelineTokens_iff.mp h
      exact ⟨⟨.always, stages, none, hne⟩, by simp [PlanUnit.write, writeRedirection]⟩
    | redirected h hoperator =>
      rename_i word
      obtain ⟨stages, hne, rfl⟩ := pipelineTokens_iff.mp h
      rcases hoperator with rfl | rfl
      · exact ⟨⟨.always, stages, some ⟨.replace, word⟩, hne⟩, rfl⟩
      · exact ⟨⟨.always, stages, some ⟨.append, word⟩, hne⟩, rfl⟩
  · intro h
    obtain ⟨⟨connector, stages, redirection, hne⟩, rfl⟩ := h
    have hpipeline : PipelineTokens (writeStages stages) := pipelineTokens_iff.mpr ⟨stages, hne, rfl⟩
    cases redirection with
    | none =>
      rw [PlanUnit.write, writeRedirection, List.append_nil]
      exact .pipeline hpipeline
    | some redirection =>
      apply UnitTokens.redirected hpipeline
      cases redirection.mode with
      | replace => exact .inl rfl
      | append => exact .inr rfl

/-- The sequences of the grammar are the written plans. -/
theorem planTokens_iff {tokens : List Token} :
    PlanTokens tokens ↔ ∃ unit rest, unit.connector = .always ∧ writeUnits (unit :: rest) = tokens := by
  constructor
  · intro h
    induction h with
    | unit h =>
      obtain ⟨unit, rfl⟩ := unitTokens_iff.mp h
      exact ⟨{ unit with connector := .always }, [], rfl, by simp [writeUnits, PlanUnit.write]⟩
    | more hunit hoperator _ ih =>
      rename_i operator
      obtain ⟨unit, rfl⟩ := unitTokens_iff.mp hunit
      obtain ⟨next, rest, hnext, rfl⟩ := ih
      rcases hoperator with rfl | rfl
      · exact ⟨{ unit with connector := .always }, next :: rest, rfl, by
          simp [writeUnits, PlanUnit.write, hnext, Connector.operator]⟩
      · exact ⟨{ unit with connector := .always }, { next with connector := .onSuccess } :: rest, rfl,
          by simp [writeUnits, PlanUnit.write, Connector.operator]⟩
  · intro h
    obtain ⟨unit, rest, -, rfl⟩ := h
    induction rest generalizing unit with
    | nil =>
      rw [writeUnits, List.flatMap_nil, List.append_nil]
      exact .unit (unitTokens_iff.mpr ⟨unit, rfl⟩)
    | cons next rest ih =>
      rw [writeUnits_cons]
      exact .more (unitTokens_iff.mpr ⟨unit, rfl⟩) next.connector.operator_separates (ih next)

/-! ## Section 3: What the parser accepts -/

theorem CommandStage.new_eq_ok {words : List CommandWord} {stage : CommandStage} :
    CommandStage.new words = .ok stage ↔ stage.words = words := by
  obtain ⟨words', hne⟩ := stage
  unfold CommandStage.new
  constructor
  · intro h
    split at h
    · exact (congrArg CommandStage.words (Except.ok.inj h)).symm
    · exact absurd h raise_ne_ok
  · intro h
    subst h
    rw [dif_pos hne]

theorem PlanUnit.new_eq_ok {connector : Connector} {stages : List CommandStage}
    {redirection : Option StdoutRedirection} {unit : PlanUnit} :
    PlanUnit.new connector stages redirection = .ok unit ↔
      unit.connector = connector ∧ unit.stages = stages ∧ unit.redirection = redirection := by
  obtain ⟨connector', stages', redirection', hne⟩ := unit
  unfold PlanUnit.new
  constructor
  · intro h
    split at h
    · cases Except.ok.inj h
      exact ⟨rfl, rfl, rfl⟩
    · exact absurd h raise_ne_ok
  · intro h
    obtain ⟨rfl, rfl, rfl⟩ := h
    rw [dif_pos hne]

theorem ExecutionPlan.new_eq_ok {units : List PlanUnit} {plan : ExecutionPlan} :
    ExecutionPlan.new units = .ok plan ↔ plan.units = units := by
  obtain ⟨units', hne⟩ := plan
  unfold ExecutionPlan.new
  constructor
  · intro h
    split at h
    · exact (congrArg ExecutionPlan.units (Except.ok.inj h)).symm
    · exact absurd h raise_ne_ok
  · intro h
    subst h
    rw [dif_pos hne]

section Parser

variable [UnicodeLetters]

/-- Every fragment of the word that expands passes the scan. -/
def CommandWord.Expands (word : CommandWord) : Prop :=
  ∀ fragment ∈ word.fragments, fragment.expandsEnvironment = true →
    ∃ value, scanExpansion none none fragment.text = .ok value

theorem validateWordExpansions_eq_ok {word : CommandWord} {u : Unit} :
    validateWordExpansions word = .ok u ↔ word.Expands := by
  obtain ⟨fragments⟩ := word
  unfold validateWordExpansions CommandWord.Expands
  induction fragments with
  | nil => simp [pure, Except.pure]
  | cons fragment rest ih =>
    simp only [List.forM_eq_forM, List.forM_cons, List.forall_mem_cons, Except.bind_eq_ok_iff] at ih ⊢
    cases fragment.expandsEnvironment with
    | false => simp [ih]
    | true => simp [ih, Except.bind_eq_ok_iff]

/-- The words of a token sequence pass the scan. -/
def WordsExpand (tokens : List Token) : Prop :=
  ∀ word, .word word ∈ tokens → word.Expands

theorem wordsExpand_append {tokens rest : List Token} :
    WordsExpand (tokens ++ rest) ↔ WordsExpand tokens ∧ WordsExpand rest := by
  unfold WordsExpand
  constructor
  · intro h
    exact ⟨fun word hmem => h word (List.mem_append_left _ hmem),
      fun word hmem => h word (List.mem_append_right _ hmem)⟩
  · intro h word hmem
    rcases List.mem_append.mp hmem with hmem | hmem
    · exact h.1 word hmem
    · exact h.2 word hmem

theorem wordsExpand_word {word : CommandWord} {rest : List Token} :
    WordsExpand (.word word :: rest) ↔ word.Expands ∧ WordsExpand rest := by
  unfold WordsExpand
  constructor
  · intro h
    exact ⟨h word List.mem_cons_self, fun other hmem => h other (List.mem_cons_of_mem _ hmem)⟩
  · intro h other hmem
    rcases List.mem_cons.mp hmem with hother | hmem
    · cases hother
      exact h.1
    · exact h.2 other hmem

theorem wordsExpand_operator {operator : Operator} {rest : List Token} :
    WordsExpand (.operator operator :: rest) ↔ WordsExpand rest := by
  unfold WordsExpand
  constructor
  · exact fun h word hmem => h word (List.mem_cons_of_mem _ hmem)
  · intro h word hmem
    rcases List.mem_cons.mp hmem with hword | hmem
    · cases hword
    · exact h word hmem

theorem wordsExpand_nil : WordsExpand [] := by
  intro word hmem
  exact absurd hmem List.not_mem_nil

/-- The tokens do not go on with a word. -/
def EndsWords (tokens : List Token) : Prop := tokens.head?.all (fun token => !token.isWord) = true

theorem parseWords_eq_ok {tokens rest : List Token} {words words' : List CommandWord} :
    parseWords tokens words = .ok (words', rest) ↔
      ∃ new, words' = words ++ new ∧ tokens = new.map .word ++ rest ∧ EndsWords rest ∧
        WordsExpand (new.map .word) := by
  induction tokens generalizing words with
  | nil =>
    simp only [parseWords, Except.ok.injEq, Prod.mk.injEq]
    constructor
    · intro h
      obtain ⟨rfl, rfl⟩ := h
      exact ⟨[], by simp, rfl, rfl, wordsExpand_nil⟩
    · intro h
      obtain ⟨new, rfl, htokens, -, -⟩ := h
      obtain ⟨hnew, rfl⟩ := List.append_eq_nil_iff.mp htokens.symm
      rw [List.map_eq_nil_iff.mp hnew]
      simp
  | cons token tokens ih =>
    cases token with
    | word word =>
      simp only [parseWords, Except.bind_eq_ok_iff, validateWordExpansions_eq_ok, ih]
      constructor
      · intro h
        obtain ⟨_, hword, new, rfl, rfl, hends, hexpand⟩ := h
        exact ⟨word :: new, by simp, rfl, hends, wordsExpand_word.mpr ⟨hword, hexpand⟩⟩
      · intro h
        obtain ⟨new, rfl, htokens, hends, hexpand⟩ := h
        cases new with
        | nil =>
          rw [List.map_nil, List.nil_append] at htokens
          rw [← htokens] at hends
          exact absurd hends (by simp [EndsWords, Token.isWord])
        | cons first new =>
          simp only [List.map_cons, List.cons_append, List.cons.injEq, Token.word.injEq] at htokens
          obtain ⟨rfl, rfl⟩ := htokens
          obtain ⟨hword, hexpand⟩ := wordsExpand_word.mp hexpand
          exact ⟨(), hword, new, by simp, rfl, hends, hexpand⟩
    | operator operator =>
      simp only [parseWords, Except.ok.injEq, Prod.mk.injEq]
      constructor
      · intro h
        obtain ⟨rfl, rfl⟩ := h
        exact ⟨[], by simp, rfl, rfl, wordsExpand_nil⟩
      · intro h
        obtain ⟨new, rfl, htokens, -, -⟩ := h
        cases new with
        | nil => exact ⟨by simp, htokens⟩
        | cons first new => simp at htokens

/-- The tokens do not go on with a word or a pipe. -/
def EndsPipeline (tokens : List Token) : Prop :=
  EndsWords tokens ∧ tokens.head? ≠ some (.operator .pipe)


/-- The words of one stage. -/
theorem write_of_parseWords {tokens rest : List Token} {words : List CommandWord}
    {stage : CommandStage} (h : parseWords tokens [] = .ok (words, rest))
    (hstage : CommandStage.new words = .ok stage) :
    tokens = stage.write ++ rest ∧ EndsWords rest ∧ WordsExpand stage.write := by
  obtain ⟨new, hwords, htokens, hends, hexpand⟩ := parseWords_eq_ok.mp h
  rw [List.nil_append] at hwords
  rw [CommandStage.write, CommandStage.new_eq_ok.mp hstage, hwords]
  exact ⟨htokens, hends, hexpand⟩

/-- What `parseStages` does after a stage. -/
def afterStage (stages : List CommandStage) :
    List Token → Except PyError (List CommandStage × List Token)
  | [] => .ok (stages, [])
  | .word _ :: _ => raise .assertionError []
  | .operator operator :: rest =>
    if operator = .pipe then
      if rest = [] then
        raise .commandSyntaxInvalid (py "pipeline requires a following command")
      else
        parseStages stages rest
    else
      .ok (stages, .operator operator :: rest)

theorem parseStages_write {stages : List CommandStage} {stage : CommandStage} {tail : List Token}
    (hends : EndsWords tail) (hexpand : WordsExpand stage.write) :
    parseStages stages (stage.write ++ tail) = afterStage (stages ++ [stage]) tail := by
  have hwords : parseWords (stage.write ++ tail) [] = .ok (stage.words, tail) :=
    parseWords_eq_ok.mpr ⟨stage.words, rfl, rfl, hends, hexpand⟩
  have hnew : CommandStage.new stage.words = .ok stage := CommandStage.new_eq_ok.mpr rfl
  obtain ⟨word, more, hwrite⟩ : ∃ word more, stage.write = .word word :: more := by
    obtain ⟨words, hne⟩ := stage
    cases words with
    | nil => exact absurd rfl hne
    | cons word more => exact ⟨word, more.map .word, rfl⟩
  rw [hwrite, List.cons_append] at hwords ⊢
  rw [parseStages]
  split
  · next e he =>
    rw [hwords] at he
    cases he
  · next words rest he =>
    rw [hwords] at he
    obtain ⟨rfl, rfl⟩ := Prod.mk.inj (Except.ok.inj he)
    rw [hnew]
    cases tail with
    | nil => rfl
    | cons token rest => cases token <;> rfl

theorem parseStages_eq_ok {tokens rest : List Token} {stages stages' : List CommandStage} :
    parseStages stages tokens = .ok (stages', rest) ↔
      ∃ new, new ≠ [] ∧ stages' = stages ++ new ∧ tokens = writeStages new ++ rest ∧
        EndsPipeline rest ∧ WordsExpand (writeStages new) := by
  constructor
  · intro h
    fun_induction parseStages stages tokens with
    | case1 => exact absurd h raise_ne_ok
    | case2 => exact absurd h raise_ne_ok
    | case3 => cases h
    | case4 => cases h
    | case5 stages word rest' words stage hstage hwords =>
      obtain ⟨rfl, rfl⟩ := Prod.mk.inj (Except.ok.inj h)
      obtain ⟨htokens, -, hexpand⟩ := write_of_parseWords hwords hstage
      refine ⟨[stage], List.cons_ne_nil _ _, rfl, ?_, ⟨rfl, by simp⟩, ?_⟩
      · simpa [writeStages] using htokens
      · simpa [writeStages] using hexpand
    | case6 => exact absurd h raise_ne_ok
    | case7 => exact absurd h raise_ne_ok
    | case8 stages word rest' words stage hstage rest'' hne _ hwords ih =>
      obtain ⟨more, hmore, rfl, rfl, hends, hexpand'⟩ := ih h
      obtain ⟨htokens, -, hexpand⟩ := write_of_parseWords hwords hstage
      refine ⟨stage :: more, List.cons_ne_nil _ _, by simp, ?_, hends, ?_⟩
      · rw [htokens, writeStages_cons hmore]
        simp
      · rw [writeStages_cons hmore, wordsExpand_append, wordsExpand_operator]
        exact ⟨hexpand, hexpand'⟩
    | case9 stages word rest' words stage hstage operator rest'' hwords hop =>
      obtain ⟨rfl, rfl⟩ := Prod.mk.inj (Except.ok.inj h)
      obtain ⟨htokens, hends, hexpand⟩ := write_of_parseWords hwords hstage
      refine ⟨[stage], List.cons_ne_nil _ _, rfl, ?_, ⟨hends, ?_⟩, ?_⟩
      · simpa [writeStages] using htokens
      · simpa using hop
      · simpa [writeStages] using hexpand
  · intro h
    obtain ⟨new, hne, rfl, rfl, hends, hexpand⟩ := h
    induction new generalizing stages with
    | nil => exact absurd rfl hne
    | cons stage more ih =>
      by_cases hmore : more = []
      · subst hmore
        simp only [writeStages, List.flatMap_nil, List.append_nil] at hexpand ⊢
        rw [parseStages_write hends.1 hexpand]
        cases rest with
        | nil => rfl
        | cons token rest =>
          cases token with
          | word word => exact absurd hends.1 (by simp [EndsWords, Token.isWord])
          | operator operator =>
            have hop : operator ≠ .pipe := by simpa using hends.2
            exact if_neg hop
      · rw [writeStages_cons hmore, wordsExpand_append, wordsExpand_operator] at hexpand
        rw [writeStages_cons hmore, List.append_assoc, List.cons_append,
          parseStages_write (by simp [EndsWords, Token.isWord]) hexpand.1]
        have hrest : writeStages more ++ rest ≠ [] := by
          intro h
          exact writeStages_ne_nil hmore (List.append_eq_nil_iff.mp h).1
        rw [afterStage, if_pos rfl, if_neg hrest, ih hmore hexpand.2, List.append_assoc, List.singleton_append]

/-- The tokens are at their end or go on with a separator. -/
def EndsUnit (tokens : List Token) : Prop :=
  tokens = [] ∨ ∃ operator rest, tokens = .operator operator :: rest ∧
    (operator = .sequence ∨ operator = .and)

omit [UnicodeLetters] in
theorem EndsUnit.endsPipeline {tokens : List Token} (h : EndsUnit tokens) : EndsPipeline tokens := by
  rcases h with rfl | ⟨operator, rest, rfl, rfl | rfl⟩
  · exact ⟨rfl, nofun⟩
  · exact ⟨rfl, by simp⟩
  · exact ⟨rfl, by simp⟩

omit [UnicodeLetters] in
/-- The checks after a redirection leave a separator or nothing. -/
theorem endsUnit_iff {tokens : List Token} :
    EndsUnit tokens ↔ EndsWords tokens ∧ tokens.head? ≠ some (.operator .pipe) ∧
      tokens.head? ≠ some (.operator .redirect) ∧ tokens.head? ≠ some (.operator .append) := by
  cases tokens with
  | nil => simp [EndsUnit, EndsWords]
  | cons token rest =>
    cases token with
    | word word => simp [EndsUnit, EndsWords, Token.isWord]
    | operator operator => cases operator <;> simp [EndsUnit, EndsWords, Token.isWord]

theorem parseRedirection_mode {mode : RedirectionMode} {tokens rest : List Token}
    {redirection : Option StdoutRedirection} :
    parseRedirection (.operator mode.operator :: tokens) = .ok (redirection, rest) ↔
      ∃ destination, redirection = some ⟨mode, destination⟩ ∧ tokens = .word destination :: rest ∧
        EndsUnit rest ∧ destination.Expands := by
  have hop : mode.operator = .redirect ∨ mode.operator = .append := by
    cases mode with
    | replace => exact .inl rfl
    | append => exact .inr rfl
  have hmode : (if mode.operator = .redirect then RedirectionMode.replace else .append) = mode := by
    cases mode <;> rfl
  unfold parseRedirection
  dsimp only
  rw [if_pos hop]
  cases tokens with
  | nil => simp [raise]
  | cons token tokens =>
    cases token with
    | operator operator => simp [raise]
    | word destination =>
      simp only [Except.bind_eq_ok_iff, validateWordExpansions_eq_ok, require_eq_ok, hmode,
        Except.ok.injEq, Prod.mk.injEq, List.cons.injEq, Token.word.injEq]
      constructor
      · intro h
        obtain ⟨_, hexpand, _, hwords, _, hpipe, _, ⟨hredirect, happend⟩, rfl, rfl⟩ := h
        exact ⟨destination, rfl, ⟨rfl, rfl⟩, endsUnit_iff.mpr ⟨hwords, hpipe, hredirect, happend⟩,
          hexpand⟩
      · intro h
        obtain ⟨_, rfl, ⟨rfl, rfl⟩, hends, hexpand⟩ := h
        obtain ⟨hwords, hpipe, hredirect, happend⟩ := endsUnit_iff.mp hends
        exact ⟨(), hexpand, (), hwords, (), hpipe, (), ⟨hredirect, happend⟩, rfl, rfl⟩

theorem parseRedirection_none {operator : Operator} {tokens rest : List Token}
    {redirection : Option StdoutRedirection} (hredirect : operator ≠ .redirect)
    (happend : operator ≠ .append) :
    parseRedirection (.operator operator :: tokens) = .ok (redirection, rest) ↔
      redirection = none ∧ rest = .operator operator :: tokens := by
  unfold parseRedirection
  dsimp only
  rw [if_neg (not_or.mpr ⟨hredirect, happend⟩)]
  simp only [Except.ok.injEq, Prod.mk.injEq]
  exact and_congr eq_comm eq_comm

/-- Where a pipeline has ended there is a redirection or none. -/
theorem parseRedirection_cases {tokens rest : List Token} {redirection : Option StdoutRedirection}
    (hends : EndsPipeline tokens) (h : parseRedirection tokens = .ok (redirection, rest)) :
    (redirection = none ∧ rest = tokens) ∨ ∃ mode destination,
      redirection = some ⟨mode, destination⟩ ∧
        tokens = .operator mode.operator :: .word destination :: rest ∧ EndsUnit rest ∧
        destination.Expands := by
  cases tokens with
  | nil =>
    obtain ⟨rfl, rfl⟩ := Prod.mk.inj (Except.ok.inj h)
    exact .inl ⟨rfl, rfl⟩
  | cons token tokens =>
    cases token with
    | word word => exact absurd hends.1 (by simp [EndsWords, Token.isWord])
    | operator operator =>
      by_cases hmode : ∃ mode : RedirectionMode, mode.operator = operator
      · obtain ⟨mode, rfl⟩ := hmode
        obtain ⟨destination, rfl, rfl, hends, hexpand⟩ := parseRedirection_mode.mp h
        exact .inr ⟨mode, destination, rfl, rfl, hends, hexpand⟩
      · exact .inl ((parseRedirection_none (fun h => hmode ⟨.replace, h.symm⟩)
          fun h => hmode ⟨.append, h.symm⟩).mp h)

theorem EndsPipeline.of_redirection {tokens rest : List Token}
    {redirection : Option StdoutRedirection} (hends : EndsPipeline tokens)
    (h : parseRedirection tokens = .ok (redirection, rest)) : EndsWords rest := by
  obtain ⟨-, rfl⟩ | ⟨_, _, -, -, hrest, -⟩ := parseRedirection_cases hends h
  · exact hends.1
  · exact hrest.endsPipeline.1

/-- One unit, from its first word on. -/
theorem parseUnit_eq_ok {tokens rest : List Token} {stages : List CommandStage}
    {redirection : Option StdoutRedirection} :
    (∃ rest', parseStages [] tokens = .ok (stages, rest') ∧
        parseRedirection rest' = .ok (redirection, rest) ∧ EndsUnit rest) ↔
      stages ≠ [] ∧ tokens = writeStages stages ++ (writeRedirection redirection ++ rest) ∧
        EndsUnit rest ∧ WordsExpand (writeStages stages) ∧
        WordsExpand (writeRedirection redirection) := by
  constructor
  · intro h
    obtain ⟨rest', hstages, hredirection, hends⟩ := h
    obtain ⟨new, hne, rfl, rfl, hpipeline, hexpand⟩ := parseStages_eq_ok.mp hstages
    refine ⟨hne, ?_⟩
    obtain ⟨rfl, rfl⟩ | ⟨mode, destination, rfl, rfl, -, hexpand'⟩ :=
      parseRedirection_cases hpipeline hredirection
    · exact ⟨rfl, hends, hexpand, wordsExpand_nil⟩
    · exact ⟨rfl, hends, hexpand, wordsExpand_operator.mpr
        (wordsExpand_word.mpr ⟨hexpand', wordsExpand_nil⟩)⟩
  · intro h
    obtain ⟨hne, rfl, hends, hexpand, hexpand'⟩ := h
    cases redirection with
    | none =>
      refine ⟨rest, parseStages_eq_ok.mpr ⟨stages, hne, rfl, rfl, hends.endsPipeline, hexpand⟩, ?_,
        hends⟩
      rcases hends with rfl | ⟨operator, more, rfl, hop⟩
      · rfl
      · apply (parseRedirection_none ?_ ?_).mpr ⟨rfl, rfl⟩
        · rcases hop with rfl | rfl <;> simp
        · rcases hop with rfl | rfl <;> simp
    | some redirection =>
      obtain ⟨mode, destination⟩ := redirection
      have hpipeline : EndsPipeline (.operator mode.operator :: .word destination :: rest) := by
        cases mode with
        | replace => exact ⟨rfl, by simp [RedirectionMode.operator]⟩
        | append => exact ⟨rfl, by simp [RedirectionMode.operator]⟩
      refine ⟨_, parseStages_eq_ok.mpr ⟨stages, hne, rfl, rfl, hpipeline, hexpand⟩, ?_, hends⟩
      exact parseRedirection_mode.mpr ⟨destination, rfl, rfl, hends,
        (wordsExpand_word.mp (wordsExpand_operator.mp hexpand')).1⟩

/-- What `parseUnits` does after a unit. -/
def afterUnit (units : List PlanUnit) : List Token → Except PyError (List PlanUnit)
  | [] => .ok units
  | .word _ :: _ => raise .assertionError []
  | .operator separator :: rest =>
    if separator = .sequence ∨ separator = .and then
      if rest = [] then
        raise .commandSyntaxInvalid (py "input ends with an incomplete separator")
      else
        parseUnits (if separator = .sequence then .always else .onSuccess) units rest
    else
      raise .commandSyntaxInvalid (py "unexpected redirection operator")

theorem parseUnits_unit {connector : Connector} {units : List PlanUnit}
    {tokens rest rest' : List Token} {stages : List CommandStage}
    {redirection : Option StdoutRedirection} {unit : PlanUnit}
    (hstages : parseStages [] tokens = .ok (stages, rest'))
    (hredirection : parseRedirection rest' = .ok (redirection, rest))
    (hunit : PlanUnit.new connector stages redirection = .ok unit) :
    parseUnits connector units tokens = afterUnit (units ++ [unit]) rest := by
  cases tokens with
  | nil =>
    rw [parseStages] at hstages
    exact absurd hstages raise_ne_ok
  | cons token tokens =>
    rw [parseUnits]
    split
    · next e he =>
      rw [hstages] at he
      cases he
    · next stages' rest'' he =>
      rw [hstages] at he
      obtain ⟨rfl, rfl⟩ := Prod.mk.inj (Except.ok.inj he)
      split
      · next e he =>
        rw [hredirection] at he
        cases he
      · next redirection' rest'' he =>
        rw [hredirection] at he
        obtain ⟨rfl, rfl⟩ := Prod.mk.inj (Except.ok.inj he)
        rw [hunit]
        cases rest with
        | nil => rfl
        | cons token rest => cases token <;> rfl

theorem parseUnits_eq_ok {connector : Connector} {units units' : List PlanUnit}
    {tokens : List Token} (hne : tokens ≠ []) :
    parseUnits connector units tokens = .ok units' ↔
      ∃ unit rest, unit.connector = connector ∧ units' = units ++ unit :: rest ∧
        tokens = writeUnits (unit :: rest) ∧ WordsExpand tokens := by
  constructor
  · intro h
    fun_induction parseUnits connector units tokens with
    | case1 => exact absurd rfl hne
    | case2 => cases h
    | case3 => cases h
    | case4 => cases h
    | case5 connector units token tokens stages rest hstages redirection unit hunit hredirection =>
      obtain ⟨hconnector, rfl, rfl⟩ := PlanUnit.new_eq_ok.mp hunit
      obtain ⟨-, htokens, -, hexpand, hexpand'⟩ :=
        parseUnit_eq_ok.mp ⟨rest, hstages, hredirection, .inl rfl⟩
      have hwrite : token :: tokens = unit.write := by
        rw [htokens, List.append_nil, PlanUnit.write]
      refine ⟨unit, [], hconnector, (Except.ok.inj h).symm, ?_, ?_⟩
      · rw [hwrite, writeUnits, List.flatMap_nil, List.append_nil]
      · rw [hwrite, PlanUnit.write, wordsExpand_append]
        exact ⟨hexpand, hexpand'⟩
    | case6 => exact absurd h raise_ne_ok
    | case7 => exact absurd h raise_ne_ok
    | case8 connector units token tokens stages rest hstages redirection unit hunit operator rest'
        hredirection hoperator hrest _ ih =>
      obtain ⟨hconnector, rfl, rfl⟩ := PlanUnit.new_eq_ok.mp hunit
      obtain ⟨next, more, hnext, rfl, rfl, hmore⟩ := ih hrest h
      have hread : next.connector.operator = operator := by
        rcases hoperator with rfl | rfl
        · rw [hnext]
          rfl
        · rw [hnext]
          rfl
      obtain ⟨-, htokens, -, hexpand, hexpand'⟩ := parseUnit_eq_ok.mp
        ⟨rest, hstages, hredirection, .inr ⟨_, _, rfl, hoperator⟩⟩
      have hwrite : token :: tokens = writeUnits (unit :: next :: more) := by
        rw [htokens, writeUnits_cons, hread, PlanUnit.write, List.append_assoc]
      refine ⟨unit, next :: more, hconnector, by simp, hwrite, ?_⟩
      rw [hwrite, writeUnits_cons, wordsExpand_append, wordsExpand_operator, PlanUnit.write,
        wordsExpand_append]
      exact ⟨⟨hexpand, hexpand'⟩, hmore⟩
    | case9 => exact absurd h raise_ne_ok
  · intro h
    obtain ⟨unit, rest, rfl, rfl, rfl, hexpand⟩ := h
    induction rest generalizing unit units with
    | nil =>
      rw [writeUnits, List.flatMap_nil, List.append_nil, PlanUnit.write] at hexpand ⊢
      obtain ⟨hstages, hredirection⟩ := wordsExpand_append.mp hexpand
      obtain ⟨rest', hparse, hparse', -⟩ := parseUnit_eq_ok.mpr
        ⟨unit.nonempty, by rw [List.append_nil], .inl rfl, hstages, hredirection⟩
      rw [parseUnits_unit hparse hparse' (PlanUnit.new_eq_ok.mpr ⟨rfl, rfl, rfl⟩)]
      rfl
    | cons next rest ih =>
      rw [writeUnits_cons, PlanUnit.write, List.append_assoc] at hexpand ⊢
      obtain ⟨hstages, hexpand⟩ := wordsExpand_append.mp hexpand
      obtain ⟨hredirection, hexpand⟩ := wordsExpand_append.mp hexpand
      obtain ⟨rest', hparse, hparse', -⟩ := parseUnit_eq_ok.mpr
        ⟨unit.nonempty, rfl, .inr ⟨_, _, rfl, next.connector.operator_separates⟩, hstages,
          hredirection⟩
      rw [parseUnits_unit hparse hparse' (PlanUnit.new_eq_ok.mpr ⟨rfl, rfl, rfl⟩), afterUnit,
        if_pos next.connector.operator_separates, if_neg writeUnits_ne_nil]
      have hconnector : (if next.connector.operator = .sequence then Connector.always
          else .onSuccess) = next.connector := by
        cases next.connector <;> rfl
      rw [hconnector, ih next writeUnits_ne_nil (wordsExpand_operator.mp hexpand)]
      simp

/-- Parsing undoes writing. -/
theorem parseTokens_eq_ok {tokens : List Token} {plan : ExecutionPlan} :
    parseTokens tokens = .ok plan ↔
      plan.write = tokens ∧ (∀ unit ∈ plan.units.head?, unit.connector = .always) ∧
        WordsExpand tokens := by
  obtain ⟨units, hunits⟩ := plan
  simp only [parseTokens, Except.bind_eq_ok_iff, require_eq_ok, ExecutionPlan.new_eq_ok,
    ExecutionPlan.write]
  constructor
  · intro h
    obtain ⟨_, hne, _, hparse, rfl⟩ := h
    obtain ⟨unit, rest, hconnector, rfl, rfl, hexpand⟩ := (parseUnits_eq_ok hne).mp hparse
    exact ⟨rfl, by simpa using hconnector, hexpand⟩
  · intro h
    obtain ⟨rfl, hconnector, hexpand⟩ := h
    cases units with
    | nil => exact absurd rfl hunits
    | cons unit rest =>
      exact ⟨(), writeUnits_ne_nil, _, (parseUnits_eq_ok writeUnits_ne_nil).mpr
        ⟨unit, rest, hconnector unit rfl, rfl, rfl, hexpand⟩, rfl⟩

/-! ## Section 4: What it raises -/

/-- `CommandSyntaxInvalid`. -/
def IsSyntaxError (cls : ErrorClass) : Prop := cls = .commandSyntaxInvalid

theorem scanExpansion_raises (text : Text) :
    Raises IsSyntaxError (scanExpansion none none text) := by
  fun_induction scanExpansion none none text with
  | case1 => exact .ok
  | case2 c rest _ ih => exact ih.bind fun _ _ => .ok
  | case3 => exact .ok
  | case4 => exact Raises.raise_iff.mpr rfl
  | case5 => exact Raises.raise_iff.mpr rfl
  | case6 _ _ _ _ _ _ ih => exact Raises.ok.bind fun _ _ => ih.bind fun _ _ => .ok
  | case7 _ _ _ _ _ _ ih => exact Raises.ok.bind fun _ _ => ih.bind fun _ _ => .ok
  | case8 => exact Raises.raise_iff.mpr rfl
  | case9 _ _ _ _ _ _ _ ih => exact ih.bind fun _ _ => .ok

theorem validateWordExpansions_raises (word : CommandWord) :
    Raises IsSyntaxError (validateWordExpansions word) := by
  obtain ⟨fragments⟩ := word
  unfold validateWordExpansions
  induction fragments with
  | nil => exact .ok
  | cons fragment rest ih =>
    show Raises IsSyntaxError ((if fragment.expandsEnvironment then _ else _) >>= _)
    refine Raises.bind ?_ fun _ _ => ih
    cases fragment.expandsEnvironment with
    | false => exact .ok
    | true => exact (scanExpansion_raises _).bind fun _ _ => .ok

theorem parseWords_raises (tokens : List Token) (words : List CommandWord) :
    Raises IsSyntaxError (parseWords tokens words) := by
  fun_induction parseWords tokens words with
  | case1 word rest words ih => exact (validateWordExpansions_raises word).bind fun _ _ => ih
  | case2 => exact .ok

theorem parseStages_raises {tokens : List Token} {stages : List CommandStage} (hne : tokens ≠ []) :
    Raises IsSyntaxError (parseStages stages tokens) := by
  fun_induction parseStages stages tokens with
  | case1 => exact absurd rfl hne
  | case2 => exact Raises.raise_iff.mpr rfl
  | case3 stages word rest e he =>
    exact Raises.error_iff.mpr ((parseWords_raises _ _).of_error e he)
  | case4 stages word rest words rest' hwords e he =>
    -- the loop over the words took at least the one at the front
    obtain ⟨new, hwords, htokens, hends, -⟩ := parseWords_eq_ok.mp hwords
    have hnew : new ≠ [] := by
      intro h
      subst h
      rw [List.map_nil, List.nil_append] at htokens
      rw [← htokens] at hends
      exact absurd hends (by simp [EndsWords, Token.isWord])
    rw [hwords, List.nil_append, CommandStage.new, dif_pos hnew] at he
    cases he
  | case5 => exact .ok
  | case6 stages word rest words stage hstage other tail hwords =>
    obtain ⟨-, hends, -⟩ := write_of_parseWords hwords hstage
    exact absurd hends (by simp [EndsWords, Token.isWord])
  | case7 => exact Raises.raise_iff.mpr rfl
  | case8 stages word rest' words stage hstage rest'' hrest _ hwords ih => exact ih hrest
  | case9 => exact .ok

theorem parseRedirection_raises {tokens : List Token} (hends : EndsPipeline tokens) :
    Raises IsSyntaxError (parseRedirection tokens) := by
  cases tokens with
  | nil => exact .ok
  | cons token tokens =>
    cases token with
    | word word => exact absurd hends.1 (by simp [EndsWords, Token.isWord])
    | operator operator =>
      unfold parseRedirection
      dsimp only
      by_cases hop : operator = .redirect ∨ operator = .append
      · rw [if_pos hop]
        cases tokens with
        | nil => exact Raises.raise_iff.mpr rfl
        | cons token tokens =>
          cases token with
          | operator _ => exact Raises.raise_iff.mpr rfl
          | word destination =>
            apply (validateWordExpansions_raises destination).bind
            intro _ _
            apply (Raises.of_require (P := IsSyntaxError) rfl).bind
            intro _ _
            apply (Raises.of_require (P := IsSyntaxError) rfl).bind
            intro _ _
            apply (Raises.of_require (P := IsSyntaxError) rfl).bind
            exact fun _ _ => .ok
      · rw [if_neg hop]
        exact .ok

theorem parseUnits_raises {connector : Connector} {units : List PlanUnit} (tokens : List Token) :
    Raises IsSyntaxError (parseUnits connector units tokens) := by
  fun_induction parseUnits connector units tokens with
  | case1 => exact .ok
  | case2 connector units token tokens e he =>
    exact Raises.error_iff.mpr ((parseStages_raises (List.cons_ne_nil _ _)).of_error e he)
  | case3 connector units token tokens stages rest hstages e he =>
    obtain ⟨new, -, -, -, hends, -⟩ := parseStages_eq_ok.mp hstages
    exact Raises.error_iff.mpr ((parseRedirection_raises hends).of_error e he)
  | case4 connector units token tokens stages rest hstages redirection rest' hredirection e he =>
    obtain ⟨new, hnew, rfl, -, -, -⟩ := parseStages_eq_ok.mp hstages
    rw [PlanUnit.new, dif_pos hnew] at he
    cases he
  | case5 => exact .ok
  | case6 connector units token tokens stages rest hstages redirection unit hunit word tail
      hredirection =>
    obtain ⟨new, -, -, -, hends, -⟩ := parseStages_eq_ok.mp hstages
    exact absurd (hends.of_redirection hredirection) (by simp [EndsWords, Token.isWord])
  | case7 => exact Raises.raise_iff.mpr rfl
  | case8 _ _ _ _ _ _ _ _ _ _ _ _ _ _ _ _ ih => exact ih
  | case9 => exact Raises.raise_iff.mpr rfl

theorem parseTokens_raises {tokens : List Token} (hne : tokens ≠ []) :
    Raises IsSyntaxError (parseTokens tokens) := by
  unfold parseTokens
  rw [require, if_pos hne]
  apply (parseUnits_raises tokens).bind
  intro units hunits
  obtain ⟨unit, rest, -, rfl, -, -⟩ := (parseUnits_eq_ok hne).mp hunits
  rw [List.nil_append, ExecutionPlan.new, dif_pos (List.cons_ne_nil _ _)]
  exact .ok

/-! ## Section 5: Expansion of an accepted word -/

omit [UnicodeLetters] in
theorem isEnvironmentName_run {next : CodePoint} {rest : Text} (h : isNameStart next = true) :
    isEnvironmentName (next :: rest.takeWhile isNameCharacter) = true := by
  rw [isEnvironmentName, h, Bool.true_and]
  exact List.all_takeWhile

omit [UnicodeLetters] in
theorem environmentValue_returns {name : Text} {environment : CommandEnvironmentView}
    (hreveals : environment.Reveals) (cwd : SandboxPath) (hname : isEnvironmentName name = true) :
    ∃ value, environmentValue name (some environment) (some cwd) = .ok value := by
  by_cases hpwd : name = py "PWD"
  · exact ⟨cwd.value, by rw [environmentValue]; exact if_pos hpwd⟩
  · obtain ⟨value, hvalue⟩ := environment.get_returns hreveals hname
    exact ⟨value, by rw [environmentValue, ← hvalue]; exact if_neg hpwd⟩

/-- A scan that passes without an environment passes with one. -/
theorem scanExpansion_returns {environment : CommandEnvironmentView}
    (hreveals : environment.Reveals) (cwd : SandboxPath) {text value : Text}
    (h : scanExpansion none none text = .ok value) :
    ∃ expanded, scanExpansion (some environment) (some cwd) text = .ok expanded := by
  fun_induction scanExpansion none none text generalizing value with
  | case1 => exact ⟨[], by rw [scanExpansion.eq_def]⟩
  | case2 c rest hc ih =>
    obtain ⟨tail, htail, -⟩ := Except.bind_eq_ok_iff.mp h
    obtain ⟨expanded, hexpanded⟩ := ih htail
    exact ⟨c :: expanded, by rw [scanExpansion.eq_def]; dsimp only; rw [if_pos hc, hexpanded]; rfl⟩
  | case3 c hc =>
    refine ⟨py "$", ?_⟩
    rw [scanExpansion.eq_def]
    exact if_neg hc
  | case4 => exact absurd h raise_ne_ok
  | case5 => exact absurd h raise_ne_ok
  | case6 c hc rest name hclosed hname =>
    rename_i ih
    obtain ⟨_, -, h⟩ := Except.bind_eq_ok_iff.mp h
    obtain ⟨tail, htail, -⟩ := Except.bind_eq_ok_iff.mp h
    obtain ⟨expanded, hexpanded⟩ := ih htail
    obtain ⟨first, hfirst⟩ := environmentValue_returns hreveals cwd
      (Bool.eq_true_of_not_eq_false hname)
    refine ⟨first ++ expanded, ?_⟩
    rw [scanExpansion.eq_def]
    dsimp only
    rw [if_neg hc, if_pos rfl, if_neg hclosed, if_neg hname, hfirst, hexpanded]
    rfl
  | case7 c hc next rest hbrace hstart ih =>
    obtain ⟨_, -, h⟩ := Except.bind_eq_ok_iff.mp h
    obtain ⟨tail, htail, -⟩ := Except.bind_eq_ok_iff.mp h
    obtain ⟨expanded, hexpanded⟩ := ih htail
    obtain ⟨first, hfirst⟩ := environmentValue_returns hreveals cwd (isEnvironmentName_run hstart)
    refine ⟨first ++ expanded, ?_⟩
    rw [scanExpansion.eq_def]
    dsimp only
    rw [if_neg hc, if_neg hbrace, if_pos hstart, hfirst, hexpanded]
    rfl
  | case8 => exact absurd h raise_ne_ok
  | case9 c hc next rest hbrace hstart halpha ih =>
    obtain ⟨tail, htail, -⟩ := Except.bind_eq_ok_iff.mp h
    obtain ⟨expanded, hexpanded⟩ := ih htail
    refine ⟨CodePoint.ofChar '$' :: expanded, ?_⟩
    rw [scanExpansion.eq_def]
    dsimp only
    rw [if_neg hc, if_neg hbrace, if_neg hstart, if_neg halpha, hexpanded]
    rfl

/-- The expansion of a word that passed the scan returns. -/
theorem expandWord_returns {word : CommandWord} (h : word.Expands)
    {environment : CommandEnvironmentView} (hreveals : environment.Reveals) (cwd : SandboxPath) :
    ∃ value, expandWord word environment cwd = .ok value := by
  obtain ⟨fragments⟩ := word
  suffices hparts : ∃ parts, fragments.mapM (fun fragment : WordFragment =>
      if fragment.expandsEnvironment then
        scanExpansion (some environment) (some cwd) fragment.text
      else .ok fragment.text) = .ok parts by
    obtain ⟨parts, hparts⟩ := hparts
    exact ⟨parts.flatten, by rw [expandWord]; dsimp only; rw [hparts]; rfl⟩
  induction fragments with
  | nil => exact ⟨[], rfl⟩
  | cons fragment rest ih =>
    obtain ⟨hfragment, hrest⟩ := List.forall_mem_cons.mp h
    obtain ⟨parts, hparts⟩ := ih hrest
    rw [List.mapM_cons, hparts]
    by_cases hexpands : fragment.expandsEnvironment = true
    · obtain ⟨value, hvalue⟩ := hfragment hexpands
      obtain ⟨expanded, hexpanded⟩ := scanExpansion_returns hreveals cwd hvalue
      exact ⟨expanded :: parts, by rw [if_pos hexpands, hexpanded]; rfl⟩
    · exact ⟨fragment.text :: parts, by rw [if_neg hexpands]; rfl⟩

/-- The plan construction accepts the grammar, in which every expanding
    fragment passes the scan; what it makes of a sequence is written as that
    sequence again, and its words expand; anything else is a syntax error. -/
theorem parseTokens_grammar (tokens : List Token) :
    ((∃ plan, parseTokens tokens = .ok plan) ↔ PlanTokens tokens ∧ WordsExpand tokens) ∧
    (∀ plan, parseTokens tokens = .ok plan →
      plan.write = tokens ∧ ∀ word, .word word ∈ tokens → ∀ environment : CommandEnvironmentView,
        environment.Reveals → ∀ cwd, ∃ value, expandWord word environment cwd = .ok value) ∧
    ∀ e, tokens ≠ [] → parseTokens tokens = .error e → e.cls = .commandSyntaxInvalid := by
  refine ⟨?_, ?_, ?_⟩
  · constructor
    · intro h
      obtain ⟨⟨units, hne⟩, hparse⟩ := h
      obtain ⟨hwrite, hconnector, hexpand⟩ := parseTokens_eq_ok.mp hparse
      cases units with
      | nil => exact absurd rfl hne
      | cons unit rest =>
        exact ⟨planTokens_iff.mpr ⟨unit, rest, hconnector unit rfl, hwrite⟩, hexpand⟩
    · intro h
      obtain ⟨hplan, hexpand⟩ := h
      obtain ⟨unit, rest, hconnector, hwrite⟩ := planTokens_iff.mp hplan
      exact ⟨⟨unit :: rest, List.cons_ne_nil _ _⟩, parseTokens_eq_ok.mpr
        ⟨hwrite, by simpa using hconnector, hexpand⟩⟩
  · intro plan hparse
    obtain ⟨hwrite, -, hexpand⟩ := parseTokens_eq_ok.mp hparse
    exact ⟨hwrite, fun word hword environment hreveals cwd =>
      expandWord_returns (hexpand word hword) hreveals cwd⟩
  · intro e hne he
    exact (parseTokens_raises hne).of_error e he

end Parser
