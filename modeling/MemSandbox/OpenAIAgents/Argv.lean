import MemSandbox.CommandExecutor.Grammar

/-! # Argument vectors as command text

    `InMemorySandboxSession._exec_internal` of the agents adapter: an argument
    vector is quoted with `shlex.quote`, joined with spaces and parsed as a
    command.  The words it comes back as expand to the arguments. -/

open Python

/-! ## Section 1: Quoting -/

/-- The characters `shlex.quote` leaves as they are. -/
def isShlexSafe (c : CodePoint) : Bool :=
  isAsciiLetter c || isAsciiDecimal c || decide (c ∈ py "_@%+=:,./-")

/-- `shlex.quote`. -/
def shlexQuote (s : Text) : Text :=
  if s = [] then
    py "''"
  else if s.all isShlexSafe then
    s
  else
    py "'" ++ replace s (py "'") (py "'\"'\"'") ++ py "'"

/-- The command text of `_exec_internal`. -/
def execCommandText (argv : List Text) : Text := join (py " ") (argv.map shlexQuote)

/-! ## Section 2: Single characters of the tokenizer -/

theorem isShlexSafe_special {c : CodePoint} (h : isShlexSafe c = true) :
    endsRun c = false ∧ c ≠ CodePoint.ofChar '$' := by
  have hspecial : (py "'\"\\#`()<>|&;$").all (fun q => !isShlexSafe q) = true := by decide
  have hspace : isWhitespace c = false := by
    simp only [isShlexSafe, Bool.or_eq_true, decide_eq_true_eq] at h
    rcases h with (h | h) | h
    · simp only [isAsciiLetter, Bool.or_eq_true, Bool.and_eq_true, decide_eq_true_eq] at h
      rw [← Bool.not_eq_true]
      simp only [isWhitespace, Bool.or_eq_true, Bool.and_eq_true, decide_eq_true_eq, beq_iff_eq]
      omega
    · simp only [isAsciiDecimal, Bool.and_eq_true, decide_eq_true_eq] at h
      rw [← Bool.not_eq_true]
      simp only [isWhitespace, Bool.or_eq_true, Bool.and_eq_true, decide_eq_true_eq, beq_iff_eq]
      omega
    · have hsafe : (py "_@%+=:,./-").all (fun q => !isWhitespace q) = true := by decide
      simpa using List.all_eq_true.mp hsafe c h
  constructor
  · rw [endsRun, hspace, Bool.false_or, decide_eq_false_iff_not]
    intro hmem
    have hunsafe := List.all_eq_true.mp hspecial c (List.mem_append_left (py "$") hmem)
    rw [h] at hunsafe
    exact Bool.noConfusion hunsafe
  · intro hc
    have hunsafe := List.all_eq_true.mp hspecial c (by rw [hc]; decide)
    rw [h] at hunsafe
    exact Bool.noConfusion hunsafe

theorem not_special_of_endsRun {c : CodePoint} (h : endsRun c = false) :
    isWhitespace c = false ∧ c ∉ py "'\"\\#`()<>|&;" := by
  simpa [endsRun] using h

/-- An unquoted run. -/
theorem tokenizeFrom_run {t : Tokenizer} {c : CodePoint} {rest : Text} (hrun : endsRun c = false)
    (hdollar : c ≠ CodePoint.ofChar '$')
    (hdescriptor : ((c :: rest).dropWhile fun c => !endsRun c).head? ≠ some (CodePoint.ofChar '>')) :
    tokenizeFrom t (c :: rest) =
      tokenizeFrom (t.appendFragment ((c :: rest).takeWhile fun c => !endsRun c) true)
        ((c :: rest).dropWhile fun c => !endsRun c) := by
  obtain ⟨hspace, hspecial⟩ := not_special_of_endsRun hrun
  rw [mem_special] at hspecial
  simp only [not_or] at hspecial
  obtain ⟨hquote, hbackslash, hhash, htick, hparen, hless, hgreater, hpipe, hand, hsemi⟩ := hspecial
  have htwo : ∀ (s : String) (a : CodePoint), (py s).head? = some a → c ≠ a →
      (c :: rest).take 2 ≠ py s := by
    intro s a hs hne h
    rw [← h] at hs
    exact hne (Option.some.inj hs)
  conv_lhs => rw [tokenizeFrom.eq_def]
  dsimp only
  rw [if_neg (by rw [hspace]; exact Bool.false_ne_true), if_neg hquote, if_neg hbackslash,
    if_neg hhash, if_neg htick, if_neg hparen, if_neg (htwo "$(" _ rfl hdollar),
    if_neg (not_or.mpr ⟨htwo "<(" _ rfl hless, htwo ">(" _ rfl hgreater⟩),
    if_neg (htwo "||" _ rfl hpipe), if_neg (htwo "<<" _ rfl hless), if_neg hless, if_neg hpipe,
    if_neg (fun h => hand h.1), if_neg (htwo "&&" _ rfl hand), if_neg (htwo ">>" _ rfl hgreater),
    if_neg hsemi, if_neg hgreater, if_neg (fun h => hdescriptor h.2.2)]

theorem tokenizeFrom_space {t : Tokenizer} {rest : Text} :
    tokenizeFrom t (CodePoint.ofChar ' ' :: rest) = tokenizeFrom t.flushWord rest := by
  conv_lhs => rw [tokenizeFrom.eq_def]
  exact if_pos (by decide)

/-- The opening of a quoted word. -/
theorem tokenizeFrom_quote {t : Tokenizer} {quote : CodePoint} {rest : Text}
    (hquote : quote ∈ py "'\"") :
    tokenizeFrom t (quote :: rest) =
      (quotedWord quote (quote = CodePoint.ofChar '"') { t with wordStarted := true } [] true rest >>=
        fun p => tokenizeFrom p.1 p.2) := by
  have hquotes : (py "'\"").all (fun q => !isWhitespace q) = true := by decide
  have hspace : isWhitespace quote = false := by simpa using List.all_eq_true.mp hquotes quote hquote
  conv_lhs => rw [tokenizeFrom.eq_def]
  dsimp only
  rw [if_neg (by rw [hspace]; exact Bool.false_ne_true), if_pos hquote]
  split
  · next t' rest' h =>
    rw [h]
    rfl
  · next e h =>
    rw [h]
    rfl

/-! ## Section 3: Quoted arguments -/

/-- A fragment that expands to its own text. -/
def WordFragment.Literal (fragment : WordFragment) : Prop :=
  fragment.expandsEnvironment = true → CodePoint.ofChar '$' ∉ fragment.text

/-- Fragments that expand to `s`. -/
def Spells (fragments : List WordFragment) (s : Text) : Prop :=
  (∀ fragment ∈ fragments, fragment.Literal) ∧ fragments.flatMap WordFragment.text = s

theorem Spells.append {fragments more : List WordFragment} {s t : Text} (h : Spells fragments s)
    (hmore : Spells more t) : Spells (fragments ++ more) (s ++ t) := by
  obtain ⟨hliteral, rfl⟩ := h
  obtain ⟨hliteral', rfl⟩ := hmore
  refine ⟨?_, List.flatMap_append ..⟩
  intro fragment hmem
  rcases List.mem_append.mp hmem with hmem | hmem
  · exact hliteral fragment hmem
  · exact hliteral' fragment hmem

theorem spells_plain (s : Text) : Spells [⟨s, false⟩] s := by
  refine ⟨?_, by simp⟩
  intro fragment hmem hexpands
  rw [List.mem_singleton.mp hmem] at hexpands
  exact Bool.noConfusion hexpands

theorem spells_expanding {s : Text} (h : CodePoint.ofChar '$' ∉ s) : Spells [⟨s, true⟩] s := by
  refine ⟨?_, by simp⟩
  intro fragment hmem _
  rw [List.mem_singleton.mp hmem]
  exact h

/-- The inside of single quotes. -/
theorem quotedWord_single (t : Tokenizer) (segment : Text) (atStart : Bool) {body : Text}
    (rest : Text) (hquote : CodePoint.ofChar '\'' ∉ body) (hlf : CodePoint.ofChar '\n' ∉ body)
    (hcr : CodePoint.ofChar '\r' ∉ body) :
    quotedWord (CodePoint.ofChar '\'') false t segment atStart
        (body ++ CodePoint.ofChar '\'' :: rest) =
      .ok (t.appendFragment (segment ++ body) false, rest) := by
  induction body generalizing segment atStart with
  | nil =>
    rw [List.nil_append, List.append_nil, quotedWord.eq_def]
    exact if_pos rfl
  | cons c body ih =>
    rw [List.mem_cons, not_or] at hquote hlf hcr
    rw [List.cons_append, quotedWord.eq_def]
    dsimp only
    rw [if_neg (Ne.symm hquote.1), if_neg (fun h => absurd h.1 (by decide)), if_neg ?_,
      ih _ _ hquote.2 hlf.2 hcr.2, List.append_assoc, List.singleton_append]
    intro hmem
    rcases List.mem_cons.mp hmem with hc | hmem
    · exact hlf.1 hc.symm
    · exact hcr.1 (List.mem_singleton.mp hmem).symm

/-- A single quote in double quotes. -/
theorem quotedWord_double {t : Tokenizer} {rest : Text} :
    quotedWord (CodePoint.ofChar '"') true t [] true
        (CodePoint.ofChar '\'' :: CodePoint.ofChar '"' :: rest) =
      .ok (t.appendFragment [CodePoint.ofChar '\''] true, rest) := by
  rw [quotedWord.eq_def]
  dsimp only
  rw [if_neg (by decide), if_neg (fun h => absurd h.2 (by decide)), if_neg (by decide),
    quotedWord.eq_def]
  exact if_pos rfl

/-- The rest of a single-quoted argument, from inside the quotes. -/
theorem tokenizeFrom_quoted {s : Text} (hlf : CodePoint.ofChar '\n' ∉ s)
    (hcr : CodePoint.ofChar '\r' ∉ s) (segment : Text) :
    ∃ fragments, Spells fragments (segment ++ s) ∧ ∀ (t : Tokenizer) (atStart : Bool) rest,
      (quotedWord (CodePoint.ofChar '\'') false t segment atStart
          (replace s (py "'") (py "'\"'\"'") ++ py "'" ++ rest) >>=
        fun p => tokenizeFrom p.1 p.2) =
      tokenizeFrom ⟨t.tokens, t.fragments ++ fragments, true⟩ rest := by
  have hreplace : ∀ s, replace s (py "'") (py "'\"'\"'") =
      s.flatMap fun c => if c = CodePoint.ofChar '\'' then py "'\"'\"'" else [c] :=
    fun s => replace_singleton s (CodePoint.ofChar '\'') _
  induction s generalizing segment with
  | nil =>
    refine ⟨[⟨segment, false⟩], by simpa using spells_plain segment, ?_⟩
    intro t atStart rest
    have hbody := quotedWord_single t segment atStart rest
      List.not_mem_nil List.not_mem_nil List.not_mem_nil
    rw [List.append_nil, List.nil_append] at hbody
    show (quotedWord _ false t segment atStart (CodePoint.ofChar '\'' :: rest) >>= _) = _
    rw [hbody]
    rfl
  | cons c s ih =>
    rw [List.mem_cons, not_or] at hlf hcr
    by_cases hc : c = CodePoint.ofChar '\''
    · -- the quotes close, the quote stands in double quotes, and they open again
      subst hc
      obtain ⟨fragments, hspells, hrun⟩ := ih hlf.2 hcr.2 []
      refine ⟨[⟨segment, false⟩] ++ ([⟨[CodePoint.ofChar '\''], true⟩] ++ fragments), ?_, ?_⟩
      · exact (spells_plain segment).append ((spells_expanding (by decide)).append hspells)
      · intro t atStart rest
        have hclose := quotedWord_single t segment atStart
          (py "\"'\"'" ++ (replace s (py "'") (py "'\"'\"'") ++ py "'" ++ rest))
          List.not_mem_nil List.not_mem_nil List.not_mem_nil
        have htext : replace (CodePoint.ofChar '\'' :: s) (py "'") (py "'\"'\"'") ++ py "'" ++ rest =
            [] ++ CodePoint.ofChar '\'' ::
              (py "\"'\"'" ++ (replace s (py "'") (py "'\"'\"'") ++ py "'" ++ rest)) := by
          rw [hreplace, hreplace, List.flatMap_cons, if_pos rfl]
          simp [py]
        rw [htext, hclose, List.append_nil]
        show tokenizeFrom (t.appendFragment segment false) (CodePoint.ofChar '"' :: _) = _
        rw [tokenizeFrom_quote (by decide)]
        show (quotedWord (CodePoint.ofChar '"') true _ [] true
          (CodePoint.ofChar '\'' :: CodePoint.ofChar '"' :: _) >>= _) = _
        rw [quotedWord_double]
        show tokenizeFrom _ (CodePoint.ofChar '\'' :: _) = _
        rw [tokenizeFrom_quote (by decide)]
        rw [← List.append_assoc, ← List.append_assoc]
        exact hrun ((t.appendFragment segment false).appendFragment [CodePoint.ofChar '\''] true) true
          rest
    · obtain ⟨fragments, hspells, hrun⟩ := ih hlf.2 hcr.2 (segment ++ [c])
      refine ⟨fragments, by simpa using hspells, ?_⟩
      intro t atStart rest
      have htext : replace (c :: s) (py "'") (py "'\"'\"'") ++ py "'" ++ rest =
          c :: (replace s (py "'") (py "'\"'\"'") ++ py "'" ++ rest) := by
        rw [hreplace, hreplace, List.flatMap_cons, if_neg hc]
        rfl
      rw [← hrun t false rest, htext, quotedWord.eq_def]
      dsimp only
      rw [if_neg hc, if_neg (fun h => absurd h.1 (by decide)), if_neg ?_]
      intro hmem
      rcases List.mem_cons.mp hmem with hmem | hmem
      · exact hlf.1 hmem.symm
      · exact hcr.1 (List.mem_singleton.mp hmem).symm

/-- The text ends or goes on with a space. -/
def EndsArgument (rest : Text) : Prop := rest = [] ∨ ∃ more, rest = CodePoint.ofChar ' ' :: more

theorem dropWhile_run {s rest : Text} (h : ∀ c ∈ s, endsRun c = false) (hrest : EndsArgument rest) :
    (s ++ rest).takeWhile (fun c => !endsRun c) = s ∧
      (s ++ rest).dropWhile (fun c => !endsRun c) = rest := by
  have hs : ∀ c ∈ s, (!endsRun c) = true := by
    intro c hc
    rw [h c hc]
    rfl
  have hend : rest.takeWhile (fun c => !endsRun c) = [] ∧
      rest.dropWhile (fun c => !endsRun c) = rest := by
    rcases hrest with rfl | ⟨more, rfl⟩
    · exact ⟨rfl, rfl⟩
    · exact ⟨List.takeWhile_cons_of_neg (by decide),
        List.dropWhile_cons_of_neg (by decide)⟩
  rw [List.takeWhile_append_of_pos hs, List.dropWhile_append_of_pos hs, hend.1, hend.2,
    List.append_nil]
  exact ⟨rfl, rfl⟩

/-- An argument is read back as one word. -/
theorem tokenizeFrom_argument {s : Text} (hlf : CodePoint.ofChar '\n' ∉ s)
    (hcr : CodePoint.ofChar '\r' ∉ s) :
    ∃ fragments, Spells fragments s ∧ ∀ tokens rest, EndsArgument rest →
      tokenizeFrom ⟨tokens, [], false⟩ (shlexQuote s ++ rest) =
        tokenizeFrom ⟨tokens, fragments, true⟩ rest := by
  by_cases hempty : s = []
  · subst hempty
    refine ⟨[⟨[], false⟩], spells_plain [], ?_⟩
    intro tokens rest _
    show tokenizeFrom _ (CodePoint.ofChar '\'' :: CodePoint.ofChar '\'' :: rest) = _
    rw [tokenizeFrom_quote (by decide), quotedWord.eq_def]
    rfl
  by_cases hsafe : s.all isShlexSafe = true
  · have hrun : ∀ c ∈ s, endsRun c = false ∧ c ≠ CodePoint.ofChar '$' :=
      fun c hc => isShlexSafe_special (List.all_eq_true.mp hsafe c hc)
    refine ⟨[⟨s, true⟩], spells_expanding fun h => (hrun _ h).2 rfl, ?_⟩
    intro tokens rest hrest
    obtain ⟨htake, hdrop⟩ := dropWhile_run (fun c hc => (hrun c hc).1) hrest
    rw [shlexQuote, if_neg hempty, if_pos hsafe]
    cases s with
    | nil => exact absurd rfl hempty
    | cons c s =>
      obtain ⟨hc, hdollar⟩ := hrun c List.mem_cons_self
      rw [List.cons_append] at htake hdrop ⊢
      rw [tokenizeFrom_run hc hdollar, htake, hdrop]
      · rfl
      · rw [hdrop]
        rcases hrest with rfl | ⟨more, rfl⟩
        · simp
        · intro h
          exact absurd (Option.some.inj h) (by decide)
  · obtain ⟨fragments, hspells, hrun⟩ := tokenizeFrom_quoted hlf hcr []
    refine ⟨fragments, hspells, ?_⟩
    intro tokens rest _
    rw [shlexQuote, if_neg hempty, if_neg hsafe, List.append_assoc, List.append_assoc,
      ← List.append_assoc (replace s _ _)]
    show tokenizeFrom _ (CodePoint.ofChar '\'' :: _) = _
    rw [tokenizeFrom_quote (by decide)]
    exact hrun ⟨tokens, [], true⟩ true rest

theorem mem_shlexQuote {s : Text} {c : CodePoint} (h : c ∈ shlexQuote s) :
    c ∈ s ∨ c ∈ py "'\"" := by
  unfold shlexQuote at h
  split at h
  · have hempty : py "''" ⊆ py "'\"" := by decide
    exact .inr (hempty h)
  · split at h
    · exact .inl h
    · have hquote : CodePoint.ofChar '\'' ∈ py "'\"" := by decide
      have hmarks : py "'\"'\"'" ⊆ py "'\"" := by decide
      rcases List.mem_append.mp h with h | h
      · rcases List.mem_append.mp h with h | h
        · rw [List.mem_singleton.mp h]
          exact .inr hquote
        · rw [show py "'" = [CodePoint.ofChar '\''] from rfl, replace_singleton] at h
          obtain ⟨d, hd, hmem⟩ := List.mem_flatMap.mp h
          split at hmem
          · exact .inr (hmarks hmem)
          · rw [List.mem_singleton.mp hmem]
            exact .inl hd
      · rw [List.mem_singleton.mp h]
        exact .inr hquote

theorem mem_execCommandText {argv : List Text} {c : CodePoint} (h : c ∈ execCommandText argv) :
    (∃ s ∈ argv, c ∈ s) ∨ c ∈ py "'\" " := by
  have hmarks : py "'\"" ⊆ py "'\" " := by decide
  have hmem : ∀ s ∈ argv, c ∈ shlexQuote s → (∃ s ∈ argv, c ∈ s) ∨ c ∈ py "'\" " := by
    intro s hs hc
    rcases mem_shlexQuote hc with hc | hc
    · exact .inl ⟨s, hs, hc⟩
    · exact .inr (hmarks hc)
  cases argv with
  | nil => exact absurd h List.not_mem_nil
  | cons s argv =>
    rw [execCommandText, List.map_cons, join_cons] at h
    rcases List.mem_append.mp h with h | h
    · exact hmem s List.mem_cons_self h
    · obtain ⟨q, hq, h⟩ := List.mem_flatMap.mp h
      obtain ⟨t, ht, rfl⟩ := List.mem_map.mp hq
      rcases List.mem_append.mp h with h | h
      · rw [List.mem_singleton.mp h]
        exact .inr (by decide)
      · exact hmem t (List.mem_cons_of_mem _ ht) h

/-! ## Section 4: Whole vectors -/

section Vectors

variable [UnicodeLetters]

theorem scanExpansion_literal {s : Text} (h : CodePoint.ofChar '$' ∉ s)
    (environment : Option CommandEnvironmentView) (cwd : Option SandboxPath) :
    scanExpansion environment cwd s = .ok s := by
  induction s with
  | nil => rw [scanExpansion.eq_def]
  | cons c s ih =>
    rw [List.mem_cons, not_or] at h
    rw [scanExpansion.eq_def]
    dsimp only
    rw [if_pos (Ne.symm h.1), ih h.2]
    rfl

theorem expands_of_spells {fragments : List WordFragment} {s : Text} (h : Spells fragments s) :
    (CommandWord.mk fragments).Expands := by
  intro fragment hmem hexpands
  exact ⟨_, scanExpansion_literal (h.1 fragment hmem hexpands) none none⟩

theorem expandWord_of_spells {fragments : List WordFragment} {s : Text} (h : Spells fragments s)
    (environment : CommandEnvironmentView) (cwd : SandboxPath) :
    expandWord ⟨fragments⟩ environment cwd = .ok s := by
  obtain ⟨hliteral, rfl⟩ := h
  have hparts : fragments.mapM (fun fragment : WordFragment =>
      if fragment.expandsEnvironment then
        scanExpansion (some environment) (some cwd) fragment.text
      else .ok fragment.text) = .ok (fragments.map WordFragment.text) := by
    induction fragments with
    | nil => rfl
    | cons fragment rest ih =>
      obtain ⟨hfragment, hrest⟩ := List.forall_mem_cons.mp hliteral
      rw [List.mapM_cons, ih hrest]
      by_cases hexpands : fragment.expandsEnvironment = true
      · rw [if_pos hexpands, scanExpansion_literal (hfragment hexpands)]
        rfl
      · rw [if_neg hexpands]
        rfl
  rw [expandWord]
  dsimp only
  rw [hparts]
  show Except.ok (fragments.map WordFragment.text).flatten = _
  rw [List.flatMap_def]

/-- A vector is read back word by word. -/
theorem tokenizeFrom_argv {argv : List Text} (hne : argv ≠ [])
    (hlf : ∀ s ∈ argv, CodePoint.ofChar '\n' ∉ s) (hcr : ∀ s ∈ argv, CodePoint.ofChar '\r' ∉ s) :
    ∃ words : List CommandWord, words.length = argv.length ∧
      (∀ word ∈ words, word.Expands) ∧
      (∀ environment cwd, words.mapM (expandWord · environment cwd) = .ok argv) ∧
      ∀ tokens, ∃ t, tokenizeFrom ⟨tokens, [], false⟩ (execCommandText argv) = .ok t ∧
        t.flushWord.tokens = tokens ++ words.map .word := by
  induction argv with
  | nil => exact absurd rfl hne
  | cons s argv ih =>
    obtain ⟨hs, hrest⟩ := List.forall_mem_cons.mp hlf
    obtain ⟨hs', hrest'⟩ := List.forall_mem_cons.mp hcr
    obtain ⟨fragments, hspells, hrun⟩ := tokenizeFrom_argument hs hs'
    by_cases hargv : argv = []
    · subst hargv
      refine ⟨[⟨fragments⟩], rfl, ?_, ?_, ?_⟩
      · intro word hword
        rw [List.mem_singleton.mp hword]
        exact expands_of_spells hspells
      · intro environment cwd
        rw [List.mapM_cons, expandWord_of_spells hspells]
        rfl
      · intro tokens
        have htext : execCommandText [s] = shlexQuote s ++ [] := by
          simp [execCommandText, join]
        refine ⟨⟨tokens, fragments, true⟩, ?_, rfl⟩
        rw [htext, hrun tokens [] (.inl rfl), tokenizeFrom.eq_def]
    · obtain ⟨words, hlength, hexpands, hexpand, hwords⟩ := ih hargv hrest hrest'
      refine ⟨⟨fragments⟩ :: words, by simp [hlength], ?_, ?_, ?_⟩
      · exact List.forall_mem_cons.mpr ⟨expands_of_spells hspells, hexpands⟩
      · intro environment cwd
        rw [List.mapM_cons, expandWord_of_spells hspells, hexpand environment cwd]
        rfl
      · intro tokens
        obtain ⟨t, ht, hflush⟩ := hwords (tokens ++ [Token.word ⟨fragments⟩])
        have htext : execCommandText (s :: argv) =
            shlexQuote s ++ CodePoint.ofChar ' ' :: execCommandText argv := by
          cases argv with
          | nil => exact absurd rfl hargv
          | cons next argv =>
            rw [execCommandText, List.map_cons, List.map_cons, join_cons_cons, List.append_assoc]
            rfl
        refine ⟨t, ?_, by rw [hflush, List.append_assoc]; rfl⟩
        rw [htext, hrun tokens _ (.inr ⟨_, rfl⟩), tokenizeFrom_space]
        exact ht

/-- The command text of a vector is one simple command, whose words expand to
    the vector under every environment. -/
theorem parseExecutionPlan_argv {argv : List Text} (hne : argv ≠ [])
    (hlf : ∀ s ∈ argv, CodePoint.ofChar '\n' ∉ s) (hcr : ∀ s ∈ argv, CodePoint.ofChar '\r' ∉ s) :
    ∃ plan unit stage, parseExecutionPlan (execCommandText argv) = .ok plan ∧
      plan.units = [unit] ∧ unit.connector = .always ∧ unit.stages = [stage] ∧
      unit.redirection = none ∧ ∀ environment cwd,
        stage.words.mapM (expandWord · environment cwd) = .ok argv := by
  obtain ⟨words, hlength, hexpands, hexpand, hwords⟩ := tokenizeFrom_argv hne hlf hcr
  have hwordsne : words ≠ [] := by
    intro h
    subst h
    exact hne (List.length_eq_zero_iff.mp hlength.symm)
  obtain ⟨t, ht, hflush⟩ := hwords []
  let stage : CommandStage := ⟨words, hwordsne⟩
  let unit : PlanUnit := ⟨.always, [stage], none, List.cons_ne_nil _ _⟩
  let plan : ExecutionPlan := ⟨[unit], List.cons_ne_nil _ _⟩
  refine ⟨plan, unit, stage, ?_, rfl, rfl, rfl, rfl, hexpand⟩
  have hlines : CodePoint.ofChar '\n' ∉ execCommandText argv ∧
      CodePoint.ofChar '\r' ∉ execCommandText argv := by
    constructor
    · intro h
      obtain ⟨s, hs, hc⟩ | h := mem_execCommandText h
      · exact hlf s hs hc
      · exact absurd h (by decide)
    · intro h
      obtain ⟨s, hs, hc⟩ | h := mem_execCommandText h
      · exact hcr s hs hc
      · exact absurd h (by decide)
  have htokenize : tokenize (execCommandText argv) = .ok (words.map .word) := by
    rw [tokenize, require, if_pos hlines, ht]
    exact congrArg Except.ok hflush
  have hwrite : plan.write = words.map .word := by
    simp [plan, unit, stage, ExecutionPlan.write, writeUnits, PlanUnit.write, writeStages,
      CommandStage.write, writeRedirection]
  rw [parseExecutionPlan, htokenize]
  apply parseTokens_eq_ok.mpr
  refine ⟨hwrite, by simp [plan, unit], ?_⟩
  intro word hword
  obtain ⟨other, hother, heq⟩ := List.mem_map.mp hword
  cases heq
  exact hexpands word hother

end Vectors

theorem parseExecutionPlan_argv_quoted :
    ∃ plan unit stage,
      @parseExecutionPlan asciiLetters (execCommandText [py "echo", py "it's", []]) = .ok plan ∧
      plan.units = [unit] ∧ unit.connector = .always ∧ unit.stages = [stage] ∧
      unit.redirection = none ∧ ∀ environment cwd,
        stage.words.mapM (@expandWord asciiLetters · environment cwd) =
          .ok [py "echo", py "it's", []] :=
  @parseExecutionPlan_argv asciiLetters _ (List.cons_ne_nil _ _) (by decide)
    (by decide)
