import Mathlib.Data.List.TakeWhile
import MemSandbox.CommandExecutor.Parser

/-! # Laws of the tokenizer

    One pass of each loop of `tokenize` is a step; the loops are the iteration
    of their steps (`tokenizeFrom_cons`, `quotedWord_step`).  From what a step
    does follow the three laws: every pass consumes a character, a space
    between two accepted texts separates their tokens, and the fragments hold
    the input without the characters that `marks` marks as removed. -/

open Python

/-! ## Section 1: One pass of a loop -/

/-- One pass of the outer loop of `tokenize`: the variables and what remains. -/
def tokenizeStep (t : Tokenizer) (character : CodePoint) (rest : Text) :
    Except PyError (Tokenizer × Text) :=
  let two := (character :: rest).take 2
  if isWhitespace character then
    .ok (t.flushWord, rest)
  else if character ∈ py "'\"" then
    quotedWord character (character = CodePoint.ofChar '"') { t with wordStarted := true } [] true rest
  else if character = CodePoint.ofChar '\\' then
    match rest with
    | [] => raise .commandSyntaxInvalid (py "incomplete escape at end of input")
    | escaped :: rest => .ok ({ t with wordStarted := true }.appendFragment [escaped] false, rest)
  else if character = CodePoint.ofChar '#' then
    raise .commandSyntaxUnsupported (py "comments are unsupported")
  else if character = CodePoint.ofChar '`' then
    raise .commandSyntaxUnsupported (py "command substitution is unsupported")
  else if character ∈ py "()" then
    raise .commandSyntaxUnsupported (py "command and process substitution are unsupported")
  else if two = py "$(" then
    raise .commandSyntaxUnsupported (py "command substitution is unsupported")
  else if two = py "<(" ∨ two = py ">(" then
    raise .commandSyntaxUnsupported (py "process substitution is unsupported")
  else if two = py "||" then
    raise .commandSyntaxUnsupported (py "OR sequencing is unsupported")
  else if two = py "<<" then
    raise .commandSyntaxUnsupported (py "heredocs and input redirection are unsupported")
  else if character = CodePoint.ofChar '<' then
    raise .commandSyntaxUnsupported (py "input redirection is unsupported")
  else if character = CodePoint.ofChar '|' then
    .ok (t.appendOperator .pipe, rest)
  else if character = CodePoint.ofChar '&' ∧ two ≠ py "&&" then
    raise .commandSyntaxUnsupported (py "background jobs are unsupported")
  else if two = py "&&" then
    .ok (t.appendOperator .and, rest.drop 1)
  else if two = py ">>" then
    .ok (t.appendOperator .append, rest.drop 1)
  else if character = CodePoint.ofChar ';' then
    .ok (t.appendOperator .sequence, rest)
  else if character = CodePoint.ofChar '>' then
    .ok (t.appendOperator .redirect, rest)
  else
    let run := (character :: rest).takeWhile fun c => !endsRun c
    let rest' := (character :: rest).dropWhile fun c => !endsRun c
    if t.wordStarted = false ∧ isAsciiNumber run ∧ rest'.head? = some (CodePoint.ofChar '>') then
      raise .commandSyntaxUnsupported (py "file-descriptor redirection is unsupported")
    else
      .ok (t.appendFragment run true, rest')

/-- The branches of a conditional go on alike. -/
theorem ite_bind {c : Prop} [Decidable c] {x y : Except PyError β} {a b : Except PyError α}
    {next : α → Except PyError β} (h : c → x = a.bind next) (h' : ¬ c → y = b.bind next) :
    (if c then x else y) = (if c then a else b).bind next := by
  by_cases hc : c
  · rw [if_pos hc, if_pos hc]
    exact h hc
  · rw [if_neg hc, if_neg hc]
    exact h' hc

/-- The outer loop goes on after a pass. -/
theorem tokenizeFrom_cons (t : Tokenizer) (character : CodePoint) (rest : Text) :
    tokenizeFrom t (character :: rest) =
      (tokenizeStep t character rest).bind fun next => tokenizeFrom next.1 next.2 := by
  conv_lhs => rw [tokenizeFrom.eq_def]
  dsimp only
  unfold tokenizeStep
  -- white space, a quoted word, an escape
  refine ite_bind (fun _ => rfl) fun _ => ?_
  refine ite_bind (fun _ => ?_) fun _ => ?_
  · split
    · next h =>
      rw [h]
      rfl
    · next h =>
      rw [h]
      rfl
  refine ite_bind (fun _ => ?_) fun _ => ?_
  · cases rest with
    | nil => rfl
    | cons escaped rest => rfl
  -- what is unsupported
  refine ite_bind (fun _ => rfl) fun _ => ?_
  refine ite_bind (fun _ => rfl) fun _ => ?_
  refine ite_bind (fun _ => rfl) fun _ => ?_
  refine ite_bind (fun _ => rfl) fun _ => ?_
  refine ite_bind (fun _ => rfl) fun _ => ?_
  refine ite_bind (fun _ => rfl) fun _ => ?_
  refine ite_bind (fun _ => rfl) fun _ => ?_
  refine ite_bind (fun _ => rfl) fun _ => ?_
  -- operators
  refine ite_bind (fun _ => rfl) fun _ => ?_
  refine ite_bind (fun _ => rfl) fun _ => ?_
  refine ite_bind (fun _ => rfl) fun _ => ?_
  refine ite_bind (fun _ => rfl) fun _ => ?_
  refine ite_bind (fun _ => rfl) fun _ => ?_
  refine ite_bind (fun _ => rfl) fun _ => ?_
  -- a run
  exact ite_bind (fun _ => rfl) fun _ => rfl

/-- The variables of the loop over a quoted word, and what remains. -/
structure QuotedScan where
  tokenizer : Tokenizer
  segment : Text
  atStart : Bool
  remaining : Text

/-- One pass of the loop over a quoted word, at a character that does not end it. -/
def quotedStep (quote : CodePoint) (expands : Bool) (t : Tokenizer) (segment : Text)
    (atStart : Bool) (current : CodePoint) (rest : Text) : Except PyError QuotedScan :=
  if quote = CodePoint.ofChar '"' ∧ current = CodePoint.ofChar '\\' then
    match rest with
    | [] => raise .commandSyntaxInvalid (py "incomplete escape in double-quoted word")
    | escaped :: rest =>
      if escaped ∉ py "$`\"\\" then
        .ok ⟨t, segment ++ py "\\", false, escaped :: rest⟩
      else
        let t := if segment ≠ [] ∨ atStart then t.appendFragment segment expands else t
        .ok ⟨t.appendFragment [escaped] false, [], true, rest⟩
  else if current ∈ py "\n\r" then
    raise .commandSyntaxUnsupported (py "multiline command input is unsupported")
  else
    .ok ⟨t, segment ++ [current], false, rest⟩

/-- The loop over a quoted word goes on after a pass. -/
theorem quotedWord_cons {quote : CodePoint} {expands : Bool} {t : Tokenizer} {segment : Text}
    {atStart : Bool} {current : CodePoint} {rest : Text} (h : current ≠ quote) :
    quotedWord quote expands t segment atStart (current :: rest) =
      (quotedStep quote expands t segment atStart current rest).bind fun next =>
        quotedWord quote expands next.tokenizer next.segment next.atStart next.remaining := by
  conv_lhs => rw [quotedWord.eq_def]
  dsimp only
  rw [if_neg h]
  unfold quotedStep
  refine ite_bind (fun _ => ?_) fun _ => ?_
  · cases rest with
    | nil => rfl
    | cons escaped rest => exact ite_bind (fun _ => rfl) fun _ => rfl
  · exact ite_bind (fun _ => rfl) fun _ => rfl

/-! ## Section 2: LoopsConsume -/

/-- A pass over a quoted word consumes a character. -/
theorem quotedStep_length {quote : CodePoint} {expands : Bool} {t : Tokenizer} {segment : Text}
    {atStart : Bool} {current : CodePoint} {rest : Text} {next : QuotedScan}
    (h : quotedStep quote expands t segment atStart current rest = .ok next) :
    next.remaining.length < (current :: rest).length := by
  unfold quotedStep at h
  split at h
  · cases rest with
    | nil => exact absurd h raise_ne_ok
    | cons escaped rest =>
      dsimp only at h
      split at h
      · cases h
        exact Nat.lt_succ_self _
      · cases h
        simp only [List.length_cons]
        omega
  split at h
  · exact absurd h raise_ne_ok
  · cases h
    exact Nat.lt_succ_self _

/-- The text of an operator. -/
def Operator.text : Operator → Text
  | .sequence => py ";"
  | .and => py "&&"
  | .pipe => py "|"
  | .redirect => py ">"
  | .append => py ">>"

/-- What a pass of the outer loop consumes, and what it does with it. -/
inductive Pass (t : Tokenizer) : Text → Tokenizer → Text → Prop
  | space {c : CodePoint} {rest : Text} (hc : isWhitespace c = true) :
      Pass t (c :: rest) t.flushWord rest
  | quoted {quote : CodePoint} {rest rest' : Text} {t' : Tokenizer} (hquote : quote ∈ py "'\"")
      (h : quotedWord quote (quote = CodePoint.ofChar '"') { t with wordStarted := true } [] true
        rest = .ok (t', rest')) :
      Pass t (quote :: rest) t' rest'
  | escaped (c : CodePoint) (rest : Text) :
      Pass t (CodePoint.ofChar '\\' :: c :: rest) (t.appendFragment [c] false) rest
  | operator (operator : Operator) (rest : Text) :
      Pass t (operator.text ++ rest) (t.appendOperator operator) rest
  | run {run rest : Text} (hne : run ≠ []) (hrun : ∀ c ∈ run, endsRun c = false) :
      Pass t (run ++ rest) (t.appendFragment run true) rest

/-- A conditional that returns does so in one of its branches. -/
theorem ite_ok {c : Prop} [Decidable c] {x y : Except PyError α} {a : α} {result : Prop}
    (h : c → x = .ok a → result) (h' : ¬ c → y = .ok a → result)
    (hite : (if c then x else y) = .ok a) : result := by
  by_cases hc : c
  · rw [if_pos hc] at hite
    exact h hc hite
  · rw [if_neg hc] at hite
    exact h' hc hite

theorem cons_of_take_two {c a b : CodePoint} {rest : Text} (h : (c :: rest).take 2 = [a, b]) :
    c :: rest = [a, b] ++ rest.drop 1 := by
  cases rest with
  | nil => simp at h
  | cons d rest =>
    cases h
    rfl

theorem tokenizeStep_pass {t t' : Tokenizer} {character : CodePoint} {rest rest' : Text}
    (h : tokenizeStep t character rest = .ok (t', rest')) :
    Pass t (character :: rest) t' rest' := by
  have hraise : ∀ {cls message}, (raise cls message : Except PyError (Tokenizer × Text)) =
      .ok (t', rest') → Pass t (character :: rest) t' rest' := fun h => absurd h raise_ne_ok
  unfold tokenizeStep at h
  dsimp only at h
  refine ite_ok (fun hspace h => ?_) (fun hspace => ite_ok (fun hquote h => ?_) fun hquote =>
    ite_ok (fun hbackslash h => ?_) fun hbackslash => ite_ok (fun _ => hraise) fun hhash =>
    ite_ok (fun _ => hraise) fun htick => ite_ok (fun _ => hraise) fun hparen =>
    ite_ok (fun _ => hraise) fun _ => ite_ok (fun _ => hraise) fun _ =>
    ite_ok (fun _ => hraise) fun _ => ite_ok (fun _ => hraise) fun _ =>
    ite_ok (fun _ => hraise) fun hless => ite_ok (fun hpipe h => ?_) fun hpipe =>
    ite_ok (fun _ => hraise) fun hand => ite_ok (fun hands h => ?_) fun hands =>
    ite_ok (fun happend h => ?_) fun happend => ite_ok (fun hsemi h => ?_) fun hsemi =>
    ite_ok (fun hgreater h => ?_) fun hgreater => ite_ok (fun _ => hraise) fun _ h => ?_) h
  · cases h
    exact .space hspace
  · exact .quoted hquote h
  · subst hbackslash
    cases rest with
    | nil => exact absurd h raise_ne_ok
    | cons c rest =>
      cases h
      exact .escaped c _
  · cases h
    subst hpipe
    exact .operator .pipe _
  · cases h
    rw [cons_of_take_two hands]
    exact .operator .and _
  · cases h
    rw [cons_of_take_two happend]
    exact .operator .append _
  · cases h
    subst hsemi
    exact .operator .sequence _
  · cases h
    subst hgreater
    exact .operator .redirect _
  · cases h
    -- no character that ends a run is left
    have hends : endsRun character = false := by
      have hamp : character ≠ CodePoint.ofChar '&' := fun heq => hand ⟨heq, hands⟩
      simp only [Bool.not_eq_true] at hspace
      simp only [endsRun, hspace, Bool.false_or, decide_eq_false_iff_not, mem_special, not_or]
      exact ⟨hquote, hbackslash, hhash, htick, hparen, hless, hgreater, hpipe, hamp, hsemi⟩
    have hne : ((character :: rest).takeWhile fun c => !endsRun c) ≠ [] := by
      rw [List.takeWhile_cons_of_pos (by rw [hends]; rfl)]
      exact List.cons_ne_nil _ _
    have hpass := @Pass.run t _ ((character :: rest).dropWhile fun c => !endsRun c) hne
      fun c hc => by simpa using List.mem_takeWhile_imp hc
    rwa [List.takeWhile_append_dropWhile] at hpass

/-- A pass of the outer loop consumes a character. -/
theorem Pass.length_lt {t t' : Tokenizer} {text rest : Text} (h : Pass t text t' rest) :
    rest.length < text.length := by
  cases h with
  | space => exact Nat.lt_succ_self _
  | quoted hquote h => exact (quotedWord_length h).trans (Nat.lt_succ_self _)
  | escaped c rest =>
    simp only [List.length_cons]
    omega
  | operator operator rest =>
    have : 0 < operator.text.length := by
      cases operator <;> decide
    rw [List.length_append]
    omega
  | run hne hrun =>
    have := List.length_pos_of_ne_nil hne
    rw [List.length_append]
    omega

theorem tokenizeStep_length {t t' : Tokenizer} {character : CodePoint} {rest rest' : Text}
    (h : tokenizeStep t character rest = .ok (t', rest')) :
    rest'.length < (character :: rest).length :=
  (tokenizeStep_pass h).length_lt

/-- Induction over the passes of the outer loop. -/
theorem tokenize_induction {motive : Tokenizer → Text → Prop} (nil : ∀ t, motive t [])
    (cons : ∀ t character rest, (∀ t' rest', tokenizeStep t character rest = .ok (t', rest') →
      motive t' rest') → motive t (character :: rest)) (t : Tokenizer) (text : Text) :
    motive t text := by
  induction hlength : text.length using Nat.strong_induction_on generalizing t text with
  | _ n ih =>
    cases text with
    | nil => exact nil t
    | cons character rest =>
      refine cons t character rest fun t' rest' h => ?_
      have hshorter := tokenizeStep_length h
      exact ih _ (hlength ▸ hshorter) t' rest' rfl

/-- A loop after one of its passes: it has raised, or goes on. -/
def afterPass (pass : Except PyError α) (next : α → Option (Except PyError β)) :
    Option (Except PyError β) :=
  match pass with
  | .error e => some (.error e)
  | .ok a => next a

theorem afterPass_eq {pass : Except PyError α} {next : α → Option (Except PyError β)}
    {loop : α → Except PyError β} (h : ∀ a, pass = .ok a → next a = some (loop a)) :
    afterPass pass next = some (pass.bind loop) := by
  cases hpass : pass with
  | error e => rfl
  | ok a => exact h a hpass

/-- The outer loop in `passes` passes at most; `none` where it is still running. -/
def tokenizeWithin : Nat → Tokenizer → Text → Option (Except PyError Tokenizer)
  | _, t, [] => some (.ok t)
  | 0, _, _ :: _ => none
  | passes + 1, t, character :: rest =>
    afterPass (tokenizeStep t character rest) fun next => tokenizeWithin passes next.1 next.2

/-- The outer loop ends after as many passes as there are characters, at the latest. -/
theorem tokenizeWithin_eq {passes : Nat} {t : Tokenizer} {text : Text} (h : text.length ≤ passes) :
    tokenizeWithin passes t text = some (tokenizeFrom t text) := by
  induction t, text using tokenize_induction generalizing passes with
  | nil t =>
    rw [tokenizeFrom.eq_def]
    cases passes <;> rfl
  | cons t character rest ih =>
    cases passes with
    | zero => simp at h
    | succ passes =>
      rw [tokenizeFrom_cons]
      refine afterPass_eq fun next hstep => ih next.1 next.2 hstep ?_
      have := tokenizeStep_length hstep
      omega

/-- The loop over a quoted word in `passes` passes at most. -/
def quotedWithin (quote : CodePoint) (expands : Bool) :
    Nat → Tokenizer → Text → Bool → Text → Option (Except PyError (Tokenizer × Text))
  | _, _, _, _, [] => some (raise .commandSyntaxInvalid (py "unterminated quoted word"))
  | 0, t, segment, _, current :: rest =>
    if current = quote then some (.ok (t.appendFragment segment expands, rest)) else none
  | passes + 1, t, segment, atStart, current :: rest =>
    if current = quote then
      some (.ok (t.appendFragment segment expands, rest))
    else
      afterPass (quotedStep quote expands t segment atStart current rest) fun next =>
        quotedWithin quote expands passes next.tokenizer next.segment next.atStart next.remaining

/-- So does the loop over a quoted word. -/
theorem quotedWithin_eq {quote : CodePoint} {expands : Bool} {passes : Nat} {t : Tokenizer}
    {segment : Text} {atStart : Bool} {text : Text} (h : text.length ≤ passes) :
    quotedWithin quote expands passes t segment atStart text =
      some (quotedWord quote expands t segment atStart text) := by
  induction passes generalizing t segment atStart text with
  | zero =>
    rw [List.eq_nil_of_length_eq_zero (Nat.le_zero.mp h), quotedWord.eq_def]
    rfl
  | succ passes ih =>
    cases text with
    | nil =>
      rw [quotedWord.eq_def]
      rfl
    | cons current rest =>
      by_cases hquote : current = quote
      · rw [quotedWithin, if_pos hquote, quotedWord.eq_def]
        dsimp only
        rw [if_pos hquote]
      · rw [quotedWithin, if_neg hquote, quotedWord_cons hquote]
        refine afterPass_eq fun next hstep => ih ?_
        have := quotedStep_length hstep
        omega

/-! ## Section 3: A space separates tokens -/

/-- The tokens so far come after others. -/
def Tokenizer.after (t : Tokenizer) (tokens : List Token) : Tokenizer :=
  { t with tokens := tokens ++ t.tokens }

@[simp] theorem Tokenizer.after_fragments (t : Tokenizer) (tokens : List Token) :
    (t.after tokens).fragments = t.fragments := rfl

@[simp] theorem Tokenizer.after_wordStarted (t : Tokenizer) (tokens : List Token) :
    (t.after tokens).wordStarted = t.wordStarted := rfl

theorem Tokenizer.after_flushWord (t : Tokenizer) (tokens : List Token) :
    (t.after tokens).flushWord = t.flushWord.after tokens := by
  by_cases h : t.wordStarted = true
  · simp [flushWord, after, h]
  · simp [flushWord, after, h]

theorem Tokenizer.after_appendOperator (t : Tokenizer) (tokens : List Token) (operator : Operator) :
    (t.after tokens).appendOperator operator = (t.appendOperator operator).after tokens := by
  simp only [appendOperator, after_flushWord]
  simp [after]

/-- The tokens so far do not matter for a quoted word. -/
theorem quotedWord_after {quote : CodePoint} {expands : Bool} {t : Tokenizer} {segment : Text}
    {atStart : Bool} {text : Text} (tokens : List Token) :
    quotedWord quote expands (t.after tokens) segment atStart text =
      (quotedWord quote expands t segment atStart text).bind fun next =>
        .ok (next.1.after tokens, next.2) := by
  fun_induction quotedWord quote expands t segment atStart text with
  | case1 => rfl
  | case2 =>
    rw [quotedWord.eq_def]
    dsimp only
    rw [if_pos rfl]
    rfl
  | case3 t segment atStart current hne hescape =>
    rw [quotedWord, if_neg hne, if_pos hescape]
    rfl
  | case4 t segment atStart current hne hescape escaped rest hplain ih =>
    rw [quotedWord, if_neg hne, if_pos hescape]
    dsimp only
    rw [if_pos hplain]
    exact ih
  | case5 t segment atStart current hne hescape escaped rest hplain kept ih =>
    rw [quotedWord, if_neg hne, if_pos hescape]
    dsimp only
    rw [if_neg hplain, ← ih]
    by_cases hsegment : segment ≠ [] ∨ atStart = true
    · have hkept : kept = t.appendFragment segment expands := if_pos hsegment
      rw [if_pos hsegment, hkept]
      rfl
    · have hkept : kept = t := if_neg hsegment
      rw [if_neg hsegment, hkept]
      rfl
  | case6 t segment atStart current rest hne hescape hline =>
    rw [quotedWord.eq_def]
    dsimp only
    rw [if_neg hne, if_neg hescape, if_pos hline]
    rfl
  | case7 t segment atStart current rest hne hescape hline ih =>
    rw [quotedWord.eq_def]
    dsimp only
    rw [if_neg hne, if_neg hescape, if_neg hline]
    exact ih

/-- Nor for a pass of the outer loop. -/
theorem tokenizeStep_after (t : Tokenizer) (tokens : List Token) (character : CodePoint)
    (rest : Text) : tokenizeStep (t.after tokens) character rest =
      (tokenizeStep t character rest).bind fun next => .ok (next.1.after tokens, next.2) := by
  unfold tokenizeStep
  simp only [Tokenizer.after_flushWord, Tokenizer.after_appendOperator, Tokenizer.after_wordStarted]
  refine ite_bind (fun _ => rfl) fun _ => ?_
  refine ite_bind (fun _ => ?_) fun _ => ?_
  · exact @quotedWord_after _ _ { t with wordStarted := true } [] true rest tokens
  refine ite_bind (fun _ => ?_) fun _ => ?_
  · cases rest with
    | nil => rfl
    | cons escaped rest => rfl
  refine ite_bind (fun _ => rfl) fun _ => ?_
  refine ite_bind (fun _ => rfl) fun _ => ?_
  refine ite_bind (fun _ => rfl) fun _ => ?_
  refine ite_bind (fun _ => rfl) fun _ => ?_
  refine ite_bind (fun _ => rfl) fun _ => ?_
  refine ite_bind (fun _ => rfl) fun _ => ?_
  refine ite_bind (fun _ => rfl) fun _ => ?_
  refine ite_bind (fun _ => rfl) fun _ => ?_
  refine ite_bind (fun _ => rfl) fun _ => ?_
  refine ite_bind (fun _ => rfl) fun _ => ?_
  refine ite_bind (fun _ => rfl) fun _ => ?_
  refine ite_bind (fun _ => rfl) fun _ => ?_
  refine ite_bind (fun _ => rfl) fun _ => ?_
  refine ite_bind (fun _ => rfl) fun _ => ?_
  exact ite_bind (fun _ => rfl) fun _ => rfl

theorem tokenizeFrom_after (t : Tokenizer) (tokens : List Token) (text : Text) :
    tokenizeFrom (t.after tokens) text =
      (tokenizeFrom t text).bind fun last => .ok (last.after tokens) := by
  induction t, text using tokenize_induction with
  | nil t =>
    rw [tokenizeFrom.eq_def, tokenizeFrom.eq_def]
    rfl
  | cons t character rest ih =>
    rw [tokenizeFrom_cons, tokenizeFrom_cons, tokenizeStep_after]
    cases hstep : tokenizeStep t character rest with
    | error e => rfl
    | ok next => exact ih next.1 next.2 hstep

/-- A quoted word that ends does so whatever follows it. -/
theorem quotedWord_extend {quote : CodePoint} {expands : Bool} {t t' : Tokenizer} {segment : Text}
    {atStart : Bool} {text rest : Text} (more : Text)
    (h : quotedWord quote expands t segment atStart text = .ok (t', rest)) :
    quotedWord quote expands t segment atStart (text ++ more) = .ok (t', rest ++ more) := by
  fun_induction quotedWord quote expands t segment atStart text with
  | case1 => exact absurd h raise_ne_ok
  | case2 =>
    cases h
    rw [List.cons_append, quotedWord.eq_def]
    dsimp only
    rw [if_pos rfl]
  | case3 => exact absurd h raise_ne_ok
  | case4 t segment atStart current hne hescape escaped rest' hplain ih =>
    rw [List.cons_append, List.cons_append, quotedWord, if_neg hne, if_pos hescape]
    dsimp only
    rw [if_pos hplain]
    exact ih h
  | case5 t segment atStart current hne hescape escaped rest' hplain _ ih =>
    rw [List.cons_append, List.cons_append, quotedWord, if_neg hne, if_pos hescape]
    dsimp only
    rw [if_neg hplain]
    exact ih h
  | case6 => exact absurd h raise_ne_ok
  | case7 t segment atStart current rest' hne hescape hline ih =>
    rw [List.cons_append, quotedWord.eq_def]
    dsimp only
    rw [if_neg hne, if_neg hescape, if_neg hline]
    exact ih h

/-- `" "` -/
def blank : CodePoint := CodePoint.ofChar ' '

/-- What a pass returns is returned before a space as well. -/
def Extends (more : Text) (x y : Except PyError (Tokenizer × Text)) : Prop :=
  ∀ t' rest, x = .ok (t', rest) → y = .ok (t', rest ++ blank :: more)

theorem extends_raise {more : Text} {cls : ErrorClass} {message : Text}
    {y : Except PyError (Tokenizer × Text)} : Extends more (raise cls message) y :=
  fun _ _ h => absurd h raise_ne_ok

theorem extends_ite {more : Text} {c c' : Prop} [Decidable c] [Decidable c']
    {x x' y y' : Except PyError (Tokenizer × Text)} (hc : c ↔ c') (h : c → Extends more x x')
    (h' : ¬ c → Extends more y y') :
    Extends more (if c then x else y) (if c' then x' else y') := by
  by_cases hcond : c
  · rw [if_pos hcond, if_pos (hc.mp hcond)]
    exact h hcond
  · rw [if_neg hcond, if_neg (mt hc.mpr hcond)]
    exact h' hcond

/-- A look-ahead of two characters that does not end with a space. -/
theorem take_two_extend (c : CodePoint) (rest more : Text) {a b : CodePoint} (hb : b ≠ blank) :
    (c :: rest).take 2 = [a, b] ↔ (c :: (rest ++ blank :: more)).take 2 = [a, b] := by
  cases rest with
  | nil => simp [Ne.symm hb]
  | cons d rest => simp

/-- A run ends before a space. -/
theorem run_extend {p : CodePoint → Bool} (hspace : p blank = false) (text more : Text) :
    (text ++ blank :: more).takeWhile p = text.takeWhile p ∧
      (text ++ blank :: more).dropWhile p = text.dropWhile p ++ blank :: more := by
  induction text with
  | nil => simp [hspace]
  | cons c text ih =>
    rw [List.cons_append, List.takeWhile_cons, List.takeWhile_cons, List.dropWhile_cons,
      List.dropWhile_cons]
    by_cases hc : p c = true
    · simp [hc, ih.1, ih.2]
    · simp [hc]

theorem tokenizeStep_extend (t : Tokenizer) (character : CodePoint) (rest more : Text) :
    Extends more (tokenizeStep t character rest)
      (tokenizeStep t character (rest ++ blank :: more)) := by
  have htwo : ∀ {a b : CodePoint}, b ≠ blank → ((character :: rest).take 2 = [a, b] ↔
      (character :: (rest ++ blank :: more)).take 2 = [a, b]) :=
    fun hb => take_two_extend character rest more hb
  have hok : ∀ {t' : Tokenizer}, Extends more (.ok (t', rest)) (.ok (t', rest ++ blank :: more)) := by
    intro t' _ _ h
    cases h
    rfl
  have hdrop : ∀ {t' : Tokenizer} {a b : CodePoint}, (character :: rest).take 2 = [a, b] →
      Extends more (.ok (t', rest.drop 1)) (.ok (t', (rest ++ blank :: more).drop 1)) := by
    intro t' a b htake _ _ h
    cases h
    cases rest with
    | nil => simp at htake
    | cons d rest => rfl
  unfold tokenizeStep
  dsimp only
  refine extends_ite Iff.rfl (fun _ => hok) fun _ => ?_
  refine extends_ite Iff.rfl (fun _ _ _ h => quotedWord_extend _ h) fun _ => ?_
  refine extends_ite Iff.rfl (fun _ => ?_) fun _ => ?_
  · cases rest with
    | nil => exact extends_raise
    | cons escaped rest =>
      intro _ _ h
      cases h
      rfl
  refine extends_ite Iff.rfl (fun _ => extends_raise) fun _ => ?_
  refine extends_ite Iff.rfl (fun _ => extends_raise) fun _ => ?_
  refine extends_ite Iff.rfl (fun _ => extends_raise) fun _ => ?_
  refine extends_ite (htwo (by decide)) (fun _ => extends_raise) fun _ => ?_
  refine extends_ite (or_congr (htwo (by decide)) (htwo (by decide))) (fun _ => extends_raise)
    fun _ => ?_
  refine extends_ite (htwo (by decide)) (fun _ => extends_raise) fun _ => ?_
  refine extends_ite (htwo (by decide)) (fun _ => extends_raise) fun _ => ?_
  refine extends_ite Iff.rfl (fun _ => extends_raise) fun _ => ?_
  refine extends_ite Iff.rfl (fun _ => hok) fun _ => ?_
  refine extends_ite (and_congr Iff.rfl (not_congr (htwo (by decide)))) (fun _ => extends_raise)
    fun _ => ?_
  refine extends_ite (htwo (by decide)) hdrop fun _ => ?_
  refine extends_ite (htwo (by decide)) hdrop fun _ => ?_
  refine extends_ite Iff.rfl (fun _ => hok) fun _ => ?_
  refine extends_ite Iff.rfl (fun _ => hok) fun _ => ?_
  have hrun := @run_extend (fun c => !endsRun c) (by decide) (character :: rest) more
  rw [← List.cons_append, hrun.1, hrun.2]
  refine extends_ite (and_congr Iff.rfl (and_congr Iff.rfl ?_)) (fun _ => extends_raise) fun _ => ?_
  · cases (character :: rest).dropWhile fun c => !endsRun c with
    | nil => exact iff_of_false (by simp) (by simpa using show blank ≠ CodePoint.ofChar '>' by decide)
    | cons c left => rfl
  · intro _ _ h
    cases h
    rfl

/-- An accepted text before a space is read as it is alone. -/
theorem tokenizeFrom_space_append {t last : Tokenizer} {text : Text} (more : Text)
    (h : tokenizeFrom t text = .ok last) :
    tokenizeFrom t (text ++ blank :: more) = tokenizeFrom last.flushWord more := by
  induction t, text using tokenize_induction with
  | nil t =>
    rw [tokenizeFrom.eq_def] at h
    cases h
    have hstep : tokenizeStep last blank more = .ok (last.flushWord, more) := by
      unfold tokenizeStep
      rw [if_pos (show isWhitespace blank = true by decide)]
    rw [List.nil_append, tokenizeFrom_cons, hstep]
    rfl
  | cons t character rest ih =>
    rw [tokenizeFrom_cons] at h
    obtain ⟨⟨t', rest'⟩, hstep, h⟩ := Except.bind_eq_ok_iff.mp h
    rw [List.cons_append, tokenizeFrom_cons, tokenizeStep_extend t character rest more t' rest' hstep]
    exact ih t' rest' hstep h

/-- The accepted texts, and their tokens. -/
theorem tokenize_eq_ok {command : Text} {tokens : List Token} :
    tokenize command = .ok tokens ↔
      (CodePoint.ofChar '\n' ∉ command ∧ CodePoint.ofChar '\r' ∉ command) ∧
        ∃ last, tokenizeFrom ⟨[], [], false⟩ command = .ok last ∧ tokens = last.flushWord.tokens := by
  simp only [tokenize, Except.bind_eq_ok_iff, require_eq_ok, Except.ok.injEq, exists_const,
    eq_comm (a := tokens)]

/-- Two accepted texts with a space between them have the tokens of both. -/
theorem tokenize_append {a b : Text} {tokens more : List Token} (ha : tokenize a = .ok tokens)
    (hb : tokenize b = .ok more) : tokenize (a ++ py " " ++ b) = .ok (tokens ++ more) := by
  obtain ⟨⟨hlf, hcr⟩, last, hlast, rfl⟩ := tokenize_eq_ok.mp ha
  obtain ⟨⟨hlf', hcr'⟩, last', hlast', rfl⟩ := tokenize_eq_ok.mp hb
  refine tokenize_eq_ok.mpr ⟨⟨?_, ?_⟩, last'.after last.flushWord.tokens, ?_, ?_⟩
  · simpa [hlf, hlf'] using show CodePoint.ofChar '\n' ∉ py " " by decide
  · simpa [hcr, hcr'] using show CodePoint.ofChar '\r' ∉ py " " by decide
  · rw [List.append_assoc]
    show tokenizeFrom _ (a ++ blank :: b) = _
    rw [tokenizeFrom_space_append b hlast]
    have hstart : Tokenizer.after ⟨[], [], false⟩ last.flushWord.tokens = last.flushWord := by
      rw [Tokenizer.after, List.append_nil]
      rfl
    have hafter := tokenizeFrom_after ⟨[], [], false⟩ last.flushWord.tokens b
    rwa [hlast', hstart] at hafter
  · rw [Tokenizer.after_flushWord]
    rfl

/-! ## Section 4: What the fragments hold -/

/-- Where a position of the input stands; after an escaping backslash it is
    `escaped` or `doubleEscaped`. -/
inductive Quoting where
  | unquoted
  | escaped
  | single
  | double
  | doubleEscaped
  deriving DecidableEq

/-- Why a character of the input is not in a fragment, or that it is. -/
inductive Mark where
  | kept
  | whiteSpace
  | operator
  | delimiter
  | escape
  deriving DecidableEq

/-- The mark of a character with the next one, and where the next one stands. -/
def markOf (quoting : Quoting) (c : CodePoint) (next : Option CodePoint) : Mark × Quoting :=
  match quoting with
  | .unquoted =>
    if isWhitespace c then (.whiteSpace, .unquoted)
    else if c = CodePoint.ofChar '\'' then (.delimiter, .single)
    else if c = CodePoint.ofChar '"' then (.delimiter, .double)
    else if c = CodePoint.ofChar '\\' then (.escape, .escaped)
    else if c ∈ py ";&|>" then (.operator, .unquoted)
    else (.kept, .unquoted)
  | .escaped => (.kept, .unquoted)
  | .single => if c = CodePoint.ofChar '\'' then (.delimiter, .unquoted) else (.kept, .single)
  | .double =>
    if c = CodePoint.ofChar '"' then (.delimiter, .unquoted)
    else if c = CodePoint.ofChar '\\' ∧ next.any fun next => decide (next ∈ py "$`\"\\") then
      (.escape, .doubleEscaped)
    else (.kept, .double)
  | .doubleEscaped => (.kept, .double)

/-- Each character of the input with its mark: removed are white space and
    operators outside quotes, the quotes that delimit, and the backslashes that
    escape. -/
def marks : Quoting → Text → List (CodePoint × Mark)
  | _, [] => []
  | quoting, c :: rest =>
    (c, (markOf quoting c rest.head?).1) :: marks (markOf quoting c rest.head?).2 rest

/-- Every character is marked once. -/
theorem marks_fst (quoting : Quoting) (text : Text) : (marks quoting text).map Prod.fst = text := by
  induction text generalizing quoting with
  | nil => rfl
  | cons c text ih => rw [marks, List.map_cons, ih]

/-- The characters that are kept. -/
def keptOf (marked : List (CodePoint × Mark)) : Text :=
  (marked.filter fun m => decide (m.2 = .kept)).map Prod.fst

theorem keptOf_kept {quoting next : Quoting} {c : CodePoint} {rest : Text}
    (h : markOf quoting c rest.head? = (.kept, next)) :
    keptOf (marks quoting (c :: rest)) = c :: keptOf (marks next rest) := by
  rw [marks, h]
  rfl

theorem keptOf_removed {quoting next : Quoting} {c : CodePoint} {rest : Text} {mark : Mark}
    (hmark : mark ≠ .kept) (h : markOf quoting c rest.head? = (mark, next)) :
    keptOf (marks quoting (c :: rest)) = keptOf (marks next rest) := by
  rw [marks, h, keptOf, List.filter_cons_of_neg (by simpa using hmark)]
  rfl

/-- The texts of fragments. -/
def fragmentTexts (fragments : List WordFragment) : Text := fragments.flatMap WordFragment.text

/-- The texts of a token's fragments. -/
def Token.texts : Token → Text
  | .word w => fragmentTexts w.fragments
  | .operator _ => []

/-- The texts of the fragments of the words. -/
def wordTexts (tokens : List Token) : Text := tokens.flatMap Token.texts

namespace Tokenizer

/-- The texts of all fragments so far. -/
def texts (t : Tokenizer) : Text := wordTexts t.tokens ++ fragmentTexts t.fragments

/-- A word that has not started has no fragments. -/
def Proper (t : Tokenizer) : Prop := t.wordStarted = false → t.fragments = []

theorem proper_flushWord (t : Tokenizer) : t.flushWord.Proper := fun _ => rfl

theorem proper_appendFragment (t : Tokenizer) (text : Text) (expands : Bool) :
    (t.appendFragment text expands).Proper := nofun

theorem texts_flushWord {t : Tokenizer} (h : t.Proper) : t.flushWord.texts = t.texts := by
  by_cases hstarted : t.wordStarted = true
  · simp [texts, flushWord, hstarted, wordTexts, fragmentTexts, Token.texts]
  · have hnone := h (by simpa using hstarted)
    simp [texts, flushWord, hstarted, hnone]

theorem wordTexts_flushWord {t : Tokenizer} (h : t.Proper) :
    wordTexts t.flushWord.tokens = t.texts := by
  have := texts_flushWord h
  rwa [texts, show t.flushWord.fragments = [] from rfl, fragmentTexts, List.flatMap_nil,
    List.append_nil] at this

theorem texts_appendFragment (t : Tokenizer) (text : Text) (expands : Bool) :
    (t.appendFragment text expands).texts = t.texts ++ text := by
  simp [texts, appendFragment, fragmentTexts]

theorem texts_appendOperator {t : Tokenizer} (h : t.Proper) (operator : Operator) :
    (t.appendOperator operator).texts = t.texts := by
  rw [← texts_flushWord h]
  simp [texts, appendOperator, wordTexts, Token.texts]

end Tokenizer

/-- The quotes of a quoted word. -/
def quotingOf (quote : CodePoint) : Quoting := if quote = CodePoint.ofChar '"' then .double else .single

theorem quote_cases {quote : CodePoint} (hquote : quote ∈ py "'\"") :
    quote = CodePoint.ofChar '\'' ∨ quote = CodePoint.ofChar '"' := by
  simpa [py] using hquote

theorem marks_escaped {quote escaped : CodePoint} (hdouble : quote = CodePoint.ofChar '"')
    (h : escaped ∈ py "$`\"\\") (rest : Text) :
    keptOf (marks (quotingOf quote) (CodePoint.ofChar '\\' :: escaped :: rest)) =
      escaped :: keptOf (marks (quotingOf quote) rest) := by
  have hmark : markOf .double (CodePoint.ofChar '\\') (escaped :: rest).head? =
      (.escape, .doubleEscaped) := by
    rw [markOf, if_neg (by decide), if_pos ⟨rfl, by simpa using h⟩]
  rw [quotingOf, if_pos hdouble, keptOf_removed (by decide) hmark]
  exact keptOf_kept rfl

/-- The quote that opened the word closes it. -/
theorem marks_closing {quote : CodePoint} (hquote : quote ∈ py "'\"") (rest : Text) :
    keptOf (marks (quotingOf quote) (quote :: rest)) = keptOf (marks .unquoted rest) := by
  have hdelimiter : (.delimiter : Mark) ≠ .kept := by decide
  rcases quote_cases hquote with rfl | rfl
  · exact keptOf_removed hdelimiter rfl
  · exact keptOf_removed hdelimiter rfl

/-- Other characters between quotes are kept. -/
theorem marks_between {quote c : CodePoint} (hquote : quote ∈ py "'\"") (hne : c ≠ quote)
    {rest : Text} (hplain : ¬ (quote = CodePoint.ofChar '"' ∧ c = CodePoint.ofChar '\\' ∧
      rest.head?.any fun next => decide (next ∈ py "$`\"\\"))) :
    keptOf (marks (quotingOf quote) (c :: rest)) = c :: keptOf (marks (quotingOf quote) rest) := by
  rcases quote_cases hquote with rfl | rfl
  · exact keptOf_kept (if_neg hne)
  · have hmark : markOf .double c rest.head? = (.kept, .double) := by
      rw [markOf, if_neg hne, if_neg fun h => hplain ⟨rfl, h⟩]
    exact keptOf_kept hmark

/-- A quoted word holds what is kept of it. -/
theorem texts_quotedWord {quote : CodePoint} (hquote : quote ∈ py "'\"") {expands : Bool}
    {t t' : Tokenizer} {segment : Text} {atStart : Bool} {text rest : Text}
    (h : quotedWord quote expands t segment atStart text = .ok (t', rest)) :
    t'.Proper ∧ t'.texts ++ keptOf (marks .unquoted rest) =
      t.texts ++ segment ++ keptOf (marks (quotingOf quote) text) := by
  fun_induction quotedWord quote expands t segment atStart text with
  | case1 => exact absurd h raise_ne_ok
  | case2 =>
    cases h
    rw [marks_closing hquote, Tokenizer.texts_appendFragment]
    exact ⟨Tokenizer.proper_appendFragment _ _ _, rfl⟩
  | case3 => exact absurd h raise_ne_ok
  | case4 t segment atStart current hne hescape escaped rest' hplain ih =>
    obtain ⟨hproper, htexts⟩ := ih h
    refine ⟨hproper, htexts.trans ?_⟩
    rw [hescape.2] at hne ⊢
    rw [marks_between hquote hne fun h => hplain (by simpa using h.2.2)]
    simp [py]
  | case5 t segment atStart current hne hescape escaped rest' hplain kept ih =>
    obtain ⟨hproper, htexts⟩ := ih h
    refine ⟨hproper, htexts.trans ?_⟩
    have hkept : kept.texts = t.texts ++ segment := by
      by_cases hsegment : segment ≠ [] ∨ atStart = true
      · rw [show kept = t.appendFragment segment expands from if_pos hsegment,
          Tokenizer.texts_appendFragment]
      · -- a segment that is left out is empty
        have hnil : segment = [] := by
          by_contra hne
          exact hsegment (.inl hne)
        rw [show kept = t from if_neg hsegment, hnil, List.append_nil]
    rw [hescape.2, marks_escaped hescape.1 (by simpa using hplain), Tokenizer.texts_appendFragment,
      hkept]
    simp
  | case6 => exact absurd h raise_ne_ok
  | case7 t segment atStart current rest' hne hescape hline ih =>
    obtain ⟨hproper, htexts⟩ := ih h
    refine ⟨hproper, htexts.trans ?_⟩
    rw [marks_between hquote hne fun h => hescape ⟨h.1, h.2.1⟩]
    simp

/-- The characters of a run are kept. -/
theorem marks_run {run : Text} (hrun : ∀ c ∈ run, endsRun c = false) (rest : Text) :
    keptOf (marks .unquoted (run ++ rest)) = run ++ keptOf (marks .unquoted rest) := by
  induction run with
  | nil => rfl
  | cons c run ih =>
    obtain ⟨hc, hrun⟩ := List.forall_mem_cons.mp hrun
    simp only [endsRun, Bool.or_eq_false_iff, decide_eq_false_iff_not, mem_special, not_or] at hc
    obtain ⟨hspace, hquote, hbackslash, -, -, -, -, hgreater, hpipe, hand, hsemi⟩ := hc
    have hsingle : c ≠ CodePoint.ofChar '\'' := by
      rintro rfl
      exact hquote (by decide)
    have hdouble : c ≠ CodePoint.ofChar '"' := by
      rintro rfl
      exact hquote (by decide)
    have hoperator : c ∉ py ";&|>" := by
      intro hmem
      have hcases : c = CodePoint.ofChar ';' ∨ c = CodePoint.ofChar '&' ∨ c = CodePoint.ofChar '|' ∨
          c = CodePoint.ofChar '>' := by simpa [py] using hmem
      tauto
    have hmark : markOf .unquoted c (run ++ rest).head? = (.kept, .unquoted) := by
      rw [markOf, if_neg (by rw [hspace]; exact Bool.false_ne_true), if_neg hsingle,
        if_neg hdouble, if_neg hbackslash, if_neg hoperator]
    rw [List.cons_append, keptOf_kept hmark, ih hrun]
    rfl

/-- Nothing of an operator is kept. -/
theorem marks_operator (operator : Operator) (rest : Text) :
    keptOf (marks .unquoted (operator.text ++ rest)) = keptOf (marks .unquoted rest) := by
  have hone : ∀ c ∈ py ";&|>", ∀ rest,
      keptOf (marks .unquoted (c :: rest)) = keptOf (marks .unquoted rest) := by
    intro c hc rest
    have hcases : c = CodePoint.ofChar ';' ∨ c = CodePoint.ofChar '&' ∨ c = CodePoint.ofChar '|' ∨
        c = CodePoint.ofChar '>' := by simpa [py] using hc
    have hoperator : (.operator : Mark) ≠ .kept := by decide
    rcases hcases with rfl | rfl | rfl | rfl
    · exact keptOf_removed hoperator rfl
    · exact keptOf_removed hoperator rfl
    · exact keptOf_removed hoperator rfl
    · exact keptOf_removed hoperator rfl
  cases operator with
  | sequence => exact hone _ (by decide) rest
  | and => exact (hone _ (by decide) _).trans (hone _ (by decide) rest)
  | pipe => exact hone _ (by decide) rest
  | redirect => exact hone _ (by decide) rest
  | append => exact (hone _ (by decide) _).trans (hone _ (by decide) rest)

/-- A pass adds to the fragments what is kept of what it consumes. -/
theorem Pass.texts {t t' : Tokenizer} {text rest : Text} (h : Pass t text t' rest)
    (hproper : t.Proper) : t'.Proper ∧
      t'.texts ++ keptOf (marks .unquoted rest) = t.texts ++ keptOf (marks .unquoted text) := by
  cases h with
  | space hspace =>
    rename_i c
    refine ⟨t.proper_flushWord, ?_⟩
    have hmark : markOf .unquoted c rest.head? = (.whiteSpace, .unquoted) := if_pos hspace
    rw [Tokenizer.texts_flushWord hproper, keptOf_removed (by decide) hmark]
  | quoted hquote hword =>
    rename_i quote rest
    obtain ⟨hproper', htexts⟩ := texts_quotedWord hquote hword
    refine ⟨hproper', htexts.trans ?_⟩
    have hstarted : Tokenizer.texts { t with wordStarted := true } = t.texts := rfl
    have hdelimiter : (.delimiter : Mark) ≠ .kept := by decide
    have hopening : keptOf (marks .unquoted (quote :: rest)) =
        keptOf (marks (quotingOf quote) rest) := by
      rcases quote_cases hquote with rfl | rfl
      · exact keptOf_removed hdelimiter rfl
      · exact keptOf_removed hdelimiter rfl
    rw [hopening, hstarted, List.append_nil]
  | escaped c rest =>
    refine ⟨t.proper_appendFragment _ _, ?_⟩
    have hescape : (.escape : Mark) ≠ .kept := by decide
    have hkept : keptOf (marks .unquoted (CodePoint.ofChar '\\' :: c :: rest)) =
        c :: keptOf (marks .unquoted rest) :=
      (keptOf_removed hescape rfl).trans (keptOf_kept rfl)
    rw [Tokenizer.texts_appendFragment, hkept, List.append_assoc]
    rfl
  | operator operator rest =>
    refine ⟨Tokenizer.proper_flushWord t, ?_⟩
    rw [Tokenizer.texts_appendOperator hproper, marks_operator]
  | run hne hrun =>
    refine ⟨t.proper_appendFragment _ _, ?_⟩
    rw [Tokenizer.texts_appendFragment, marks_run hrun, List.append_assoc]

theorem texts_tokenizeFrom {t last : Tokenizer} {text : Text} (hproper : t.Proper)
    (h : tokenizeFrom t text = .ok last) :
    last.Proper ∧ last.texts = t.texts ++ keptOf (marks .unquoted text) := by
  induction t, text using tokenize_induction with
  | nil t =>
    rw [tokenizeFrom.eq_def] at h
    cases h
    exact ⟨hproper, (List.append_nil _).symm⟩
  | cons t character rest ih =>
    rw [tokenizeFrom_cons] at h
    obtain ⟨⟨t', rest'⟩, hstep, h⟩ := Except.bind_eq_ok_iff.mp h
    obtain ⟨hproper', htexts⟩ := (tokenizeStep_pass hstep).texts hproper
    obtain ⟨hlast, hall⟩ := ih t' rest' hstep hproper' h
    exact ⟨hlast, hall.trans htexts⟩

/-- The words of an accepted input hold what is kept of it. -/
theorem tokenize_texts {command : Text} {tokens : List Token} (h : tokenize command = .ok tokens) :
    wordTexts tokens = keptOf (marks .unquoted command) := by
  obtain ⟨-, last, hlast, rfl⟩ := tokenize_eq_ok.mp h
  obtain ⟨hproper, htexts⟩ := texts_tokenizeFrom (fun _ => rfl) hlast
  rw [Tokenizer.wordTexts_flushWord hproper, htexts]
  rfl

/-- A blank between quotes and an escaped operator are kept. -/
example : keptOf (marks .unquoted (py "a \"b c\" \\|d;e")) = py "ab c|de" := by decide

/-! ## Section 5: The laws -/

/-- Each pass of a loop consumes a character, and both loops end after as many
    passes as there are characters. -/
structure LoopsConsume : Prop where
  outer : ∀ t character rest t' rest', tokenizeStep t character rest = .ok (t', rest') →
    rest'.length < (character :: rest).length
  quoted : ∀ quote expands t segment atStart current rest next,
    quotedStep quote expands t segment atStart current rest = .ok next →
      next.remaining.length < (current :: rest).length
  outer_ends : ∀ t text, tokenizeWithin text.length t text = some (tokenizeFrom t text)
  quoted_ends : ∀ quote expands t segment atStart text,
    quotedWithin quote expands text.length t segment atStart text =
      some (quotedWord quote expands t segment atStart text)

/-- Accepted texts compose, the loops end, and words hold what is kept. -/
theorem tokenize_laws : LoopsConsume ∧
    (∀ a b tokens more, tokenize a = .ok tokens → tokenize b = .ok more →
      tokenize (a ++ py " " ++ b) = .ok (tokens ++ more)) ∧
    ∀ command tokens, tokenize command = .ok tokens →
      (marks .unquoted command).map Prod.fst = command ∧
        wordTexts tokens = keptOf (marks .unquoted command) :=
  ⟨⟨fun _ _ _ _ _ h => tokenizeStep_length h, fun _ _ _ _ _ _ _ _ h => quotedStep_length h,
      fun _ _ => tokenizeWithin_eq le_rfl, fun _ _ _ _ _ _ => quotedWithin_eq le_rfl⟩,
    fun _ _ _ _ ha hb => tokenize_append ha hb,
    fun _ _ h => ⟨marks_fst _ _, tokenize_texts h⟩⟩

/-- A run of the tokenizer that ends within the length of its input. -/
theorem tokenize_of_within {command : Text} {last : Tokenizer}
    (hlf : CodePoint.ofChar '\n' ∉ command) (hcr : CodePoint.ofChar '\r' ∉ command)
    (h : tokenizeWithin command.length ⟨[], [], false⟩ command = some (.ok last)) :
    tokenize command = .ok last.flushWord.tokens := by
  rw [tokenizeWithin_eq le_rfl] at h
  exact tokenize_eq_ok.mpr ⟨⟨hlf, hcr⟩, last, Option.some.inj h, rfl⟩

/-- A plain word. -/
def plainToken (text : Text) : Token := .word ⟨[⟨text, true⟩]⟩

/-- A pipeline cut before its redirection. -/
theorem tokenize_laws_pipeline : tokenize (py "a|b" ++ py " " ++ py ">c") =
    .ok ([plainToken (py "a"), .operator .pipe, plainToken (py "b")] ++
      [.operator .redirect, plainToken (py "c")]) := by
  have hcommand : tokenize (py "a|b") =
      .ok [plainToken (py "a"), .operator .pipe, plainToken (py "b")] :=
    @tokenize_of_within _ ⟨[plainToken (py "a"), .operator .pipe], [⟨py "b", true⟩], true⟩
      (by decide) (by decide) rfl
  have hredirection : tokenize (py ">c") = .ok [.operator .redirect, plainToken (py "c")] :=
    @tokenize_of_within _ ⟨[.operator .redirect], [⟨py "c", true⟩], true⟩
      (by decide) (by decide) rfl
  exact tokenize_laws.2.1 _ _ _ _ hcommand hredirection
