import MemSandbox.CommandExecutor.CommandProfile

/-! # The reading commands change nothing

    The commands of the profile that may be redirected, or stand in a
    pipeline, are those that only read.  Whatever the reader answers, such a
    command leaves every part of the state alone that the reader leaves alone,
    returns no state transition, and fails in one of a few ways.

    * **Section 1** the results, and the statements that commands share;
    * **Section 2** one frame for each loop, and one for the profile. -/

open Python
open VirtualCommandExecutor (lift)

/-! ## Section 1: Results and statements -/

/-- The failures that are a reading command's own. -/
def readingFailures : List CommandFailureCode := [.invalidArgument, .noMatch, .workspaceFailure]

/-- A result without a state transition, whose failure is one of the reading
    commands, or the rejection of one of `operands`. -/
structure Undisclosing (protection : CommandValueProtection) (operands : List Text)
    (result : CommandResult) : Prop where
  cwd : result.resultingCwd = none
  changes : result.environmentChanges = []
  code : ∀ code ∈ result.failureCode, code ∈ readingFailures ∨
    code = .protectedValueRejected ∧ ∃ operand ∈ operands, protection.containsProtectedText operand

/-- What the operands of a command may be: `"."` and its arguments. -/
def candidateOperands (request : CommandRequest) : List Text := py "." :: request.argv.tail

theorem mem_candidates {request : CommandRequest} {operand : Text} (h : operand ∈ request.argv.tail) :
    operand ∈ candidateOperands request := List.mem_cons_of_mem _ h

/-- A reader that leaves the part `get` of the state alone. -/
structure ReadsOnly {σ β : Type} (get : σ → β) (reader : CommandWorkspaceReader σ) : Prop where
  resolvePath : ∀ value cwd, Call.Frames get (reader.resolvePath value cwd) fun _ => True
  stat : ∀ path, Call.Frames get (reader.stat path) fun _ => True
  list : ∀ path, Call.Frames get (reader.list path) fun _ => True
  readText : ∀ path, Call.Frames get (reader.readText path) fun _ => True

section

variable {σ α β : Type} {get : σ → β}

theorem frames_of_except {x : Except PyError α} {post : α → Prop} (h : ∀ a, x = .ok a → post a) :
    Call.Frames get (lift x : Call σ Raised α) post := by
  refine Call.frames_lift fun a ha => h a ?_
  cases x with
  | ok b => exact congrArg Except.ok (Except.ok.inj ha)
  | error e => cases ha

theorem frames_expecting {x : Call σ Raised α} {post : α → Prop} (h : Call.Frames get x post) :
    Call.Frames get (expecting x) fun r => ∀ a, r = .ok a → post a := by
  refine (h.bind fun a ha => Call.frames_pure ?_).tryCatch fun e => ?_
  · intro b hb
    exact Except.ok.inj hb ▸ ha
  · cases e with
    | error e =>
      dsimp only
      split
      · exact Call.frames_pure fun _ hb => nomatch hb
      · exact Call.frames_throw
    | cancelledError => exact Call.frames_throw
    | exit => exact Call.frames_throw

end

section Results

variable {σ β : Type} {get : σ → β} {protection : CommandValueProtection} {operands : List Text}

/-- A new result without a state transition is quiet if its failure is. -/
theorem undisclosing_new {exitCode : Nat} {failureCode : Option CommandFailureCode} {stdout stderr : Text}
    (hcode : ∀ code ∈ failureCode, code ∈ readingFailures ∨ code = .protectedValueRejected ∧
      ∃ operand ∈ operands, protection.containsProtectedText operand) :
    Call.Frames get (lift (CommandResult.new exitCode failureCode stdout stderr none []) :
      Call σ Raised CommandResult) (Undisclosing protection operands) := by
  refine frames_of_except fun result hresult => ?_
  obtain ⟨-, hfailure, -, -, hcwd, hchanges⟩ := CommandResult.new_eq_ok hresult
  exact ⟨hcwd, hchanges, hfailure ▸ hcode⟩

theorem undisclosing_printed (stdout : Text) :
    Call.Frames get (lift (printed stdout) : Call σ Raised CommandResult)
      (Undisclosing protection operands) :=
  undisclosing_new fun _ hcode => nomatch hcode

theorem undisclosing_invalid (command message : Text) :
    Call.Frames get (lift (invalidArguments command message) : Call σ Raised CommandResult)
      (Undisclosing protection operands) :=
  undisclosing_new fun code hcode => .inl (by simp_all [readingFailures])

theorem undisclosing_failure (command message stdout : Text) :
    Call.Frames get (lift (commandFailure command message stdout) : Call σ Raised CommandResult)
      (Undisclosing protection operands) :=
  undisclosing_new fun code hcode => .inl (by simp_all [readingFailures])

theorem undisclosing_protected (command : Text) {operand : Text} (hmem : operand ∈ operands)
    (h : protectsAny protection [operand] = true) :
    Call.Frames get (lift (protectedValue command) : Call σ Raised CommandResult)
      (Undisclosing protection operands) := by
  refine undisclosing_new fun code hcode => .inr ⟨(Option.mem_some.mp hcode).symm, operand, hmem, ?_⟩
  simpa [protectsAny] using h

theorem undisclosing_rejectStdin {command : Text} {request : CommandRequest}
    {body : Call σ Raised CommandResult} (h : Call.Frames get body (Undisclosing protection operands)) :
    Call.Frames get (rejectStdin command request body) (Undisclosing protection operands) := by
  unfold rejectStdin
  split
  · exact undisclosing_invalid _ _
  · exact h

end Results

/-- The operands of a scan are arguments. -/
theorem scanArguments_subset {isOption accepts : Text → Bool} {arguments options operands : List Text}
    (h : scanArguments isOption accepts arguments = some (options, operands)) :
    operands ⊆ arguments := by
  induction arguments generalizing options with
  | nil =>
    cases h
    exact List.Subset.refl _
  | cons argument rest ih =>
    rw [scanArguments] at h
    split at h
    · cases h
      exact List.subset_cons_self _ _
    · split at h
      · split at h
        · obtain ⟨⟨options', operands'⟩, hscan, hparts⟩ := Option.map_eq_some_iff.mp h
          cases hparts
          exact List.Subset.trans (ih hscan) (List.subset_cons_self _ _)
        · cases h
      · cases h
        exact List.Subset.refl _

/-- The operands of a count are arguments. -/
theorem countOperands_subset {arguments operands : List Text}
    (h : countOperands arguments = some operands) : operands ⊆ arguments := by
  unfold countOperands at h
  split at h
  · cases h
    exact List.Subset.refl _
  · split at h
    · cases h
      exact List.subset_cons_self _ _
    · split at h
      · cases h
      · cases h
        exact List.Subset.refl _

theorem countWord_subset [CommandRuntime] {arguments remaining : List Text} {value : Option Text}
    (h : countWord arguments = some (value, remaining)) : remaining ⊆ arguments := by
  unfold countWord at h
  split at h
  · cases h
    exact List.Subset.refl _
  · split at h
    · split at h
      · cases h
      · cases h
        exact List.Subset.trans (List.subset_cons_self _ _) (List.subset_cons_self _ _)
    · split at h
      · cases h
        exact List.subset_cons_self _ _
      · split at h
        · cases h
          exact List.subset_cons_self _ _
        · cases h
          exact List.Subset.refl _

theorem parseCount_subset [UnicodeData] [CommandRuntime] {arguments operands : List Text}
    {count : Nat} (h : parseCount arguments = some (count, operands)) : operands ⊆ arguments := by
  unfold parseCount at h
  split at h
  · cases h
    exact List.Subset.refl _
  · split at h
    · cases h
      exact List.subset_cons_self _ _
    · obtain ⟨⟨value, remaining⟩, hword, h⟩ := Option.bind_eq_some_iff.mp h
      obtain ⟨count, -, h⟩ := Option.bind_eq_some_iff.mp h
      obtain ⟨operands', hoperands, h⟩ := Option.bind_eq_some_iff.mp h
      cases h
      exact List.Subset.trans (countOperands_subset hoperands) (countWord_subset hword)

theorem grepOptions_subset {arguments rest : List Text} {options options' : GrepOptions}
    (h : grepOptions arguments options = some (options', rest)) : rest ⊆ arguments := by
  induction arguments generalizing options with
  | nil =>
    cases h
    exact List.Subset.refl _
  | cons argument arguments ih =>
    rw [grepOptions] at h
    split at h
    · cases h
      exact List.Subset.refl _
    · split at h
      · cases h
        exact List.subset_cons_self _ _
      · split at h
        · exact List.Subset.trans (ih h) (List.subset_cons_self _ _)
        · cases h

theorem findOperand_mem (arguments : List Text) : (findOperand arguments).1 ∈ py "." :: arguments := by
  unfold findOperand
  split
  · exact List.mem_cons_self
  · split
    · split
      · exact List.mem_cons_self
      · exact List.mem_cons_of_mem _ (List.mem_cons_of_mem _ List.mem_cons_self)
    · split
      · exact List.mem_cons_self
      · exact List.mem_cons_of_mem _ List.mem_cons_self

theorem dropWord_subset (word : Text) (arguments : List Text) : dropWord word arguments ⊆ arguments := by
  unfold dropWord
  split
  · exact List.Subset.refl _
  · split
    · exact List.subset_cons_self _ _
    · exact List.Subset.refl _

/-! ## Section 2: The loops and the commands -/

section Frames

variable {σ β : Type} {get : σ → β} {reader : CommandWorkspaceReader σ}

theorem frames_readOperand (hreader : ReadsOnly get reader) (cwd : SandboxPath) (operand : Text) :
    Call.Frames get (readOperand reader cwd operand) fun _ => True :=
  (hreader.resolvePath operand cwd).bind fun path _ =>
    (hreader.readText path).bind fun _ _ => Call.frames_pure trivial

theorem frames_visitNode (hreader : ReadsOnly get reader) (maxDepth : Option Nat) (frames : Nat)
    (path : SandboxPath) (depth : Nat) (output : List FoundNode) :
    Call.Frames get (visitNode reader maxDepth frames path depth output) fun _ => True := by
  induction frames generalizing path depth output with
  | zero => exact Call.frames_throw
  | succ frames ih =>
    unfold visitNode
    refine (hreader.stat path).bind fun entry _ => ?_
    dsimp only
    split
    · refine (hreader.list entry.path).bind fun children _ => ?_
      exact Call.Frames.foldlM (fun output child _ => ih child.path (depth + 1) output) children trivial
    · exact Call.frames_pure trivial

theorem frames_walk [CommandRuntime] (hreader : ReadsOnly get reader) (root : SandboxPath)
    (maxDepth : Option Nat) : Call.Frames get (walk reader root maxDepth) fun _ => True :=
  frames_visitNode hreader maxDepth _ root 0 []

variable {request : CommandRequest} {context : CommandContext} {all : List Text}

/-- An early return with a quiet result. -/
theorem frames_return {α : Type} {protection : CommandValueProtection} {x : Call σ Raised CommandResult}
    (hx : Call.Frames get x (Undisclosing protection all)) :
    Call.Frames get (x >>= fun failure => (pure (.error failure) : Call σ Raised (Except CommandResult α)))
      fun r => ∀ failure, r = .error failure → Undisclosing protection all failure :=
  hx.bind fun _ hfailure => Call.frames_pure fun _ hb => Except.error.inj hb ▸ hfailure

theorem frames_readOperands (hreader : ReadsOnly get reader) (command : Text) {operands : List Text}
    (hall : operands ⊆ all) (output : List CommandInput) :
    Call.Frames get (readOperands command reader request context operands output)
      fun r => ∀ failure, r = .error failure → Undisclosing context.protection all failure := by
  induction operands generalizing output with
  | nil => exact Call.frames_pure fun _ hb => nomatch hb
  | cons operand rest ih =>
    obtain ⟨hoperand, hrest⟩ := List.cons_subset.mp hall
    rw [readOperands]
    split
    · exact ih hrest _
    · split
      · next hprotected => exact frames_return (undisclosing_protected command hoperand hprotected)
      · refine (frames_expecting (frames_readOperand hreader context.cwd operand)).bind fun r _ => ?_
        cases r with
        | error message => exact frames_return (undisclosing_failure command message [])
        | ok text => exact ih hrest _

/-- The commands that print what they compute from their inputs. -/
theorem frames_printInputs (hreader : ReadsOnly get reader) (command : Text) {operands : List Text}
    (hall : operands ⊆ all) (output : List CommandInput → Except PyError Text) :
    Call.Frames get (printInputs command reader operands request context output)
      (Undisclosing context.protection all) := by
  have hinputs : Call.Frames get (readInputs command reader operands request context)
      fun r => ∀ failure, r = .error failure → Undisclosing context.protection all failure := by
    unfold readInputs
    split
    · exact Call.frames_pure fun _ hb => nomatch hb
    · exact frames_readOperands hreader command hall []
  refine hinputs.bind fun r hr => ?_
  cases r with
  | error failure => exact Call.frames_pure (hr failure rfl)
  | ok inputs =>
    exact (frames_of_except fun _ _ => trivial).bind fun text (_ : True) => undisclosing_printed text

theorem frames_lsOperands (hreader : ReadsOnly get reader) (multiple : Bool) {operands : List Text}
    (hall : operands ⊆ all) (sections : List Text) :
    Call.Frames get (lsOperands reader context multiple operands sections)
      (Undisclosing context.protection all) := by
  induction operands generalizing sections with
  | nil => exact undisclosing_printed _
  | cons operand rest ih =>
    obtain ⟨hoperand, hrest⟩ := List.cons_subset.mp hall
    have hsection : Call.Frames get (lsSection reader context.cwd multiple operand) fun _ => True := by
      refine (hreader.resolvePath operand _).bind fun path _ => ?_
      refine (hreader.stat path).bind fun entry _ => ?_
      split
      · exact (hreader.list path).bind fun _ _ => Call.frames_pure trivial
      · exact Call.frames_pure trivial
    rw [lsOperands]
    split
    · next hprotected => exact undisclosing_protected _ hoperand hprotected
    · refine (frames_expecting hsection).bind fun r _ => ?_
      cases r with
      | error message => exact undisclosing_failure _ _ _
      | ok body => exact ih hrest _

theorem frames_catOperands (hreader : ReadsOnly get reader) {operands : List Text}
    (hall : operands ⊆ all) (output : Text) :
    Call.Frames get (catOperands reader request context operands output)
      (Undisclosing context.protection all) := by
  induction operands generalizing output with
  | nil => exact undisclosing_printed _
  | cons operand rest ih =>
    obtain ⟨hoperand, hrest⟩ := List.cons_subset.mp hall
    rw [catOperands]
    split
    · exact ih hrest _
    · split
      · next hprotected => exact undisclosing_protected _ hoperand hprotected
      · refine (frames_expecting (frames_readOperand hreader context.cwd operand)).bind fun r _ => ?_
        cases r with
        | error message => exact undisclosing_failure _ _ _
        | ok text => exact ih hrest _

theorem frames_grepTree (hreader : ReadsOnly get reader) (operand : Text) (root : SandboxPath)
    (nodes : List FoundNode) (sources : List GrepSource) :
    Call.Frames get (grepTree reader operand root nodes sources) fun _ => True := by
  induction nodes generalizing sources with
  | nil => exact Call.frames_pure trivial
  | cons node rest ih =>
    rw [grepTree]
    split
    · exact (hreader.readText node.path).bind fun result _ => ih _
    · exact ih _

theorem frames_grepSources [CommandRuntime] (hreader : ReadsOnly get reader) (recursive : Bool)
    {operands : List Text} (hall : operands ⊆ all) (sources : List GrepSource) :
    Call.Frames get (grepSources reader recursive request context operands sources)
      fun r => ∀ failure, r = .error failure → Undisclosing context.protection all failure := by
  induction operands generalizing sources with
  | nil => exact Call.frames_pure fun _ hb => nomatch hb
  | cons operand rest ih =>
    obtain ⟨hoperand, hrest⟩ := List.cons_subset.mp hall
    rw [grepSources]
    split
    · exact ih hrest _
    · split
      · next hprotected => exact frames_return (undisclosing_protected _ hoperand hprotected)
      · refine (hreader.resolvePath operand _).bind fun root _ => ?_
        refine (hreader.stat root).bind fun entry _ => ?_
        split
        · split
          · refine (frames_walk hreader root none).bind fun found _ => ?_
            exact (frames_grepTree hreader operand root found sources).bind fun _ _ => ih hrest _
          · exact frames_return (undisclosing_failure _ _ _)
        · exact (hreader.readText root).bind fun result _ => ih hrest _

theorem frames_grepSearch [CommandRuntime] (hreader : ReadsOnly get reader) (options : GrepOptions)
    (search : Text → Except PyError Bool) {arguments : List Text}
    (hargs : arguments ⊆ request.argv.tail) :
    Call.Frames get (grepSearch reader options search arguments request context)
      (Undisclosing context.protection (candidateOperands request)) := by
  have hsources : ∀ operands : List Text,
      operands = (if arguments = [] then (if options.recursive then [py "."] else [py "-"])
        else arguments) →
      Call.Frames get (grepSources reader options.recursive request context operands [])
        fun r => ∀ failure, r = .error failure →
          Undisclosing context.protection (candidateOperands request) failure := by
    rintro operands rfl
    split
    · split
      · exact frames_grepSources hreader _ (List.cons_subset.mpr ⟨List.mem_cons_self, List.nil_subset _⟩) []
      · -- the standard input is no operand
        rw [grepSources, if_pos rfl]
        exact frames_grepSources hreader _ (List.nil_subset _) _
    · exact frames_grepSources hreader _ (List.Subset.trans hargs (List.subset_cons_self _ _)) []
  refine (frames_expecting (hsources _ rfl)).bind fun r hr => ?_
  cases r with
  | error message => exact undisclosing_failure _ _ _
  | ok r =>
    cases r with
    | error failure => exact Call.frames_pure (hr _ rfl failure rfl)
    | ok sources =>
      refine (frames_of_except fun _ _ => trivial).bind fun found (_ : True) => ?_
      dsimp only
      split
      · exact undisclosing_printed _
      · exact undisclosing_new fun code hcode => .inl (by simp_all [readingFailures])

theorem frames_lsCommand (hreader : ReadsOnly get reader) :
    Call.Frames get ((lsCommand reader).execute request context)
      (Undisclosing context.protection (candidateOperands request)) := by
  refine undisclosing_rejectStdin ?_
  split
  · exact undisclosing_invalid _ _
  · next options operands hscan =>
    refine frames_lsOperands hreader _ ?_ []
    split
    · exact List.cons_subset.mpr ⟨List.mem_cons_self, List.nil_subset _⟩
    · exact List.Subset.trans (scanArguments_subset hscan) (List.subset_cons_self _ _)

theorem frames_catCommand (hreader : ReadsOnly get reader) :
    Call.Frames get ((catCommand reader).execute request context)
      (Undisclosing context.protection (candidateOperands request)) := by
  unfold catCommand
  dsimp only
  split
  · exact undisclosing_invalid _ _
  · next options operands hscan =>
    split
    · exact undisclosing_printed _
    · exact frames_catOperands hreader
        (List.Subset.trans (scanArguments_subset hscan) (List.subset_cons_self _ _)) []

theorem frames_limitedCommand [UnicodeData] [CommandRuntime] (hreader : ReadsOnly get reader)
    (command : Text) (fromEnd : Bool) :
    Call.Frames get (limitedCommand command fromEnd reader request context)
      (Undisclosing context.protection (candidateOperands request)) := by
  unfold limitedCommand
  split
  · exact undisclosing_invalid _ _
  · next count operands hparse =>
    exact frames_printInputs hreader _
      (List.Subset.trans (parseCount_subset hparse) (List.subset_cons_self _ _)) _

theorem frames_grepCommand [CommandRuntime] (hreader : ReadsOnly get reader) :
    Call.Frames get ((grepCommand reader).execute request context)
      (Undisclosing context.protection (candidateOperands request)) := by
  unfold grepCommand
  dsimp only
  split
  · exact undisclosing_invalid _ _
  · exact undisclosing_invalid _ _
  · next options pattern arguments hoptions =>
    have hargs : arguments ⊆ request.argv.tail :=
      List.Subset.trans (List.subset_cons_self _ _) (grepOptions_subset hoptions)
    split
    · exact undisclosing_invalid _ _
    · exact Call.frames_throw
    · next search _ => exact frames_grepSearch hreader options search hargs

theorem frames_findCommand [UnicodeData] [CommandRuntime] (hreader : ReadsOnly get reader) :
    Call.Frames get ((findCommand reader).execute request context)
      (Undisclosing context.protection (candidateOperands request)) := by
  refine undisclosing_rejectStdin ?_
  unfold findBelow
  split
  · exact undisclosing_invalid _ _
  · next options _ =>
    split
    · next hprotected =>
      exact undisclosing_protected _ (findOperand_mem request.argv.tail) hprotected
    · refine (frames_expecting (?_ : Call.Frames get _ fun _ => True)).bind fun r _ => ?_
      · refine (hreader.resolvePath _ _).bind fun root _ => ?_
        exact (frames_walk hreader root _).bind fun entries _ => Call.frames_pure trivial
      · cases r with
        | error message => exact undisclosing_failure _ _ _
        | ok found => exact undisclosing_printed _

theorem frames_wcCommand (hreader : ReadsOnly get reader) :
    Call.Frames get ((wcCommand reader).execute request context)
      (Undisclosing context.protection (candidateOperands request)) := by
  unfold wcCommand
  dsimp only
  split
  · exact undisclosing_invalid _ _
  · next options operands hscan =>
    exact frames_printInputs hreader _
      (List.Subset.trans (scanArguments_subset hscan) (List.subset_cons_self _ _)) _

theorem frames_sortCommand [UnicodeData] (hreader : ReadsOnly get reader) :
    Call.Frames get ((sortCommand reader).execute request context)
      (Undisclosing context.protection (candidateOperands request)) := by
  unfold sortCommand
  dsimp only
  split
  · exact undisclosing_invalid _ _
  · next options operands hscan =>
    exact frames_printInputs hreader _
      (List.Subset.trans (scanArguments_subset hscan) (List.subset_cons_self _ _)) _

theorem frames_uniqCommand (hreader : ReadsOnly get reader) :
    Call.Frames get ((uniqCommand reader).execute request context)
      (Undisclosing context.protection (candidateOperands request)) := by
  unfold uniqCommand
  dsimp only
  split
  · exact undisclosing_invalid _ _
  · have hargs := List.Subset.trans (dropWord_subset (py "--") (dropWord (py "-c") request.argv.tail))
      (dropWord_subset (py "-c") request.argv.tail)
    exact frames_printInputs hreader _ (List.Subset.trans hargs (List.subset_cons_self _ _)) _

theorem frames_envCommand :
    Call.Frames get ((envCommand : VirtualCommand σ).execute request context)
      (Undisclosing context.protection (candidateOperands request)) := by
  refine undisclosing_rejectStdin ?_
  split
  · exact (frames_of_except fun _ _ => trivial).bind fun items (_ : True) => undisclosing_printed _
  · exact undisclosing_invalid _ _

/-- A command of the profile that may be redirected, or stand in a pipeline,
    only reads. -/
theorem frames_readCommand [UnicodeData] [CommandRuntime] {mutator : CommandWorkspaceEditor σ}
    (hreader : ReadsOnly get reader) {command : VirtualCommand σ}
    (hmem : command ∈ createCommandProfile reader mutator)
    (hsafe : command.descriptor.pipelineSafe = true ∨
      command.descriptor.permitsStdoutRedirection = true) :
    Call.Frames get (command.execute request context)
      (Undisclosing context.protection (candidateOperands request)) := by
  simp only [createCommandProfile, createFirstWaveCommands, List.cons_append, List.nil_append,
    List.mem_cons, List.not_mem_nil, or_false] at hmem
  -- the eight that change something are neither
  rcases hmem with rfl | rfl | rfl | rfl | rfl | rfl | rfl | rfl | rfl | rfl | rfl | rfl | rfl | rfl |
    rfl | rfl | rfl | rfl | rfl | rfl
  · refine undisclosing_rejectStdin ?_
    split
    · exact undisclosing_invalid _ _
    · exact undisclosing_printed _
  · exact (hsafe.elim (nomatch ·) (nomatch ·))
  · exact frames_lsCommand hreader
  · exact frames_catCommand hreader
  · refine undisclosing_rejectStdin ?_
    split
    · exact undisclosing_printed _
    · exact undisclosing_printed _
  · exact (hsafe.elim (nomatch ·) (nomatch ·))
  · exact (hsafe.elim (nomatch ·) (nomatch ·))
  · exact (hsafe.elim (nomatch ·) (nomatch ·))
  · exact frames_limitedCommand hreader _ _
  · exact frames_limitedCommand hreader _ _
  · exact frames_grepCommand hreader
  · exact frames_findCommand hreader
  · exact frames_wcCommand hreader
  · exact frames_sortCommand hreader
  · exact frames_uniqCommand hreader
  · exact (hsafe.elim (nomatch ·) (nomatch ·))
  · exact (hsafe.elim (nomatch ·) (nomatch ·))
  · exact frames_envCommand
  · exact (hsafe.elim (nomatch ·) (nomatch ·))
  · exact (hsafe.elim (nomatch ·) (nomatch ·))

end Frames
