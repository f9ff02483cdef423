import MemSandbox.CommandExecutor.Executor

/-! # The admission of a unit

    `_prepare_unit` admits every stage of a unit, or fails the unit before any
    of its stages is dispatched.

    * **Section 1** what an admitted stage is;
    * **Section 2** the preparation admits exactly those, and its failures;
    * **Section 3** the handlers take no part in it. -/

open Python

namespace VirtualCommandExecutor

variable {σ : Type}

/-! ## Section 1: Admitted stages -/

section Admitted

variable [UnicodeLetters] (registry : CommandRegistry σ) (limits : CommandLimits)
  (protection : CommandValueProtection) (environment : CommandEnvironmentView)
  (cwd : SandboxPath) (destination : Option Text) (isPipeline : Bool)

/-- A stage passes every check, as the command and arguments that `prepared`
    holds. -/
structure AdmittedStage (first last : Bool) (stage : CommandStage) (prepared : PreparedStage σ) :
    Prop where
  expands : stage.words.mapM (fun word => expandWord word environment cwd) = .ok prepared.argv
  unprotected : prepared.argv.any protection.containsProtectedText = false
  sized : expandedArgumentError limits protection
    (prepared.argv ++ if last then destination.toList else []) = none
  found : ∃ name, commandName prepared.argv = .ok name ∧
    registry.resolve name = some prepared.command
  safe : isPipeline = true → prepared.command.descriptor.pipelineSafe = true
  stdin : first = false → prepared.command.descriptor.acceptsStdin = true

/-- Every stage is admitted; `first` tells whether they start the pipeline. -/
def AdmittedStages (first : Bool) : List CommandStage → List (PreparedStage σ) → Prop
  | [], prepared => prepared = []
  | stage :: rest, prepared => ∃ head tail, prepared = head :: tail ∧
    AdmittedStage registry limits protection environment cwd destination isPipeline first (rest = [])
      stage head ∧ AdmittedStages false rest tail

end Admitted

theorem AdmittedStages.spec [UnicodeLetters] {registry : CommandRegistry σ} {limits : CommandLimits}
    {protection : CommandValueProtection} {environment : CommandEnvironmentView} {cwd : SandboxPath}
    {destination : Option Text} {isPipeline first : Bool} {stages : List CommandStage}
    {prepared : List (PreparedStage σ)}
    (h : AdmittedStages registry limits protection environment cwd destination isPipeline first stages
      prepared) :
    prepared.length = stages.length ∧ ∀ p ∈ prepared, ∃ first last stage,
      AdmittedStage registry limits protection environment cwd destination isPipeline first last stage
        p := by
  induction stages generalizing first prepared with
  | nil =>
    cases h
    exact ⟨rfl, List.forall_mem_nil _⟩
  | cons stage rest ih =>
    obtain ⟨head, tail, rfl, hhead, htail⟩ := h
    obtain ⟨hlength, hall⟩ := ih htail
    exact ⟨congrArg Nat.succ hlength, List.forall_mem_cons.mpr ⟨⟨_, _, _, hhead⟩, hall⟩⟩

/-- Every stage of a unit is admitted, and the last one may be redirected if it
    is. -/
def UnitAdmitted [UnicodeLetters] (registry : CommandRegistry σ) (limits : CommandLimits)
    (protection : CommandValueProtection) (environment : CommandEnvironmentView)
    (cwd : SandboxPath) (item : PlanUnit) (destination : Option Text)
    (prepared : List (PreparedStage σ)) : Prop :=
  AdmittedStages registry limits protection environment cwd destination
      (decide (item.stages.length > 1)) true item.stages prepared ∧
    (item.redirection.isSome → ∀ last ∈ prepared.getLast?,
      last.command.descriptor.permitsStdoutRedirection = true)

/-- The failure of a preparation: no state transition, and a rejected value
    keeps the redirection from being written. -/
structure Rejection (redirectionAdmitted : Bool) (result : CommandResult) : Prop where
  cwd : result.resultingCwd = none
  changes : result.environmentChanges = []
  code : ∀ code ∈ result.failureCode, code = .invalidArgument ∨ code = .commandNotFound ∨
    code = .protectedValueRejected ∧ redirectionAdmitted = false

theorem rejection_of_failure {exitCode : Nat} {code : CommandFailureCode} {stderr : Text}
    {result : CommandResult} {admitted : Bool}
    (h : CommandResult.failure exitCode code stderr = .ok result)
    (hcode : code = .invalidArgument ∨ code = .commandNotFound ∨
      code = .protectedValueRejected ∧ admitted = false) : Rejection admitted result := by
  obtain ⟨-, hfailure, -, -, hcwd, hchanges⟩ := CommandResult.new_eq_ok h
  refine ⟨hcwd, hchanges, fun code' hmem => ?_⟩
  rw [hfailure, Option.mem_some] at hmem
  exact hmem ▸ hcode

/-! ## Section 2: The loop of the preparation -/

namespace Preparation

/-- The failure of a preparation, if any, is a rejection. -/
def Rejects (p : Preparation σ) : Prop :=
  ∀ failure ∈ p.firstFailure, Rejection p.redirectionAdmitted failure

/-- What a check leaves of a preparation: everything but the failure and the
    redirection, and both only if it fails. -/
structure Checked (p p' : Preparation σ) : Prop where
  prepared : p'.prepared = p.prepared
  finalCommand : p'.finalCommand = p.finalCommand
  rejects : p.Rejects → p'.Rejects
  earlier : p'.firstFailure = none → p.firstFailure = none

theorem Checked.refl (p : Preparation σ) : Checked p p := ⟨rfl, rfl, id, id⟩

theorem Checked.trans {p q r : Preparation σ} (hpq : Checked p q) (hqr : Checked q r) :
    Checked p r where
  prepared := hqr.prepared.trans hpq.prepared
  finalCommand := hqr.finalCommand.trans hpq.finalCommand
  rejects h := hqr.rejects (hpq.rejects h)
  earlier h := hpq.earlier (hqr.earlier h)

theorem checked_reject (p : Preparation σ) : Checked p p.reject where
  prepared := rfl
  finalCommand := rfl
  rejects h failure hfailure := by
    obtain ⟨hcwd, hchanges, hcode⟩ := h failure hfailure
    refine ⟨hcwd, hchanges, fun code hmem => ?_⟩
    rcases hcode code hmem with hinvalid | hmissing | ⟨hprotected, -⟩
    · exact .inl hinvalid
    · exact .inr (.inl hmissing)
    · exact .inr (.inr ⟨hprotected, rfl⟩)
  earlier := id

/-- A failed check fails the preparation. -/
theorem checked_fail {p p' : Preparation σ} {failure : Except PyError CommandResult}
    (h : p.fail failure = .ok p')
    (hfailure : ∀ result, failure = .ok result → Rejection p.redirectionAdmitted result) :
    Checked p p' ∧ p'.firstFailure ≠ none := by
  unfold fail at h
  split at h
  · next earlier hearlier =>
    cases h
    exact ⟨.refl p, by simp [hearlier]⟩
  · next hnone =>
    obtain ⟨result, hresult, h⟩ := Except.bind_eq_ok_iff.mp h
    cases h
    refine ⟨⟨rfl, rfl, fun _ failure hmem => ?_, fun _ => hnone⟩, fun hcontra => nomatch hcontra⟩
    cases Option.mem_some.mp hmem
    exact hfailure result hresult

theorem checked_failWhen {p p' : Preparation σ} {condition : Bool}
    {failure : Except PyError CommandResult} (h : p.failWhen condition failure = .ok p')
    (hfailure : ∀ result, failure = .ok result → Rejection false result) :
    Checked p p' ∧ (p'.firstFailure = none → condition = false) := by
  unfold failWhen at h
  split at h
  · obtain ⟨hchecked, hfailed⟩ := checked_fail h hfailure
    exact ⟨(checked_reject p).trans hchecked, fun hnone => absurd hnone hfailed⟩
  · next hcondition =>
    cases h
    exact ⟨.refl p, fun _ => Bool.eq_false_iff.mpr hcondition⟩

end Preparation

theorem rejection_protectedArgument {result : CommandResult} (h : protectedArgument = .ok result) :
    Rejection false result := rejection_of_failure h (.inr (.inr ⟨rfl, rfl⟩))

section Loop

variable [UnicodeLetters] {registry : CommandRegistry σ} {limits : CommandLimits}
  {protection : CommandValueProtection} {environment : CommandEnvironmentView}
  {cwd : SandboxPath} {destination : Option Text} {isPipeline : Bool}

/-- What the loop has found in `p'` after it was in `p`: an earlier failure
    stays, and without one the stages are admitted in their order. -/
structure Turned (p p' : Preparation σ) (admitted : List (PreparedStage σ) → Prop) : Prop where
  rejects : p.Rejects → p'.Rejects
  admitted : p'.firstFailure = none → p.firstFailure = none ∧ ∃ stages, admitted stages ∧
    p'.prepared = p.prepared ++ stages ∧
    ∀ last ∈ stages.getLast?, p'.finalCommand = some last.command

/-- A stage past the check for protected arguments. -/
theorem admitStage_turned {first : Bool} {stage : CommandStage} {rest : List CommandStage}
    {argv : List Text} {p p' : Preparation σ}
    (hargv : stage.words.mapM (fun word => expandWord word environment cwd) = .ok argv)
    (hprotected : argv.any protection.containsProtectedText = false)
    (h : admitStage registry limits protection destination isPipeline first (rest = []) argv p =
      .ok p') :
    (p.Rejects → p'.Rejects) ∧ (p'.firstFailure = none → p.firstFailure = none ∧ ∃ prepared,
      AdmittedStage registry limits protection environment cwd destination isPipeline first (rest = [])
        stage prepared ∧
      p'.prepared = p.prepared ++ [prepared] ∧
      (rest = [] → p'.finalCommand = some prepared.command)) := by
  obtain ⟨p₁, hsize, h⟩ := Except.bind_eq_ok_iff.mp h
  have hsized : p.Checked p₁ ∧ (p₁.firstFailure = none →
      expandedArgumentError limits protection
        (argv ++ if decide (rest = []) = true then destination.toList else []) = none) := by
    cases herror : expandedArgumentError limits protection
        (argv ++ if decide (rest = []) = true then destination.toList else []) with
    | none =>
      rw [herror] at hsize
      cases hsize
      exact ⟨.refl p, fun _ => rfl⟩
    | some message =>
      rw [herror] at hsize
      obtain ⟨name, -, hfail⟩ := Except.bind_eq_ok_iff.mp hsize
      obtain ⟨hchecked, hfailed⟩ := Preparation.checked_fail hfail fun result hresult =>
        rejection_of_failure hresult (.inl rfl)
      exact ⟨p.checked_reject.trans hchecked, fun hnone => absurd hnone hfailed⟩
  obtain ⟨hchecked, hsized⟩ := hsized
  obtain ⟨name, hname, h⟩ := Except.bind_eq_ok_iff.mp h
  cases hresolve : registry.resolve name with
  | none =>
    rw [hresolve] at h
    obtain ⟨hfail, hfailed⟩ := Preparation.checked_fail h fun result hresult =>
      rejection_of_failure hresult (.inr (.inl rfl))
    exact ⟨(hchecked.trans hfail).rejects, fun hnone => absurd hnone hfailed⟩
  | some command =>
    rw [hresolve] at h
    obtain ⟨p₂, hsafe, h⟩ := Except.bind_eq_ok_iff.mp h
    obtain ⟨p₃, hstdin, h⟩ := Except.bind_eq_ok_iff.mp h
    cases h
    obtain ⟨hchecked₂, hsafe⟩ := Preparation.checked_failWhen hsafe fun result hresult =>
      rejection_of_failure hresult (.inl rfl)
    obtain ⟨hchecked₃, hstdin⟩ := Preparation.checked_failWhen hstdin fun result hresult =>
      rejection_of_failure hresult (.inl rfl)
    have hlater := hchecked₂.trans hchecked₃
    have hprepared : p₃.prepared = p.prepared := by
      rw [hlater.prepared, ← hchecked.prepared]
      split <;> rfl
    refine ⟨fun hrejects => hlater.rejects ?_, fun hnone => ?_⟩
    · split
      · exact hchecked.rejects hrejects
      · exact hchecked.rejects hrejects
    · have hnone₂ : p₂.firstFailure = none := hchecked₃.earlier hnone
      have hnone₁ : p₁.firstFailure = none := by
        have := hchecked₂.earlier hnone₂
        split at this <;> exact this
      refine ⟨hchecked.earlier hnone₁, ⟨argv, command⟩, ?_, ?_, ?_⟩
      · exact {
          expands := hargv
          unprotected := hprotected
          sized := hsized hnone₁
          found := ⟨name, hname, hresolve⟩
          safe := fun hpipeline => by simpa [hpipeline] using hsafe hnone₂
          stdin := fun hfirst => by simpa [hfirst] using hstdin hnone }
      · show p₃.prepared ++ [_] = _
        rw [hprepared]
      · intro hlast
        show p₃.finalCommand = some command
        rw [hlater.finalCommand]
        simp [hlast]

/-- The loop of the preparation. -/
theorem prepareStages_turned {first : Bool} {stages : List CommandStage} {p p' : Preparation σ}
    (h : prepareStages registry limits protection environment cwd destination isPipeline first stages
      p = .ok p') :
    Turned p p' (AdmittedStages registry limits protection environment cwd destination isPipeline
      first stages) := by
  induction stages generalizing first p with
  | nil =>
    cases h
    exact ⟨id, fun hnone => ⟨hnone, [], rfl, (List.append_nil _).symm, fun _ hlast => nomatch hlast⟩⟩
  | cons stage rest ih =>
    obtain ⟨argv, hargv, h⟩ := Except.bind_eq_ok_iff.mp h
    obtain ⟨p₁, hturn, h⟩ := Except.bind_eq_ok_iff.mp h
    obtain ⟨hrejects, hadmitted⟩ := ih h
    -- the assignment of the last arguments concerns no check
    have hstart : ∀ q : Preparation σ, q = (if rest = [] then { p with finalArgv := argv } else p) →
        q.Rejects = p.Rejects ∧ q.firstFailure = p.firstFailure ∧ q.prepared = p.prepared := by
      rintro q rfl
      split <;> exact ⟨rfl, rfl, rfl⟩
    obtain ⟨hsame, hfailure, hprepared⟩ := hstart _ rfl
    by_cases hprotected : argv.any protection.containsProtectedText = true
    · rw [if_pos hprotected] at hturn
      obtain ⟨hchecked, hfailed⟩ := Preparation.checked_fail hturn fun result hresult =>
        rejection_protectedArgument hresult
      have hchecked := (Preparation.checked_reject _).trans hchecked
      exact ⟨fun hp => hrejects (hchecked.rejects (hsame ▸ hp)),
        fun hnone => absurd (hadmitted hnone).1 hfailed⟩
    · rw [if_neg hprotected] at hturn
      obtain ⟨hkeeps, hone⟩ := admitStage_turned hargv (Bool.eq_false_iff.mpr hprotected) hturn
      refine ⟨fun hp => hrejects (hkeeps (hsame ▸ hp)), fun hnone => ?_⟩
      obtain ⟨hnone₁, tail, htail, hmore, hfinal⟩ := hadmitted hnone
      obtain ⟨hnone₀, head, hhead, hprepared₁, hlast⟩ := hone hnone₁
      refine ⟨hfailure ▸ hnone₀, head :: tail, ⟨head, tail, rfl, hhead, htail⟩, ?_, ?_⟩
      · rw [hmore, hprepared₁, hprepared, List.append_assoc, List.singleton_append]
      · intro last hmem
        cases tail with
        | nil =>
          -- the stage was the last one, and nothing came after its turn
          have hrest : rest = [] := by
            cases rest with
            | nil => rfl
            | cons next more =>
              obtain ⟨_, _, hcontra, -⟩ := htail
              cases hcontra
          subst hrest
          cases h
          cases Option.mem_some.mp hmem
          exact hlast rfl
        | cons next more =>
          rw [List.getLast?_cons_cons] at hmem
          exact hfinal last hmem

end Loop

/-- A preparation without a failure has admitted the unit; a failure is a
    rejection. -/
theorem prepareUnit_spec [UnicodeLetters] {registry : CommandRegistry σ} {item : PlanUnit}
    {limits : CommandLimits} {environment : CommandEnvironmentView} {cwd : SandboxPath}
    {protection : CommandValueProtection} {prepared : PreparedUnit σ}
    (h : prepareUnit registry item limits environment cwd protection = .ok prepared) :
    (∀ failure ∈ prepared.failure, Rejection prepared.redirectionAdmitted failure) ∧
      (prepared.failure = none → UnitAdmitted registry limits protection environment cwd item
        prepared.destination prepared.stages) := by
  obtain ⟨destination, hdestination, h⟩ := Except.bind_eq_ok_iff.mp h
  obtain ⟨start, hstart, h⟩ := Except.bind_eq_ok_iff.mp h
  obtain ⟨p, hp, h⟩ := Except.bind_eq_ok_iff.mp h
  obtain ⟨hchecked, -⟩ := Preparation.checked_failWhen hstart fun result hresult =>
    rejection_protectedArgument hresult
  obtain ⟨hrejects, hadmitted⟩ := prepareStages_turned hp
  have hall : p.Rejects := hrejects (hchecked.rejects fun failure hmem => nomatch hmem)
  split at h
  · next hredirected =>
    obtain ⟨failure, hfailure, h⟩ := Except.bind_eq_ok_iff.mp h
    cases h
    refine ⟨fun failure' hmem => ?_, fun hnone => nomatch hnone⟩
    cases Option.mem_some.mp hmem
    cases hrejected : p.firstFailure.filter fun failure =>
        failure.failureCode = some .protectedValueRejected with
    | some rejected =>
      rw [hrejected] at hfailure
      cases hfailure
      obtain ⟨hmem, hcode⟩ := Option.filter_eq_some_iff.mp hrejected
      obtain ⟨hcwd, hchanges, -⟩ := hall failure hmem
      refine ⟨hcwd, hchanges, fun code hcode' => .inr (.inr ⟨?_, rfl⟩)⟩
      rw [of_decide_eq_true hcode, Option.mem_some] at hcode'
      exact hcode'.symm
    | none =>
      rw [hrejected] at hfailure
      obtain ⟨name, -, hresult⟩ := Except.bind_eq_ok_iff.mp hfailure
      exact rejection_of_failure hresult (.inl rfl)
  · next hpermitted =>
    cases h
    refine ⟨hall, fun hnone => ?_⟩
    obtain ⟨-, stages, hstages, hprepared, hfinal⟩ := hadmitted hnone
    have hsame : p.prepared = stages := by
      rw [hprepared, hchecked.prepared, List.nil_append]
    refine ⟨hsame.symm ▸ hstages, fun hredirected last hmem => ?_⟩
    rw [hsame] at hmem
    simpa [hfinal last hmem, hredirected] using hpermitted

/-- The destination of a prepared unit is the expanded word. -/
theorem prepareUnit_destination [UnicodeLetters] {registry : CommandRegistry σ} {item : PlanUnit}
    {limits : CommandLimits} {environment : CommandEnvironmentView} {cwd : SandboxPath}
    {protection : CommandValueProtection} {prepared : PreparedUnit σ}
    (h : prepareUnit registry item limits environment cwd protection = .ok prepared) :
    item.redirection.mapM (fun redirection => expandWord redirection.destination environment cwd) =
      .ok prepared.destination := by
  obtain ⟨destination, hdestination, h⟩ := Except.bind_eq_ok_iff.mp h
  obtain ⟨start, -, h⟩ := Except.bind_eq_ok_iff.mp h
  obtain ⟨p, -, h⟩ := Except.bind_eq_ok_iff.mp h
  split at h
  · obtain ⟨failure, -, h⟩ := Except.bind_eq_ok_iff.mp h
    cases h
    exact hdestination
  · cases h
    exact hdestination

/-! ## Section 3: Other handlers -/

/-- What the commands of a registry might execute instead. -/
abbrev Handlers (σ : Type) : Type :=
  VirtualCommand σ → CommandRequest → CommandContext → Call σ Raised CommandResult

end VirtualCommandExecutor

open VirtualCommandExecutor (Handlers)

variable {σ : Type}

/-- A command with another body. -/
def VirtualCommand.withHandler (handlers : Handlers σ) (command : VirtualCommand σ) :
    VirtualCommand σ := { command with execute := handlers command }

/-- The same descriptors with other bodies. -/
def CommandRegistry.withHandlers (handlers : Handlers σ) (registry : CommandRegistry σ) :
    CommandRegistry σ where
  commands := registry.commands.map (VirtualCommand.withHandler handlers)
  distinct := by
    rw [List.flatMap_map]
    exact registry.distinct

theorem CommandRegistry.resolve_withHandlers (handlers : Handlers σ) (registry : CommandRegistry σ)
    (name : Text) : (registry.withHandlers handlers).resolve name =
      (registry.resolve name).map (VirtualCommand.withHandler handlers) :=
  List.find?_map

/-- A prepared stage with the other body of its command. -/
def PreparedStage.withHandler (handlers : Handlers σ) (stage : PreparedStage σ) : PreparedStage σ :=
  { stage with command := stage.command.withHandler handlers }

/-- A prepared unit with the other bodies of its commands. -/
def PreparedUnit.withHandlers (handlers : Handlers σ) (unit : PreparedUnit σ) : PreparedUnit σ :=
  { unit with stages := unit.stages.map (PreparedStage.withHandler handlers) }

namespace VirtualCommandExecutor

/-- A preparation with the other bodies of its commands. -/
def Preparation.withHandlers (handlers : Handlers σ) (p : Preparation σ) : Preparation σ :=
  { p with
    prepared := p.prepared.map (PreparedStage.withHandler handlers)
    finalCommand := p.finalCommand.map (VirtualCommand.withHandler handlers) }

/-- A statement and its image continue with images. -/
theorem bind_map {ε α α' β β' : Type} (g : α → α') {g' : β → β'} {x : Except ε α}
    {x' : Except ε α'} {f : α → Except ε β} {f' : α' → Except ε β'} (hx : x' = x.map g)
    (h : ∀ a, f' (g a) = (f a).map g') : (x' >>= f') = (x >>= f).map g' := by
  subst hx
  cases x with
  | error e => rfl
  | ok a => exact h a

/-- A statement continues with an image. -/
theorem bind_same {ε α β β' : Type} {g' : β → β'} {x : Except ε α} {f : α → Except ε β}
    {f' : α → Except ε β'} (h : ∀ a, f' a = (f a).map g') : (x >>= f') = (x >>= f).map g' := by
  cases x with
  | error e => rfl
  | ok a => exact h a

variable (handlers : Handlers σ)

theorem fail_withHandlers (p : Preparation σ) (failure : Except PyError CommandResult) :
    (p.withHandlers handlers).fail failure =
      (p.fail failure).map (Preparation.withHandlers handlers) := by
  obtain ⟨prepared, firstFailure, finalCommand, finalArgv, redirectionAdmitted⟩ := p
  cases firstFailure with
  | some earlier => rfl
  | none => exact bind_same fun _ => rfl

theorem failWhen_withHandlers (p : Preparation σ) (condition : Bool)
    (failure : Except PyError CommandResult) :
    (p.withHandlers handlers).failWhen condition failure =
      (p.failWhen condition failure).map (Preparation.withHandlers handlers) := by
  unfold Preparation.failWhen
  cases condition with
  | false => rfl
  | true => exact fail_withHandlers handlers p.reject failure

section

variable [UnicodeLetters] (registry : CommandRegistry σ) (limits : CommandLimits)
  (protection : CommandValueProtection) (environment : CommandEnvironmentView)
  (cwd : SandboxPath) (destination : Option Text) (isPipeline : Bool)

omit [UnicodeLetters] in
theorem admitStage_withHandlers (first last : Bool) (argv : List Text) (p : Preparation σ) :
    admitStage (registry.withHandlers handlers) limits protection destination isPipeline first last
        argv (p.withHandlers handlers) =
      (admitStage registry limits protection destination isPipeline first last argv p).map
        (Preparation.withHandlers handlers) := by
  unfold admitStage
  refine bind_map (Preparation.withHandlers handlers) ?_ fun p => bind_same fun name => ?_
  · split
    · rfl
    · exact bind_same fun name => fail_withHandlers handlers p.reject _
  · rw [CommandRegistry.resolve_withHandlers]
    cases registry.resolve name with
    | none => exact fail_withHandlers handlers p _
    | some command =>
      have hfinal : (if last = true then
            { p.withHandlers handlers with finalCommand := some (command.withHandler handlers) }
          else p.withHandlers handlers) =
          (if last = true then { p with finalCommand := some command } else p).withHandlers handlers := by
        split <;> rfl
      refine bind_map (Preparation.withHandlers handlers) ?_ fun q =>
        bind_map (Preparation.withHandlers handlers) ?_ fun r => ?_
      · rw [hfinal]
        exact failWhen_withHandlers handlers _ _ _
      · exact failWhen_withHandlers handlers _ _ _
      · show (Except.ok _ : Except PyError (Preparation σ)) = Except.ok _
        unfold Preparation.withHandlers
        rw [List.map_append]
        rfl

theorem prepareStages_withHandlers (first : Bool) (stages : List CommandStage) (p : Preparation σ) :
    prepareStages (registry.withHandlers handlers) limits protection environment cwd destination
        isPipeline first stages (p.withHandlers handlers) =
      (prepareStages registry limits protection environment cwd destination isPipeline first stages
        p).map (Preparation.withHandlers handlers) := by
  induction stages generalizing first p with
  | nil => rfl
  | cons stage rest ih =>
    unfold prepareStages
    refine bind_same fun argv => bind_map (Preparation.withHandlers handlers) ?_ fun p => ih false p
    have hargv : (if rest = [] then { p.withHandlers handlers with finalArgv := argv }
          else p.withHandlers handlers) =
        (if rest = [] then { p with finalArgv := argv } else p).withHandlers handlers := by
      split <;> rfl
    rw [hargv]
    split
    · exact fail_withHandlers handlers (Preparation.reject _) _
    · exact admitStage_withHandlers handlers registry limits protection destination isPipeline _ _ argv _

end

/-- The preparation of a unit does not depend on what its commands execute. -/
theorem prepareUnit_withHandlers [UnicodeLetters] (registry : CommandRegistry σ) (item : PlanUnit)
    (limits : CommandLimits) (environment : CommandEnvironmentView) (cwd : SandboxPath)
    (protection : CommandValueProtection) :
    prepareUnit (registry.withHandlers handlers) item limits environment cwd protection =
      (prepareUnit registry item limits environment cwd protection).map
        (PreparedUnit.withHandlers handlers) := by
  unfold prepareUnit
  refine bind_same fun destination => bind_map (Preparation.withHandlers handlers) ?_ fun start =>
    bind_map (Preparation.withHandlers handlers) ?_ fun p => ?_
  · exact failWhen_withHandlers handlers ⟨[], none, none, [], true⟩ _ _
  · exact prepareStages_withHandlers handlers registry limits protection environment cwd destination
      _ true item.stages start
  · have hfinal : ((p.withHandlers handlers).finalCommand.any fun command =>
          !command.descriptor.permitsStdoutRedirection) =
        p.finalCommand.any fun command => !command.descriptor.permitsStdoutRedirection := by
      unfold Preparation.withHandlers
      cases p.finalCommand <;> rfl
    rw [hfinal]
    split
    · exact bind_same fun failure => rfl
    · rfl

end VirtualCommandExecutor
