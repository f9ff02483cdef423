import MemSandbox.CommandExecutor.Executor

/-! # What a run of a plan does

    The executor threads the working directory and the environment through
    its loop.  Here both are computed from the record of the units that were
    executed, and the loop is compared with the scan that consults only that
    record.

    * **Section 1** environments as functions, and the changes as updates;
    * **Section 2** the reference scan;
    * **Section 3** the executor's loop follows it;
    * **Section 4** nothing protected enters the execution state. -/

open Python

/-! ## Section 1: Environments -/

/-- The dictionary is one an environment can be made of. -/
structure IsEnvironment (current : List (Text × Text)) : Prop where
  uniqueKeys : Dict.UniqueKeys current
  name_syntax : ∀ item ∈ current, isEnvironmentName item.1 = true
  utf8 : ∀ item ∈ current, ValidUtf8 item.2

/-- The value of a variable, if it is set. -/
def CommandEnvironment.lookup (environment : CommandEnvironment) (name : Text) : Option Text :=
  Dict.get? name environment.items

/-- The variables come in the order of their names. -/
def CommandEnvironment.Ordered (environment : CommandEnvironment) : Prop :=
  environment.items.Pairwise fun a b => a.1 < b.1

/-- A change as an update of a function. -/
def assign (lookup : Text → Option Text) (change : EnvironmentChange) : Text → Option Text :=
  Function.update lookup change.name change.value

theorem CommandEnvironment.isEnvironment (environment : CommandEnvironment) :
    IsEnvironment environment.items where
  uniqueKeys := by
    show ((environment.values.map _).map Prod.fst).Nodup
    rw [List.map_map]
    exact environment.distinct
  name_syntax := List.forall_mem_map.mpr fun item _ => item.name_syntax
  utf8 := List.forall_mem_map.mpr fun item _ => item.utf8

theorem applyChange_isEnvironment {current : List (Text × Text)} (h : IsEnvironment current)
    (change : EnvironmentChange) : IsEnvironment (applyChange current change) := by
  unfold applyChange
  cases hvalue : change.value with
  | none =>
    have hsub := Dict.erase_sublist change.name current
    exact ⟨Dict.uniqueKeys_erase h.uniqueKeys _, fun item hitem => h.name_syntax _ (hsub.mem hitem),
      fun item hitem => h.utf8 _ (hsub.mem hitem)⟩
  | some value =>
    refine ⟨Dict.uniqueKeys_set h.uniqueKeys _ _, ?_, ?_⟩
    · intro item hitem
      rcases Dict.mem_set hitem with rfl | hitem
      · exact change.name_syntax
      · exact h.name_syntax _ hitem
    · intro item hitem
      rcases Dict.mem_set hitem with rfl | hitem
      · exact change.utf8 _ hvalue
      · exact h.utf8 _ hitem

theorem get?_applyChange {current : List (Text × Text)} (h : Dict.UniqueKeys current)
    (change : EnvironmentChange) (name : Text) :
    Dict.get? name (applyChange current change) =
      assign (fun name => Dict.get? name current) change name := by
  unfold applyChange assign
  rw [Function.update_apply]
  cases change.value with
  | none => exact Dict.get?_erase h _ _
  | some value => exact Dict.get?_set _ _ _ _

theorem foldl_applyChange {current : List (Text × Text)} (h : IsEnvironment current)
    (changes : List EnvironmentChange) :
    IsEnvironment (changes.foldl applyChange current) ∧
      (fun name => Dict.get? name (changes.foldl applyChange current)) =
        changes.foldl assign fun name => Dict.get? name current := by
  induction changes generalizing current with
  | nil => exact ⟨h, rfl⟩
  | cons change changes ih =>
    have hstep : (fun name => Dict.get? name (applyChange current change)) =
        assign (fun name => Dict.get? name current) change :=
      funext (get?_applyChange h.uniqueKeys change)
    obtain ⟨hfinal, hlookup⟩ := ih (applyChange_isEnvironment h change)
    rw [hstep] at hlookup
    exact ⟨hfinal, hlookup⟩

/-- Building the values of a list of items. -/
theorem mapM_newValue {items : List (Text × Text)}
    (hname : ∀ item ∈ items, isEnvironmentName item.1 = true)
    (hvalue : ∀ item ∈ items, ValidUtf8 item.2) :
    ∃ values, items.mapM (fun item => EnvironmentValue.new item.1 item.2) = .ok values ∧
      values.map (fun item => (item.name, item.value)) = items := by
  induction items with
  | nil => exact ⟨[], rfl, rfl⟩
  | cons item items ih =>
    obtain ⟨hn, hname⟩ := List.forall_mem_cons.mp hname
    obtain ⟨hv, hvalue⟩ := List.forall_mem_cons.mp hvalue
    obtain ⟨values, hvalues, hmap⟩ := ih hname hvalue
    refine ⟨⟨item.1, item.2, hn, hv⟩ :: values, ?_, by rw [List.map_cons, hmap]⟩
    have hnew : EnvironmentValue.new item.1 item.2 = .ok ⟨item.1, item.2, hn, hv⟩ :=
      EnvironmentValue.new_eq_ok.mpr ⟨rfl, rfl⟩
    rw [List.mapM_cons, hnew, hvalues]
    rfl

/-- The sorted items of a dictionary make an environment. -/
theorem CommandEnvironment.ofItems_returns {current : List (Text × Text)}
    (h : IsEnvironment current) :
    ∃ environment : CommandEnvironment, ofItems current = .ok environment ∧
      environment.Ordered ∧ environment.lookup = fun name => Dict.get? name current := by
  have hperm := sorted_perm Prod.fst current
  obtain ⟨values, hvalues, hmap⟩ := @mapM_newValue (sorted Prod.fst current)
    (fun item hitem => h.name_syntax _ (mem_sorted.mp hitem))
    (fun item hitem => h.utf8 _ (mem_sorted.mp hitem))
  have hkeys : (values.map EnvironmentValue.name).Nodup := by
    have hnames : values.map EnvironmentValue.name = (sorted Prod.fst current).map Prod.fst := by
      rw [← hmap, List.map_map]
      rfl
    rw [hnames]
    exact (hperm.map Prod.fst).nodup_iff.mpr h.uniqueKeys
  let environment : CommandEnvironment := ⟨values, hkeys⟩
  have hnew : CommandEnvironment.new values = .ok environment := new_eq_ok.mpr rfl
  have hitems : environment.items = sorted Prod.fst current := hmap
  refine ⟨environment, ?_, ?_, ?_⟩
  · unfold ofItems
    rw [hvalues]
    exact hnew
  · unfold Ordered
    rw [hitems]
    exact sorted_pairwise_lt h.uniqueKeys
  · funext name
    unfold lookup
    rw [hitems]
    exact (Dict.get?_perm h.uniqueKeys hperm.symm name).symm

/-- Two environments in the order of their names with the same variables are
    the same. -/
theorem CommandEnvironment.Ordered.eq_of_lookup {a b : CommandEnvironment} (ha : a.Ordered)
    (hb : b.Ordered) (h : a.lookup = b.lookup) : a = b := by
  have hmem : ∀ item, item ∈ a.items ↔ item ∈ b.items := by
    intro item
    obtain ⟨name, value⟩ := item
    rw [← Dict.get?_eq_some_iff a.isEnvironment.uniqueKeys,
      ← Dict.get?_eq_some_iff b.isEnvironment.uniqueKeys]
    exact iff_of_eq (congrArg (· = some value) (congrFun h name))
  have hnodup : ∀ e : CommandEnvironment, e.items.Nodup := fun e =>
    List.Nodup.of_map Prod.fst e.isEnvironment.uniqueKeys
  have hitems : a.items = b.items :=
    ((List.perm_ext_iff_of_nodup (hnodup a) (hnodup b)).mpr hmem).eq_of_pairwise
      (fun x y _ _ hxy hyx => absurd (lt_trans hxy hyx) (lt_irrefl _)) ha hb
  have hinj : Function.Injective fun item : EnvironmentValue => (item.name, item.value) := by
    intro x y hxy
    obtain ⟨hname, hvalue⟩ := Prod.mk.inj hxy
    exact EnvironmentValue.ext_fields hname hvalue
  have hvalues : a.values = b.values := List.map_injective_iff.mpr hinj hitems
  cases a
  cases b
  cases hvalues
  rfl

/-- `environment` is what the changes make of `start`: the same value when
    there are none, and otherwise the changed variables in order. -/
structure EnvironmentAfter (start : CommandEnvironment) (changes : List EnvironmentChange)
    (environment : CommandEnvironment) : Prop where
  lookup_eq : environment.lookup = changes.foldl assign start.lookup
  unchanged : changes = [] → environment = start
  ordered : changes ≠ [] → environment.Ordered

theorem EnvironmentAfter.start {start : CommandEnvironment} : EnvironmentAfter start [] start :=
  ⟨rfl, fun _ => rfl, fun h => absurd rfl h⟩

/-- The changes determine the environment. -/
theorem EnvironmentAfter.unique {start a b : CommandEnvironment} {changes : List EnvironmentChange}
    (ha : EnvironmentAfter start changes a) (hb : EnvironmentAfter start changes b) : a = b := by
  by_cases hchanges : changes = []
  · rw [ha.unchanged hchanges, hb.unchanged hchanges]
  · exact (ha.ordered hchanges).eq_of_lookup (hb.ordered hchanges) (ha.lookup_eq.trans hb.lookup_eq.symm)

namespace VirtualCommandExecutor

/-- `_apply_environment_changes` returns the updated variables in order. -/
theorem applyEnvironmentChanges_spec (environment : CommandEnvironment)
    (changes : List EnvironmentChange) :
    ∃ environment' : CommandEnvironment,
      applyEnvironmentChanges environment changes = .ok environment' ∧ environment'.Ordered ∧
        environment'.lookup = changes.foldl assign environment.lookup := by
  obtain ⟨hvalid, hlookup⟩ := foldl_applyChange environment.isEnvironment changes
  obtain ⟨environment', hok, hordered, heq⟩ := CommandEnvironment.ofItems_returns hvalid
  exact ⟨environment', hok, hordered, heq.trans hlookup⟩

theorem environmentAfter_append {start environment environment' : CommandEnvironment}
    {changes more : List EnvironmentChange} (h : EnvironmentAfter start changes environment)
    (hmore : more ≠ []) (hok : applyEnvironmentChanges environment more = .ok environment') :
    EnvironmentAfter start (changes ++ more) environment' := by
  obtain ⟨environment'', hok', hordered, hlookup⟩ := applyEnvironmentChanges_spec environment more
  cases hok.symm.trans hok'
  refine ⟨?_, fun hnil => absurd (List.append_eq_nil_iff.mp hnil).2 hmore, fun _ => hordered⟩
  rw [hlookup, h.lookup_eq, List.foldl_append]

/-! ## Section 2: The reference scan -/

/-- One executed unit and what came of it. -/
structure UnitRun where
  item : PlanUnit
  outcome : UnitOutcome

/-- The unit exited with zero. -/
def UnitRun.Succeeded (run : UnitRun) : Prop := run.outcome.stage.exitCode = 0

instance (run : UnitRun) : Decidable run.Succeeded := inferInstanceAs (Decidable (_ = _))

/-- The last executed unit exited with zero, or there is none. -/
def LastSucceeded (journal : List UnitRun) : Prop := ∀ run ∈ journal.getLast?, run.Succeeded

/-- The changes of the units that exited with zero, in order. -/
def changesOf (journal : List UnitRun) : List EnvironmentChange :=
  (journal.filter fun run => run.Succeeded).flatMap fun run => run.outcome.stage.environmentChanges

/-- The last directory that a unit that exited with zero moved to. -/
def cwdAfter (start : SandboxPath) (journal : List UnitRun) : SandboxPath :=
  (journal.filter fun run => run.Succeeded).foldl
    (fun cwd run => run.outcome.stage.resultingCwd.getD cwd) start

/-- The directory and the environment of a unit that follows the executed
    ones. -/
structure Sees (request : ExecuteRequest) (journal : List UnitRun) (cwd : SandboxPath)
    (environment : CommandEnvironment) : Prop where
  cwd_eq : cwd = cwdAfter request.cwd journal
  environment_after : EnvironmentAfter request.environment (changesOf journal) environment

/-- The scan of the units from the left, with what `run` makes of a unit in a
    directory and an environment: a unit after `;` is executed, a unit after
    `&&` if and only if the last executed one exited with zero. -/
inductive ReferenceScan {σ : Type} (request : ExecuteRequest)
    (run : PlanUnit → SandboxPath → CommandEnvironment → Call σ Raised UnitOutcome) :
    List PlanUnit → List UnitRun → σ → List UnitRun → σ → Prop where
  | done {journal : List UnitRun} {s : σ} : ReferenceScan request run [] journal s journal s
  | skipped {item : PlanUnit} {rest : List PlanUnit} {journal journal' : List UnitRun} {s s' : σ}
      (hconnector : item.connector = .onSuccess) (hlast : ¬ LastSucceeded journal)
      (hrest : ReferenceScan request run rest journal s journal' s') :
      ReferenceScan request run (item :: rest) journal s journal' s'
  | executed {item : PlanUnit} {rest : List PlanUnit} {journal journal' : List UnitRun}
      {cwd : SandboxPath} {environment : CommandEnvironment} {outcome : UnitOutcome}
      {s s₁ s' : σ} (hselected : item.connector = .always ∨ LastSucceeded journal)
      (hsees : Sees request journal cwd environment)
      (hrun : run item cwd environment s = (.ok outcome, s₁))
      (hrest : ReferenceScan request run rest (journal ++ [⟨item, outcome⟩]) s₁ journal' s') :
      ReferenceScan request run (item :: rest) journal s journal' s'

theorem lastSucceeded_append {journal : List UnitRun} {run : UnitRun} :
    LastSucceeded (journal ++ [run]) ↔ run.Succeeded := by
  simp [LastSucceeded]

theorem changesOf_append {journal : List UnitRun} {run : UnitRun} :
    changesOf (journal ++ [run]) =
      changesOf journal ++
        if run.Succeeded then run.outcome.stage.environmentChanges else [] := by
  unfold changesOf
  rw [List.filter_append, List.flatMap_append]
  by_cases h : run.Succeeded <;> simp [h]

theorem cwdAfter_append {start : SandboxPath} {journal : List UnitRun} {run : UnitRun} :
    cwdAfter start (journal ++ [run]) =
      if run.Succeeded then run.outcome.stage.resultingCwd.getD (cwdAfter start journal)
      else cwdAfter start journal := by
  unfold cwdAfter
  rw [List.filter_append, List.foldl_append]
  by_cases h : run.Succeeded <;> simp [h]

/-! ## Section 3: The loop -/

/-- The state of the loop is the one the record accounts for. -/
structure Records (request : ExecuteRequest) (journal : List UnitRun) (p : PlanState) : Prop where
  sees : Sees request journal p.cwd p.environment
  allChanges_eq : p.allChanges = changesOf journal
  lastExit_iff : p.lastExit = 0 ↔ LastSucceeded journal
  lastResult_eq : ∀ run ∈ journal.getLast?, p.lastResult = run.outcome.stage

theorem Records.initial (request : ExecuteRequest) : Records request [] (.initial request) where
  sees := ⟨rfl, .start⟩
  allChanges_eq := rfl
  lastExit_iff := Iff.intro (fun _ _ h => nomatch h) fun _ => rfl
  lastResult_eq _ h := nomatch h

/-- What recording an executed unit assigns. -/
theorem PlanState.record_eq_ok {p p' : PlanState} {outcome : UnitOutcome}
    (h : p.record outcome = .ok p') :
    p'.lastResult = outcome.stage ∧ p'.lastExit = outcome.stage.exitCode ∧
      p'.cwd = (if outcome.stage.exitCode = 0 then outcome.stage.resultingCwd.getD p.cwd
        else p.cwd) ∧
      p'.allChanges = (if outcome.stage.exitCode = 0 then
        p.allChanges ++ outcome.stage.environmentChanges else p.allChanges) ∧
      (if outcome.stage.exitCode = 0 ∧ outcome.stage.environmentChanges ≠ [] then
        applyEnvironmentChanges p.environment outcome.stage.environmentChanges = .ok p'.environment
      else p'.environment = p.environment) := by
  unfold PlanState.record at h
  obtain ⟨stdout, -, h⟩ := Except.bind_eq_ok_iff.mp h
  obtain ⟨stderr, -, h⟩ := Except.bind_eq_ok_iff.mp h
  by_cases hexit : outcome.stage.exitCode = 0
  · simp only [hexit, if_true, true_and] at h ⊢
    cases hchanges : outcome.stage.environmentChanges with
    | nil =>
      rw [hchanges] at h
      cases h
      simp
    | cons change changes =>
      rw [hchanges] at h
      obtain ⟨environment, henvironment, h⟩ := Except.bind_eq_ok_iff.mp h
      cases h
      simp [henvironment]
  · simp only [hexit, if_false, false_and] at h ⊢
    cases h
    simp

theorem Records.record {request : ExecuteRequest} {journal : List UnitRun} {p p' : PlanState}
    {item : PlanUnit} {outcome : UnitOutcome} (h : Records request journal p)
    (hrecord : p.record outcome = .ok p') :
    Records request (journal ++ [⟨item, outcome⟩]) p' := by
  obtain ⟨hlast, hexit, hcwd, hchanges, henvironment⟩ := PlanState.record_eq_ok hrecord
  have hsucceeded : UnitRun.Succeeded ⟨item, outcome⟩ ↔ outcome.stage.exitCode = 0 := Iff.rfl
  refine ⟨⟨?_, ?_⟩, ?_, ?_, ?_⟩
  · rw [hcwd, cwdAfter_append, h.sees.cwd_eq]
    exact if_congr hsucceeded.symm rfl rfl
  · rw [changesOf_append]
    by_cases hzero : outcome.stage.exitCode = 0
    · rw [if_pos (hsucceeded.mpr hzero)]
      by_cases hnil : outcome.stage.environmentChanges = []
      · rw [if_neg fun hand => hand.2 hnil] at henvironment
        rw [hnil, List.append_nil, henvironment]
        exact h.sees.environment_after
      · rw [if_pos ⟨hzero, hnil⟩] at henvironment
        exact environmentAfter_append h.sees.environment_after hnil henvironment
    · rw [if_neg fun hand => hzero hand.1] at henvironment
      rw [if_neg fun hs => hzero (hsucceeded.mp hs), List.append_nil, henvironment]
      exact h.sees.environment_after
  · rw [hchanges, changesOf_append, h.allChanges_eq]
    by_cases hzero : outcome.stage.exitCode = 0
    · rw [if_pos hzero, if_pos (hsucceeded.mpr hzero)]
    · rw [if_neg hzero, if_neg fun hs => hzero (hsucceeded.mp hs), List.append_nil]
  · rw [hexit, lastSucceeded_append]
    exact hsucceeded.symm
  · intro run hrun
    rw [List.getLast?_append, List.getLast?_singleton, Option.some_or, Option.mem_some_iff] at hrun
    rw [hlast, ← hrun]

section Loop

variable {σ : Type} [UnicodeLetters] (executor : VirtualCommandExecutor σ)
  (request : ExecuteRequest) (protection : CommandValueProtection) (deadline : ℚ)

omit [UnicodeLetters] in
theorem lift_eq_ok {α : Type} {x : Except PyError α} {s s' : σ} {a : α} :
    (lift x : Call σ Raised α) s = (.ok a, s') ↔ x = .ok a ∧ s' = s := by
  cases x with
  | ok b => simp [lift, Except.mapError, eq_comm]
  | error e => simp [lift, Except.mapError]

/-- The loop that returns is the scan, and its state accounts for the record. -/
theorem executeUnits_scan {units : List PlanUnit} {journal : List UnitRun} {p p' : PlanState}
    {s s' : σ} (hrecords : Records request journal p)
    (h : executeUnits executor request protection deadline units p s = (.ok p', s')) :
    ∃ journal', ReferenceScan request (runUnit executor request protection deadline) units journal s
        journal' s' ∧ Records request journal' p' := by
  induction units generalizing journal p s with
  | nil =>
    cases h
    exact ⟨journal, .done, hrecords⟩
  | cons item rest ih =>
    unfold executeUnits at h
    by_cases hskip : item.connector = .onSuccess ∧ p.lastExit ≠ 0
    · -- the unit is passed over, and nothing has happened
      rw [if_pos hskip] at h
      obtain ⟨journal', hscan, hrecords'⟩ := ih hrecords h
      exact ⟨journal', .skipped hskip.1 (fun hlast => hskip.2 (hrecords.lastExit_iff.mpr hlast))
        hscan, hrecords'⟩
    · rw [if_neg hskip] at h
      obtain ⟨outcome, s₁, hrun, h⟩ := Call.bind_eq_ok.mp h
      obtain ⟨p₁, s₂, hlift, hrest⟩ := Call.bind_eq_ok.mp h
      obtain ⟨hrecord, rfl⟩ := lift_eq_ok.mp hlift
      obtain ⟨journal', hscan, hrecords'⟩ := ih (hrecords.record hrecord) hrest
      have hselected : item.connector = .always ∨ LastSucceeded journal := by
        cases hconnector : item.connector with
        | always => exact .inl rfl
        | onSuccess =>
          refine .inr (hrecords.lastExit_iff.mp ?_)
          by_contra hne
          exact hskip ⟨hconnector, hne⟩
      exact ⟨journal', .executed hselected hrecords.sees hrun hscan, hrecords'⟩

/-- What a plan that returns reports about the execution state. -/
theorem executePlan_scan {units : List PlanUnit} {result : ExecuteResult} {s s' : σ}
    (h : executePlan executor request protection deadline units s = (.ok result, s')) :
    ∃ journal, ReferenceScan request (runUnit executor request protection deadline) units [] s
        journal s' ∧
      result.resultingCwd = cwdAfter request.cwd journal ∧
      result.environmentChanges = changesOf journal ∧
      ∃ environment, Sees request journal result.resultingCwd environment := by
  obtain ⟨p, s₁, hunits, hlift⟩ := Call.bind_eq_ok.mp h
  obtain ⟨hresult, rfl⟩ := lift_eq_ok.mp hlift
  obtain ⟨journal, hscan, hrecords⟩ :=
    executeUnits_scan executor request protection deadline (Records.initial request) hunits
  obtain ⟨_, -, hnew⟩ := Except.bind_eq_ok_iff.mp hresult
  obtain ⟨-, -, -, -, -, hcwd, hchanges⟩ := ExecuteResult.new_eq_ok hnew
  refine ⟨journal, hscan, ?_, ?_, p.environment, ?_⟩
  · rw [hcwd, hrecords.sees.cwd_eq]
  · rw [hchanges, hrecords.allChanges_eq]
  · rw [hcwd]
    exact hrecords.sees

end Loop

/-! ## Section 4: Protected values -/

/-- A change that assigns no overlay name and nothing protected. -/
structure CleanChange (protection : CommandValueProtection) (overlay : CommandEnvironmentOverlay)
    (change : EnvironmentChange) : Prop where
  name_clean : protection.containsProtectedText change.name = false
  not_overlay : ∀ entry ∈ overlay.entries, entry.name ≠ change.name
  value_clean : ∀ value ∈ change.value, protection.containsProtectedText value = false

/-- The state transition of a stage keeps nothing protected. -/
structure CleanStage (protection : CommandValueProtection) (overlay : CommandEnvironmentOverlay)
    (stage : CommandResult) : Prop where
  cwd_clean : ∀ cwd ∈ stage.resultingCwd, protection.containsProtectedText cwd.value = false
  changes_clean : ∀ change ∈ stage.environmentChanges, CleanChange protection overlay change

theorem isProtectedChange_eq_ok {protection : CommandValueProtection}
    {view : CommandEnvironmentView} {change : EnvironmentChange}
    (h : isProtectedChange protection view change = .ok false) :
    CleanChange protection view.overlay change := by
  have hname : requireEnvironmentName change.name = .ok () := require_eq_ok.mpr change.name_syntax
  unfold isProtectedChange CommandEnvironmentView.isOverlayName CommandEnvironmentOverlay.contains at h
  rw [hname] at h
  by_cases hprotected : protection.containsProtectedText change.name = true
  · rw [if_pos hprotected] at h
    cases h
  · rw [if_neg hprotected] at h
    cases hoverlay : view.overlay.entries.any fun entry => entry.name = change.name with
    | true =>
      simp only [bind, Except.bind, hoverlay, if_true] at h
      cases h
    | false =>
      simp only [bind, Except.bind, hoverlay] at h
      refine ⟨Bool.eq_false_iff.mpr hprotected, ?_, ?_⟩
      · intro entry hentry heq
        exact (List.any_eq_false.mp hoverlay) entry hentry (decide_eq_true heq)
      · intro value hvalue
        have hany := Except.ok.inj h
        rw [hvalue] at hany
        exact hany

theorem anyM_isProtectedChange {protection : CommandValueProtection}
    {view : CommandEnvironmentView} {changes : List EnvironmentChange}
    (h : changes.anyM (isProtectedChange protection view) = .ok false) :
    ∀ change ∈ changes, CleanChange protection view.overlay change := by
  induction changes with
  | nil => exact List.forall_mem_nil _
  | cons change changes ih =>
    obtain ⟨isProtected, hchange, hrest⟩ := Except.bind_eq_ok_iff.mp h
    cases isProtected with
    | true => cases hrest
    | false =>
      exact List.forall_mem_cons.mpr ⟨isProtectedChange_eq_ok hchange, ih hrest⟩

/-- A failure that rejects protected values changes nothing. -/
theorem cleanStage_of_failure {protection : CommandValueProtection}
    {overlay : CommandEnvironmentOverlay} {exitCode : Nat} {code : CommandFailureCode}
    {stderr : Text} {stage : CommandResult}
    (h : CommandResult.failure exitCode code stderr = .ok stage) :
    CleanStage protection overlay stage := by
  obtain ⟨-, -, -, -, hcwd, hchanges⟩ := CommandResult.new_eq_ok h
  constructor
  · intro cwd hmem
    rw [hcwd] at hmem
    cases hmem
  · rw [hchanges]
    exact List.forall_mem_nil _

/-- What is sanitized keeps nothing protected. -/
theorem sanitizeStage_clean {stage result : CommandResult} {name : Text}
    {protection : CommandValueProtection} {view : CommandEnvironmentView}
    (h : sanitizeStage stage name protection view = .ok result) :
    CleanStage protection view.overlay result := by
  unfold sanitizeStage at h
  by_cases hcwd : (stage.resultingCwd.any fun cwd =>
      protection.containsProtectedText cwd.value) = true
  · rw [if_pos hcwd] at h
    exact cleanStage_of_failure h
  · rw [if_neg hcwd] at h
    obtain ⟨isProtected, hany, hrest⟩ := Except.bind_eq_ok_iff.mp h
    cases isProtected with
    | true => exact cleanStage_of_failure hrest
    | false =>
      obtain ⟨-, -, -, -, hresulting, hchanges⟩ := CommandResult.new_eq_ok hrest
      constructor
      · intro cwd hmem
        rw [hresulting] at hmem
        rw [hmem] at hcwd
        exact Bool.eq_false_iff.mpr hcwd
      · rw [hchanges]
        exact anyM_isProtectedChange hany

section Clean

variable {σ : Type} [UnicodeLetters] (executor : VirtualCommandExecutor σ)
  (request : ExecuteRequest) (protection : CommandValueProtection) (deadline : ℚ)

/-- Whatever a unit ran, with or without a redirection, its stage is clean. -/
theorem runUnit_clean {item : PlanUnit} {cwd : SandboxPath} {environment : CommandEnvironment}
    {outcome : UnitOutcome} {s s' : σ}
    (h : runUnit executor request protection deadline item cwd environment s = (.ok outcome, s')) :
    CleanStage protection request.overlay outcome.stage := by
  unfold runUnit at h
  obtain ⟨_, _, -, h⟩ := Call.bind_eq_ok.mp h
  obtain ⟨prepared, _, -, h⟩ := Call.bind_eq_ok.mp h
  obtain ⟨_, _, -, h⟩ := Call.bind_eq_ok.mp h
  obtain ⟨stage, _, hlift, h⟩ := Call.bind_eq_ok.mp h
  have hstage := sanitizeStage_clean (lift_eq_ok.mp hlift).1
  obtain ⟨_, _, -, h⟩ := Call.bind_eq_ok.mp h
  cases hredirection : item.redirection with
  | none =>
    rw [hredirection] at h
    cases h
    exact hstage
  | some redirection =>
    rw [hredirection] at h
    by_cases hadmitted :
        prepared.redirectionAdmitted ∧ stage.failureCode ≠ some .pipelineLimitExceeded
    · simp only [if_pos hadmitted] at h
      obtain ⟨_, _, -, h⟩ := Call.bind_eq_ok.mp h
      obtain ⟨_, _, -, h⟩ := Call.bind_eq_ok.mp h
      obtain ⟨_, _, -, h⟩ := Call.bind_eq_ok.mp h
      obtain ⟨_, _, -, h⟩ := Call.bind_eq_ok.mp h
      obtain ⟨redirected, _, hlift', h⟩ := Call.bind_eq_ok.mp h
      have hredirected := sanitizeStage_clean (lift_eq_ok.mp hlift').1
      obtain ⟨_, _, -, h⟩ := Call.bind_eq_ok.mp h
      cases h
      exact hredirected
    · simp only [if_neg hadmitted] at h
      cases h
      exact hstage

/-- What the loop comes to from one point, as it scans the units. -/
inductive Arrives : List PlanUnit → PlanState → σ → List PlanUnit → PlanState → σ → Prop where
  | here {units : List PlanUnit} {p : PlanState} {s : σ} : Arrives units p s units p s
  | skipped {item : PlanUnit} {rest units : List PlanUnit} {p p' : PlanState} {s s' : σ}
      (hskip : item.connector = .onSuccess ∧ p.lastExit ≠ 0)
      (hrest : Arrives rest p s units p' s') : Arrives (item :: rest) p s units p' s'
  | executed {item : PlanUnit} {rest units : List PlanUnit} {p p₁ p' : PlanState}
      {outcome : UnitOutcome} {s s₁ s' : σ}
      (hselected : ¬ (item.connector = .onSuccess ∧ p.lastExit ≠ 0))
      (hrun : runUnit executor request protection deadline item p.cwd p.environment s =
        (.ok outcome, s₁))
      (hrecord : p.record outcome = .ok p₁) (hrest : Arrives rest p₁ s₁ units p' s') :
      Arrives (item :: rest) p s units p' s'

/-- The loop goes on from wherever it comes to, and ends as it does from there. -/
theorem executeUnits_arrives {units units' : List PlanUnit} {p p' : PlanState} {s s' : σ}
    (h : Arrives executor request protection deadline units p s units' p' s') :
    executeUnits executor request protection deadline units p s =
      executeUnits executor request protection deadline units' p' s' := by
  induction h with
  | here => rfl
  | skipped hskip _ ih =>
    conv_lhs => unfold executeUnits
    rw [if_pos hskip]
    exact ih
  | executed hselected hrun hrecord _ ih =>
    conv_lhs => unfold executeUnits
    rw [if_neg hselected, Call.bind_of_ok hrun, Call.bind_of_ok (lift_eq_ok.mpr ⟨hrecord, rfl⟩)]
    exact ih

/-- A loop that returns has come to its end. -/
theorem arrives_of_executeUnits {units : List PlanUnit} {p p' : PlanState} {s s' : σ}
    (h : executeUnits executor request protection deadline units p s = (.ok p', s')) :
    Arrives executor request protection deadline units p s [] p' s' := by
  induction units generalizing p s with
  | nil =>
    cases h
    exact .here
  | cons item rest ih =>
    unfold executeUnits at h
    by_cases hskip : item.connector = .onSuccess ∧ p.lastExit ≠ 0
    · rw [if_pos hskip] at h
      exact .skipped hskip (ih h)
    · rw [if_neg hskip] at h
      obtain ⟨outcome, s₁, hrun, h⟩ := Call.bind_eq_ok.mp h
      obtain ⟨p₁, s₂, hlift, hrest⟩ := Call.bind_eq_ok.mp h
      obtain ⟨hrecord, rfl⟩ := lift_eq_ok.mp hlift
      exact .executed hskip hrun hrecord (ih hrest)

/-- The execution state holds nothing protected beyond what the request gave. -/
structure CleanState (request : ExecuteRequest) (protection : CommandValueProtection)
    (p : PlanState) : Prop where
  cwd_clean : p.cwd = request.cwd ∨ protection.containsProtectedText p.cwd.value = false
  changes_clean : ∀ change ∈ p.allChanges, CleanChange protection request.overlay change
  environment_after : EnvironmentAfter request.environment p.allChanges p.environment

omit [UnicodeLetters] in
theorem CleanState.record {p p' : PlanState} {outcome : UnitOutcome}
    (h : CleanState request protection p) (hstage : CleanStage protection request.overlay outcome.stage)
    (hrecord : p.record outcome = .ok p') : CleanState request protection p' := by
  obtain ⟨-, -, hcwd, hchanges, henvironment⟩ := PlanState.record_eq_ok hrecord
  by_cases hzero : outcome.stage.exitCode = 0
  · rw [if_pos hzero] at hcwd hchanges
    refine ⟨?_, ?_, ?_⟩
    · rw [hcwd]
      cases hresulting : outcome.stage.resultingCwd with
      | none => exact h.cwd_clean
      | some cwd => exact .inr (hstage.cwd_clean cwd hresulting)
    · rw [hchanges]
      exact List.forall_mem_append.mpr ⟨h.changes_clean, hstage.changes_clean⟩
    · rw [hchanges]
      by_cases hnil : outcome.stage.environmentChanges = []
      · rw [if_neg fun hand => hand.2 hnil] at henvironment
        rw [hnil, List.append_nil, henvironment]
        exact h.environment_after
      · rw [if_pos ⟨hzero, hnil⟩] at henvironment
        exact environmentAfter_append h.environment_after hnil henvironment
  · rw [if_neg hzero] at hcwd hchanges
    rw [if_neg fun hand => hzero hand.1] at henvironment
    refine ⟨?_, ?_, ?_⟩
    · rw [hcwd]
      exact h.cwd_clean
    · rw [hchanges]
      exact h.changes_clean
    · rw [hchanges, henvironment]
      exact h.environment_after

theorem CleanState.arrives {units units' : List PlanUnit} {p p' : PlanState} {s s' : σ}
    (h : CleanState request protection p)
    (harrives : Arrives executor request protection deadline units p s units' p' s') :
    CleanState request protection p' := by
  induction harrives with
  | here => exact h
  | skipped _ _ ih => exact ih h
  | executed _ hrun hrecord _ ih =>
    exact ih (h.record request protection (runUnit_clean executor request protection deadline hrun)
      hrecord)

/-- Every variable is one of the request's, or clean in name and value. -/
def CleanEnvironment (environment : CommandEnvironment) : Prop :=
  ∀ name value, environment.lookup name = some value →
    request.environment.lookup name = some value ∨
    (protection.containsProtectedText name = false ∧
      (∀ entry ∈ request.overlay.entries, entry.name ≠ name) ∧
      protection.containsProtectedText value = false)

omit [UnicodeLetters] in
theorem cleanEnvironment_of_changes {changes : List EnvironmentChange}
    (hchanges : ∀ change ∈ changes, CleanChange protection request.overlay change)
    {environment : CommandEnvironment}
    (h : EnvironmentAfter request.environment changes environment) :
    CleanEnvironment request protection environment := by
  intro name value hlookup
  rw [h.lookup_eq] at hlookup
  clear h
  -- the last change of the variable decides its value
  induction changes using List.reverseRecOn with
  | nil => exact .inl hlookup
  | append_singleton changes change ih =>
    rw [List.foldl_append, List.foldl_cons, List.foldl_nil, assign, Function.update_apply] at hlookup
    have hinit : ∀ c ∈ changes, CleanChange protection request.overlay c :=
      fun c hc => hchanges c (List.mem_append_left _ hc)
    have hlast := hchanges change (List.mem_append_right _ List.mem_cons_self)
    split at hlookup
    · next hname =>
      subst hname
      exact .inr ⟨hlast.name_clean, hlast.not_overlay, hlast.value_clean value hlookup⟩
    · exact ih hinit hlookup

/-- However the run of a plan goes on, the directory and the environment of
    each later unit hold nothing protected beyond what the request gave; nor
    does what a plan that returns reports. -/
theorem executePlan_protected (units : List PlanUnit) (s : σ) :
    (∀ item rest p s₁,
      Arrives executor request protection deadline units (.initial request) s (item :: rest) p s₁ →
        (p.cwd = request.cwd ∨ protection.containsProtectedText p.cwd.value = false) ∧
        CleanEnvironment request protection p.environment) ∧
    ∀ result s', executePlan executor request protection deadline units s = (.ok result, s') →
      (result.resultingCwd = request.cwd ∨
        protection.containsProtectedText result.resultingCwd.value = false) ∧
      ∀ change ∈ result.environmentChanges,
        (∀ entry ∈ request.overlay.entries, entry.name ≠ change.name) ∧
        protection.containsProtectedText change.name = false ∧
        ∀ value ∈ change.value, protection.containsProtectedText value = false := by
  have hinitial : CleanState request protection (.initial request) :=
    ⟨.inl rfl, List.forall_mem_nil _, .start⟩
  constructor
  · intro item rest p s₁ harrives
    have hclean := hinitial.arrives executor request protection deadline harrives
    exact ⟨hclean.cwd_clean,
      cleanEnvironment_of_changes request protection hclean.changes_clean hclean.environment_after⟩
  · intro result s' h
    obtain ⟨p, s₁, hunits, hlift⟩ := Call.bind_eq_ok.mp h
    obtain ⟨hresult, rfl⟩ := lift_eq_ok.mp hlift
    have hclean := hinitial.arrives executor request protection deadline
      (arrives_of_executeUnits executor request protection deadline hunits)
    obtain ⟨_, -, hnew⟩ := Except.bind_eq_ok_iff.mp hresult
    obtain ⟨-, -, -, -, -, hcwd, hchanges⟩ := ExecuteResult.new_eq_ok hnew
    rw [hcwd, hchanges]
    refine ⟨hclean.cwd_clean, fun change hchange => ?_⟩
    have hchange := hclean.changes_clean change hchange
    exact ⟨hchange.not_overlay, hchange.name_clean, hchange.value_clean⟩

end Clean

/-! ## Section 5: A command that does nothing -/

/-- A command without output that succeeds. -/
def quietCommand : VirtualCommand Unit where
  descriptor := ⟨py "a", [], true, false, false, by decide, List.forall_mem_nil _, by simp⟩
  execute _ _ := pure .success

/-- An executor with this command, under a clock that stands still. -/
def quietExecutor : VirtualCommandExecutor Unit where
  registry := ⟨[quietCommand], by simp [VirtualCommand.names, quietCommand]⟩
  redirectionMutator := ⟨fun _ _ => throw .exit, fun _ => throw .exit, fun _ => throw .exit⟩
  runtime := ⟨pure 0, pure false, pure false, pure false, pure 0⟩

/-- Variables that are not in the order of their names. -/
def unorderedEnvironment : CommandEnvironment where
  values := [⟨py "B", [], by decide, rfl⟩, ⟨py "A", [], by decide, rfl⟩]
  distinct := by decide

def quietRequest : ExecuteRequest :=
  ⟨py "a", SandboxPath.root, unorderedEnvironment, .default, .empty, Nat.zero_le _⟩

def quietUnit : PlanUnit where
  connector := .always
  stages := [⟨[⟨[⟨py "a", false⟩]⟩], List.cons_ne_nil _ _⟩]
  redirection := none
  nonempty := List.cons_ne_nil _ _

theorem executePlan_protected_quiet :
    ∃ result, @executePlan Unit asciiLetters quietExecutor quietRequest .noOp 1 [quietUnit] () =
        (.ok result, ()) ∧
      ∀ change ∈ result.environmentChanges,
        CommandValueProtection.noOp.containsProtectedText change.name = false := by
  let : UnicodeLetters := asciiLetters
  refine ⟨_, rfl, ?_⟩
  intro change hchange
  have hclean := (executePlan_protected quietExecutor quietRequest .noOp 1 [quietUnit] ()).2 _ () rfl
  exact (hclean.2 change hchange).2.1

end VirtualCommandExecutor
