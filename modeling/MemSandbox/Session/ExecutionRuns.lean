import MemSandbox.CommandExecutor.PlanRuns
import MemSandbox.Session.Execution

/-! # Leases and the execution state

    Every lease that the broker has returned is closed once the operation is
    over, the last one first and one after the other, and the session changes
    its working directory and its environment together, after all of that.

    * **Section 1** the histories;
    * **Section 2** the parts of the action;
    * **Section 3** the action and its runs;
    * **Section 4** what the session takes over from a plan. -/

open Python EventLoop

namespace SandboxSession

/-! ## Section 1: Histories -/

/-- The lease that was closed, and whether that succeeded. -/
abbrev Closing := Nat × Bool

/-- One lease after the other is closed. -/
def closings (closes : List Closing) : List ExecuteEvent :=
  closes.flatMap fun close => [.closing close.1, .closed close.1 close.2]

/-- The leases of the references, in the order of their acquisition. -/
def acquisitions (refs : List SecretRef) : List ExecuteEvent :=
  refs.mapIdx fun lease ref => .leased lease ref

/-- The events of leases. -/
def ExecuteEvent.isLease : ExecuteEvent → Bool
  | leased _ _ | closing _ | closed _ _ => true
  | _ => false

/-- A commit of the execution state. -/
def ExecuteEvent.isCommit : ExecuteEvent → Bool
  | committed _ _ => true
  | _ => false

/-- Nothing was committed. -/
def Uncommitted (history : List ExecuteEvent) : Prop := ∀ event ∈ history, event.isCommit = false

/-- The leases of `refs` were acquired, and then each was closed exactly once,
    the last one first; `closes` says how that ended. -/
structure Cleaned (refs : List SecretRef) (closes : List Closing) (history : List ExecuteEvent) :
    Prop where
  leases : closes.map Prod.fst = (List.range refs.length).reverse
  events : history.filter ExecuteEvent.isLease = acquisitions refs ++ closings closes

/-- What has to precede a commit of the execution state. -/
structure Committable (bindings : List SessionSecretEnvironmentBinding) (start : CommandEnvironment)
    (history : List ExecuteEvent) (cwd : SandboxPath) (environment : CommandEnvironment) : Prop where
  cleaned : ∃ closes, Cleaned (secretRefs bindings) closes history ∧ ∀ close ∈ closes, close.2 = true
  returned : ∃ result, .returned result ∈ history ∧ cwd = result.resultingCwd ∧
    applyEnvironmentChanges start result.environmentChanges = .ok environment
  read : .read ∈ history

/-- The execution state is the one at the start, or both parts of it have been
    replaced by one commit. -/
def Consistent (bindings : List SessionSecretEnvironmentBinding) (cwd : SandboxPath)
    (environment : CommandEnvironment) (u : ExecuteState) : Prop :=
  (Uncommitted u.history ∧ u.cwd = cwd ∧ u.environment = environment) ∨
  ∃ before after, u.history = before ++ .committed u.cwd u.environment :: after ∧
    Uncommitted (before ++ after) ∧
    Committable bindings environment before u.cwd u.environment

theorem closings_append {closes more : List Closing} :
    closings (closes ++ more) = closings closes ++ closings more := List.flatMap_append

theorem acquisitions_concat {refs : List SecretRef} {ref : SecretRef} :
    acquisitions (refs ++ [ref]) = acquisitions refs ++ [ExecuteEvent.leased refs.length ref] := by
  simp [acquisitions, List.mapIdx_concat]

theorem filter_acquisitions (refs : List SecretRef) :
    (acquisitions refs).filter ExecuteEvent.isLease = acquisitions refs := by
  rw [List.filter_eq_self]
  intro event hevent
  obtain ⟨i, h, rfl⟩ := List.mem_mapIdx.mp hevent
  rfl

theorem filter_closings (closes : List Closing) :
    (closings closes).filter ExecuteEvent.isLease = closings closes := by
  rw [List.filter_eq_self]
  intro event hevent
  obtain ⟨close, -, hmem⟩ := List.mem_flatMap.mp hevent
  rcases List.mem_cons.mp hmem with rfl | hmem
  · rfl
  · rw [List.mem_singleton.mp hmem]
    rfl

theorem uncommitted_acquisitions (refs : List SecretRef) : Uncommitted (acquisitions refs) := by
  intro event hevent
  obtain ⟨i, hi, rfl⟩ := List.mem_mapIdx.mp hevent
  rfl

theorem uncommitted_closings (closes : List Closing) : Uncommitted (closings closes) := by
  intro event hevent
  obtain ⟨close, -, hmem⟩ := List.mem_flatMap.mp hevent
  rcases List.mem_cons.mp hmem with rfl | hmem
  · rfl
  · rw [List.mem_singleton.mp hmem]
    rfl

theorem Uncommitted.append {history more : List ExecuteEvent} (h : Uncommitted history)
    (hmore : Uncommitted more) : Uncommitted (history ++ more) :=
  List.forall_mem_append.mpr ⟨h, hmore⟩

theorem uncommitted_singleton {event : ExecuteEvent} (h : event.isCommit = false) :
    Uncommitted [event] := by
  intro other hother
  rw [List.mem_singleton.mp hother]
  exact h

variable {bindings : List SessionSecretEnvironmentBinding} {cwd : SandboxPath}
  {environment : CommandEnvironment} {u u' : ExecuteState}

/-- More history, without a commit. -/
theorem Consistent.record (h : Consistent bindings cwd environment u)
    {event : ExecuteEvent} (hevent : event.isCommit = false)
    (hcwd : u'.cwd = u.cwd) (henvironment : u'.environment = u.environment)
    (hhistory : u'.history = u.history ++ [event]) : Consistent bindings cwd environment u' := by
  rcases h with ⟨hnone, hc, he⟩ | ⟨before, after, hsplit, hnone, hcommit⟩
  · refine .inl ⟨?_, by rw [hcwd, hc], by rw [henvironment, he]⟩
    rw [hhistory]
    exact hnone.append (uncommitted_singleton hevent)
  · refine .inr ⟨before, after ++ [event], ?_, ?_, ?_⟩
    · rw [hhistory, hsplit, hcwd, henvironment, List.append_assoc, List.cons_append]
    · rw [← List.append_assoc]
      exact hnone.append (uncommitted_singleton hevent)
    · rw [hcwd, henvironment]
      exact hcommit

/-- Whatever the collaborators do, they do not commit. -/
theorem Consistent.act (h : Consistent bindings cwd environment u) {job : ExecuteJob}
    {cancelling : Bool} {outcome : Except Raised (Option ExecuteResult)}
    (hact : job.act cancelling u outcome u') : Consistent bindings cwd environment u' := by
  cases job with
  | lease ref =>
    cases outcome with
    | error e => exact hact ▸ h
    | ok value =>
      obtain ⟨-, rfl⟩ := hact
      exact h.record rfl rfl rfl rfl
  | command =>
    cases outcome with
    | error e => exact hact ▸ h
    | ok value =>
      obtain ⟨result, -, rfl⟩ := hact
      exact h.record rfl rfl rfl rfl
  | stats =>
    cases outcome with
    | error e => exact hact ▸ h
    | ok value =>
      obtain ⟨-, rfl⟩ := hact
      exact h.record rfl rfl rfl rfl
  | close id =>
    cases outcome with
    | error e =>
      have hact : u' = u.record (.closed id false) := hact
      subst hact
      exact h.record rfl rfl rfl rfl
    | ok value =>
      obtain ⟨-, rfl⟩ := hact
      exact h.record rfl rfl rfl rfl

/-! ## Section 2: The parts of the action -/

open Coroutine (wp ends)

/-- The state of the operation and of its tasks. -/
abbrev ExecuteLoop := EventLoop ExecuteState ExecuteJob (Option ExecuteResult) Raised

/-- What every step of the operation keeps. -/
def Keeps (bindings : List SessionSecretEnvironmentBinding) (cwd : SandboxPath)
    (environment : CommandEnvironment) (s s' : ExecuteLoop) : Prop :=
  Consistent bindings cwd environment s.shared → Consistent bindings cwd environment s'.shared

theorem keeps_of_shared {s s' : ExecuteLoop} (h : s'.shared = s.shared) :
    Keeps bindings cwd environment s s' := by
  intro hconsistent
  rw [h]
  exact hconsistent

/-- Before the cleanup: the leases of `refs` have been acquired, and no task
    is left. -/
structure Holding (cwd : SandboxPath) (environment : CommandEnvironment) (refs : List SecretRef)
    (more : List ExecuteEvent) (s : ExecuteLoop) : Prop where
  allDone : AllDone s.tasks
  cwd_eq : s.shared.cwd = cwd
  environment_eq : s.shared.environment = environment
  leases_eq : s.shared.leases = List.range refs.length
  history_eq : s.shared.history = acquisitions refs ++ more

/-- The references whose leases were acquired, after one more call. -/
def leasedAfter (refs : List SecretRef) (ref : SecretRef) :
    Except Raised (Option ExecuteResult) → List SecretRef
  | .ok _ => refs ++ [ref]
  | .error _ => refs

/-- A call that acquires a lease has acquired it or not, also when it raises. -/
theorem Holding.lease {refs : List SecretRef} {ref : SecretRef} {s s' : ExecuteLoop}
    (h : Holding cwd environment refs [] s) {outcome : Except Raised (Option ExecuteResult)}
    {cancelling : Bool}
    (hended : TaskEnded ExecuteJob.act s.tasks (.lease ref) s.shared outcome cancelling s') :
    Holding cwd environment (leasedAfter refs ref outcome) [] s' := by
  cases hended with
  | intro hact =>
    cases outcome with
    | error e =>
      cases hact
      exact ⟨h.allDone.concat _ _, h.cwd_eq, h.environment_eq, h.leases_eq, h.history_eq⟩
    | ok value =>
      obtain ⟨-, rfl⟩ := hact
      refine ⟨h.allDone.concat _ _, h.cwd_eq, h.environment_eq, ?_, ?_⟩
      · show s.shared.leases ++ [s.shared.leases.length] = List.range (refs ++ [ref]).length
        rw [h.leases_eq, List.length_range, List.length_append, List.length_singleton,
          List.range_succ]
      · show s.shared.history ++ [ExecuteEvent.leased s.shared.leases.length ref] =
          acquisitions (refs ++ [ref]) ++ []
        rw [h.history_eq, h.leases_eq, List.length_range, List.append_nil, List.append_nil,
          acquisitions_concat]

theorem wp_acquireLeases {Q : Except Raised Unit → ExecuteLoop → Prop} {rest refs : List SecretRef}
    {s : ExecuteLoop} (hs : Holding cwd environment refs [] s)
    (hacquired : ∀ s', Holding cwd environment (refs ++ rest) [] s' → Q (.ok ()) s')
    (hraised : ∀ e refs' s', Holding cwd environment refs' [] s' → Q (.error e) s') :
    wp (Awaiting ExecuteJob.act) (Keeps bindings cwd environment) (acquireLeases rest) Q s := by
  induction rest generalizing refs s with
  | nil =>
    rw [List.append_nil] at hacquired
    exact hacquired s hs
  | cons ref rest ih =>
    rintro r v ⟨hr, rfl⟩
    refine ⟨keeps_of_shared rfl, ?_⟩
    rcases hr with rfl | rfl
    · apply wp_awaitCollaborator hs.allDone (fun _ _ => keeps_of_shared)
      · exact fun e => hraised e _ _ hs
      · intro value cancelling s' hended
        apply ih (hs.lease hended)
        rw [leasedAfter, List.append_assoc]
        exact hacquired
      · intro e s' hstopped
        obtain ⟨outcome, cancelling, hended, -⟩ := hstopped
        exact hraised e _ _ (hs.lease hended)
    · exact hraised _ _ _ hs

/-- The command has returned, or it has not. -/
def CommandEvents (more : List ExecuteEvent) : Prop := more = [] ∨ ∃ result, more = [.returned result]

theorem wp_runCommand {Q : Except Raised (Option ExecuteResult) → ExecuteLoop → Prop}
    {refs : List SecretRef} {s : ExecuteLoop} (hs : Holding cwd environment [] [] s)
    (hreturned : ∀ result s', Holding cwd environment refs [.returned result] s' →
      Q (.ok (some result)) s')
    (hraised : ∀ e refs' more s', CommandEvents more → Holding cwd environment refs' more s' →
      Q (.error e) s') :
    wp (Awaiting ExecuteJob.act) (Keeps bindings cwd environment) (runCommand refs) Q s := by
  apply wp_acquireLeases hs
  · intro s₁ hs₁
    rw [List.nil_append] at hs₁
    rintro r s₂ ⟨hr, rfl⟩
    refine ⟨keeps_of_shared rfl, ?_⟩
    rcases hr with rfl | ⟨e, rfl⟩
    · rintro r s₃ ⟨hr, rfl⟩
      refine ⟨keeps_of_shared rfl, ?_⟩
      rcases hr with rfl | rfl
      · -- the command itself, with all the leases
        have hended : ∀ outcome cancelling s', TaskEnded ExecuteJob.act s₃.tasks .command s₃.shared
            outcome cancelling s' → ∃ more, CommandEvents more ∧
              Holding cwd environment refs more s' ∧
              ∀ value, outcome = .ok value → ∃ result, value = some result ∧
                more = [.returned result] := by
          intro outcome cancelling s' hended
          cases hended with
          | intro hact =>
            cases outcome with
            | error e =>
              cases hact
              exact ⟨[], .inl rfl, ⟨hs₁.allDone.concat _ _, hs₁.cwd_eq, hs₁.environment_eq,
                hs₁.leases_eq, hs₁.history_eq⟩, nofun⟩
            | ok value =>
              obtain ⟨result, rfl, rfl⟩ := hact
              refine ⟨[.returned result], .inr ⟨result, rfl⟩, ⟨hs₁.allDone.concat _ _, hs₁.cwd_eq,
                hs₁.environment_eq, hs₁.leases_eq, ?_⟩, ?_⟩
              · show s₃.shared.history ++ [ExecuteEvent.returned result] = _
                rw [hs₁.history_eq, List.append_nil]
              · intro value hvalue
                exact ⟨result, (Except.ok.inj hvalue).symm, rfl⟩
        apply wp_awaitCollaborator hs₁.allDone (fun _ _ => keeps_of_shared)
        · exact fun e => hraised e _ _ _ (.inl rfl) hs₁
        · intro value cancelling s' h
          obtain ⟨more, -, hholding, hresult⟩ := hended _ _ _ h
          obtain ⟨result, rfl, rfl⟩ := hresult value rfl
          exact hreturned _ _ hholding
        · intro e s' hstopped
          obtain ⟨outcome, cancelling, h, -⟩ := hstopped
          obtain ⟨more, hmore, hholding, -⟩ := hended _ _ _ h
          exact hraised e _ _ _ hmore hholding
      · exact hraised _ _ _ _ (.inl rfl) hs₁
    · exact hraised _ _ _ _ (.inl rfl) hs₁
  · exact fun e refs' s' h => hraised e refs' [] s' (.inl rfl) h

/-- After closing: `closes` have been added to the history. -/
structure Closed (u : ExecuteState) (closes : List Closing) (s : ExecuteLoop) : Prop where
  allDone : AllDone s.tasks
  shared_eq : s.shared = { u with history := u.history ++ closings closes }

/-- One turn: while the task is at work it only takes note of interruptions,
    and it leaves once the task has ended. -/
theorem wp_closeRound {lease : Nat} {failed : Bool} {u : ExecuteState}
    {tasks : List (TaskState ExecuteJob (Option ExecuteResult) Raised)} (htasks : AllDone tasks)
    {Q : Except Raised (Option Raised ⊕ Bool × Option Raised) → ExecuteLoop → Prop}
    {interruption : Option Raised} {s : ExecuteLoop}
    (hs : Working ExecuteJob.act tasks (.close lease) u s)
    (hagain : ∀ interruption' s', Working ExecuteJob.act tasks (.close lease) u s' →
      Q (.ok (.inl interruption')) s')
    (hclosed : ∀ succeeded interruption' s', AllDone s'.tasks →
      s'.shared = u.record (.closed lease succeeded) →
      Q (.ok (.inr (failed || !succeeded, interruption'))) s') :
    wp (Awaiting ExecuteJob.act) (Keeps bindings cwd environment)
      (closeRound tasks.length failed interruption) Q s := by
  intro v hawait r v' hshield
  obtain ⟨hr, rfl⟩ := hshield
  have hv := hs.awaiting htasks hawait
  refine ⟨keeps_of_shared rfl, ?_⟩
  -- what a task that has ended left, whatever interrupted the wait for it
  have hend : ∀ outcome, v'.outcome tasks.length = some outcome → ∀ interruption',
      Q (.ok (.inr (failed || (match outcome with | .ok _ => false | .error _ => true),
        interruption'))) v' := by
    intro outcome houtcome interruption'
    cases hv with
    | running =>
      rw [outcome_last] at houtcome
      cases houtcome
    | ended hact =>
      rw [outcome_last] at houtcome
      obtain rfl := Option.some.inj houtcome
      rename_i cancelling outcome u'
      cases outcome with
      | ok value =>
        obtain ⟨-, rfl⟩ := hact
        exact hclosed true interruption' _ (htasks.concat _ _) rfl
      | error e =>
        have hact : u' = u.record (.closed lease false) := hact
        subst hact
        exact hclosed false interruption' _ (htasks.concat _ _) rfl
  have hinterrupted : wp (Awaiting ExecuteJob.act) (Keeps bindings cwd environment)
      (closeInterrupted tasks.length failed interruption) Q v' := by
    rintro r w ⟨rfl, rfl⟩
    refine ⟨keeps_of_shared rfl, ?_⟩
    cases houtcome : w.outcome tasks.length with
    | none => exact hagain _ _ hv
    | some outcome =>
      have hQ := hend outcome houtcome
      cases outcome with
      | ok value =>
        simp only [Bool.or_false] at hQ
        exact hQ _
      | error e =>
        simp only [Bool.or_true] at hQ
        cases e with
        | cancelledError => exact hQ _
        | error e => exact hQ _
        | exit => exact hQ _
  rcases hr with houtcome | rfl
  · have hQ := hend r houtcome
    cases r with
    | ok value =>
      simp only [Bool.or_false] at hQ
      exact hQ _
    | error e =>
      simp only [Bool.or_true] at hQ
      have hraised : ∀ e', wp (Awaiting ExecuteJob.act) (Keeps bindings cwd environment)
          (closeRaised tasks.length interruption e') Q v' := by
        rintro e' r w ⟨rfl, rfl⟩
        refine ⟨keeps_of_shared rfl, ?_⟩
        rw [houtcome]
        exact hQ _
      cases e with
      | cancelledError => exact hinterrupted
      | error e => exact hraised _
      | exit => exact hraised _
  · exact hinterrupted

/-- A lease is closed once, and its close has ended when the next one is begun. -/
theorem wp_closeLease {lease : Nat} {failed : Bool} {interruption : Option Raised}
    {Q : Except Raised (Bool × Option Raised) → ExecuteLoop → Prop} {s : ExecuteLoop}
    (hdone : AllDone s.tasks)
    (hclosed : ∀ succeeded interruption' s', Closed s.shared [(lease, succeeded)] s' →
      Q (.ok (failed || !succeeded, interruption')) s') :
    wp (Awaiting ExecuteJob.act) (Keeps bindings cwd environment)
      (closeLease lease failed interruption) Q s := by
  rintro r s₁ ⟨rfl, rfl⟩
  refine ⟨keeps_of_shared rfl, ?_⟩
  rintro r s₂ ⟨rfl, rfl⟩
  refine ⟨fun h => @Consistent.record _ _ _ _ _ h (.closing lease) rfl rfl rfl rfl, ?_⟩
  refine ⟨fun _ => Working ExecuteJob.act s.tasks (.close lease) (s.shared.record (.closing lease)),
    .running, ?_⟩
  intro interruption v hv
  apply wp_closeRound hdone hv
  · exact fun interruption' s' hworking => hworking
  · intro succeeded interruption' s' hdone' hshared
    apply hclosed succeeded interruption' s' ⟨hdone', ?_⟩
    rw [hshared]
    simp [ExecuteState.record, closings]

theorem wp_closeLeases {leases : List Nat} {failed : Bool} {interruption : Option Raised}
    {Q : Except Raised (Bool × Option Raised) → ExecuteLoop → Prop} {s : ExecuteLoop}
    (hdone : AllDone s.tasks)
    (hclosed : ∀ closes interruption' s', closes.map Prod.fst = leases → Closed s.shared closes s' →
      Q (.ok (failed || closes.any fun close => !close.2, interruption')) s') :
    wp (Awaiting ExecuteJob.act) (Keeps bindings cwd environment)
      (closeLeases leases failed interruption) Q s := by
  induction leases generalizing failed interruption s with
  | nil =>
    have hnone := hclosed [] interruption s rfl ⟨hdone, by simp [closings]⟩
    rw [List.any_nil, Bool.or_false] at hnone
    exact hnone
  | cons lease rest ih =>
    apply wp_closeLease hdone
    intro succeeded interruption' s₁ hfirst
    apply ih hfirst.allDone
    intro closes interruption'' s₂ hleases hrest
    have hQ := hclosed ((lease, succeeded) :: closes) interruption'' s₂ (by rw [List.map_cons, hleases])
      ⟨hrest.allDone, by
        rw [hrest.shared_eq, hfirst.shared_eq]
        simp [closings]⟩
    rw [List.any_cons, ← Bool.or_assoc] at hQ
    exact hQ

/-- Whether it raises or not, the cleanup closes every lease. -/
theorem wp_closeSecretLeases {leases : List Nat} {Q : Except Raised Bool → ExecuteLoop → Prop}
    {s : ExecuteLoop} (hdone : AllDone s.tasks)
    (hreturned : ∀ closes s', closes.map Prod.fst = leases.reverse → Closed s.shared closes s' →
      Q (.ok (closes.any fun close => !close.2)) s')
    (hraised : ∀ e closes s', closes.map Prod.fst = leases.reverse → Closed s.shared closes s' →
      Q (.error e) s') :
    wp (Awaiting ExecuteJob.act) (Keeps bindings cwd environment) (closeSecretLeases leases) Q s := by
  apply wp_closeLeases hdone
  intro closes interruption s' hleases hclosed
  cases interruption with
  | none =>
    have hQ := hreturned closes s' hleases hclosed
    rw [Bool.false_or]
    exact hQ
  | some e => exact hraised e closes s' hleases hclosed

theorem wp_raisePrimary {α : Type} {refs : List SecretRef} {primary : Raised}
    {Q : Except Raised α → ExecuteLoop → Prop} {s : ExecuteLoop} (hQ : ∀ e, Q (.error e) s) :
    wp (Awaiting ExecuteJob.act) (Keeps bindings cwd environment) (raisePrimary refs primary) Q s := by
  rintro r s' ⟨⟨b, rfl⟩, rfl⟩
  refine ⟨keeps_of_shared rfl, ?_⟩
  cases !refs.isEmpty && b with
  | true =>
    cases primary with
    | cancelledError => exact hQ _
    | error e => exact hQ _
    | exit => exact hQ _
  | false =>
    cases primary with
    | cancelledError => exact hQ _
    | exit => exact hQ _
    | error e =>
      show wp _ _ (if (refs.isEmpty || e.cls.isSandboxError) = true then _ else _) Q _
      by_cases hraise : (refs.isEmpty || e.cls.isSandboxError) = true
      · rw [if_pos hraise]
        exact hQ _
      · rw [if_neg hraise]
        exact hQ _

/-! ## Section 3: The action -/

/-- What the operation leaves when it is over: no task, and every lease that
    was acquired has been closed. -/
structure Finished (s : ExecuteLoop) : Prop where
  allDone : AllDone s.tasks
  cleaned : ∃ refs closes, Cleaned refs closes s.shared.history

theorem CommandEvents.filter_isLease {more : List ExecuteEvent} (h : CommandEvents more) :
    more.filter ExecuteEvent.isLease = [] := by
  rcases h with rfl | ⟨result, rfl⟩
  · rfl
  · rfl

theorem CommandEvents.uncommitted {more : List ExecuteEvent} (h : CommandEvents more) :
    Uncommitted more := by
  rcases h with rfl | ⟨result, rfl⟩
  · exact List.forall_mem_nil _
  · exact uncommitted_singleton rfl

/-- The history after the cleanup. -/
theorem Holding.cleaned {refs : List SecretRef} {more : List ExecuteEvent} {s s' : ExecuteLoop}
    (h : Holding cwd environment refs more s) (hmore : CommandEvents more) {closes : List Closing}
    (hleases : closes.map Prod.fst = s.shared.leases.reverse) (hclosed : Closed s.shared closes s') :
    Cleaned refs closes s'.shared.history where
  leases := by rw [hleases, h.leases_eq]
  events := by
    rw [hclosed.shared_eq]
    show (s.shared.history ++ closings closes).filter _ = _
    rw [h.history_eq, List.filter_append, List.filter_append, hmore.filter_isLease,
      filter_acquisitions, filter_closings, List.append_nil]

theorem Cleaned.concat {refs : List SecretRef} {closes : List Closing} {history : List ExecuteEvent}
    (h : Cleaned refs closes history) {event : ExecuteEvent} (hevent : event.isLease = false) :
    Cleaned refs closes (history ++ [event]) where
  leases := h.leases
  events := by
    rw [List.filter_append, List.filter_cons_of_neg (by rw [hevent]; exact Bool.false_ne_true),
      List.filter_nil, List.append_nil]
    exact h.events

/-- The end of the action, after a cleanup without failures. -/
theorem wp_commitResult {closes : List Closing} {result : ExecuteResult} {s : ExecuteLoop}
    (hdone : AllDone s.tasks) (henvironment : s.shared.environment = environment)
    (hcleaned : Cleaned (secretRefs bindings) closes s.shared.history)
    (hsucceeded : ∀ close ∈ closes, close.2 = true) (hreturned : .returned result ∈ s.shared.history)
    (huncommitted : Uncommitted s.shared.history) :
    wp (Awaiting ExecuteJob.act) (Keeps bindings cwd environment) (commitResult result)
      (fun _ s' => Finished s') s := by
  rintro r s₁ ⟨rfl, rfl⟩
  refine ⟨keeps_of_shared rfl, ?_⟩
  show ends _ _ ((applyEnvironmentChanges s.shared.environment _).mapError Raised.error) s
  rw [henvironment]
  cases happlied : applyEnvironmentChanges environment result.environmentChanges with
  | error e => exact ⟨hdone, _, _, hcleaned⟩
  | ok applied =>
    have hclosed : ∀ outcome cancelling s', TaskEnded ExecuteJob.act s.tasks .stats s.shared outcome
        cancelling s' → Finished s' := by
      intro outcome cancelling s' hended
      cases hended with
      | intro hact =>
        cases outcome with
        | error e =>
          cases hact
          exact ⟨hdone.concat _ _, _, _, hcleaned⟩
        | ok value =>
          obtain ⟨-, rfl⟩ := hact
          exact ⟨hdone.concat _ _, _, _, hcleaned.concat rfl⟩
    apply wp_awaitCollaborator hdone (fun _ _ => keeps_of_shared)
    · exact fun e => ⟨hdone, _, _, hcleaned⟩
    · intro value cancelling s' hended
      cases hended with
      | intro hact =>
        obtain ⟨-, rfl⟩ := hact
        rintro r s'' ⟨rfl, rfl⟩
        have hread : Cleaned (secretRefs bindings) closes
            (s.shared.history ++ [ExecuteEvent.read]) :=
          hcleaned.concat rfl
        refine ⟨fun _ => ?_, hdone.concat _ _, _, _, hread.concat rfl⟩
        refine .inr ⟨s.shared.history ++ [ExecuteEvent.read], [], rfl, ?_,
          ⟨closes, hread, hsucceeded⟩,
          ⟨result, List.mem_append_left _ hreturned, rfl, happlied⟩,
          List.mem_append_right _ List.mem_cons_self⟩
        rw [List.append_nil]
        exact huncommitted.append (uncommitted_singleton rfl)
    · intro e s' hstopped
      obtain ⟨outcome, cancelling, hended, -⟩ := hstopped
      exact hclosed _ _ _ hended

/-- After the first `try` statement: what was acquired is known, and the
    cleanup closes it. -/
theorem wp_finishExecute {outcome : Except Raised (Option ExecuteResult)} {refs : List SecretRef}
    {more : List ExecuteEvent} {s : ExecuteLoop} (hmore : CommandEvents more)
    (hs : Holding cwd environment refs more s)
    (hreturned : ∀ value, outcome = .ok value → ∃ result, value = some result ∧
      more = [.returned result] ∧ refs = secretRefs bindings) :
    wp (Awaiting ExecuteJob.act) (Keeps bindings cwd environment)
      (finishExecute (secretRefs bindings) outcome) (fun _ s' => Finished s') s := by
  rintro r s₁ ⟨rfl, rfl⟩
  refine ⟨keeps_of_shared rfl, ?_⟩
  apply wp_closeSecretLeases hs.allDone
  · intro closes s₂ hleases hclosed
    have hcleaned := hs.cleaned hmore hleases hclosed
    cases outcome with
    | error primary => exact wp_raisePrimary fun _ => ⟨hclosed.allDone, _, _, hcleaned⟩
    | ok value =>
      obtain ⟨result, rfl, rfl, rfl⟩ := hreturned value rfl
      cases hany : closes.any fun close => !close.2 with
      | true => exact ⟨hclosed.allDone, _, _, hcleaned⟩
      | false =>
        have hhistory : s₂.shared.history =
            acquisitions (secretRefs bindings) ++ [ExecuteEvent.returned result] ++
              closings closes := by
          rw [hclosed.shared_eq, ← hs.history_eq]
        apply wp_commitResult hclosed.allDone _ hcleaned
        · intro close hclose
          have := List.any_eq_false.mp hany close hclose
          simpa using this
        · rw [hhistory]
          exact List.mem_append_left _ (List.mem_append_right _ List.mem_cons_self)
        · rw [hhistory]
          exact ((uncommitted_acquisitions _).append (uncommitted_singleton rfl)).append
            (uncommitted_closings _)
        · rw [hclosed.shared_eq]
          exact hs.environment_eq
  · intro e closes s₂ hleases hclosed
    have hcleaned := hs.cleaned hmore hleases hclosed
    cases outcome with
    | error primary => exact wp_raisePrimary fun _ => ⟨hclosed.allDone, _, _, hcleaned⟩
    | ok value => exact wp_raisePrimary fun _ => ⟨hclosed.allDone, _, _, hcleaned⟩

theorem wp_executeAction {s : ExecuteLoop} (hs : Holding cwd environment [] [] s) :
    wp (Awaiting ExecuteJob.act) (Keeps bindings cwd environment)
      (executeAction (secretRefs bindings)) (fun _ s' => Finished s') s := by
  apply wp_runCommand hs
  · intro result s₁ hholding
    apply wp_finishExecute (.inr ⟨result, rfl⟩) hholding
    intro value hvalue
    exact ⟨result, (Except.ok.inj hvalue).symm, rfl, rfl⟩
  · intro e refs more s₁ hmore hholding
    exact wp_finishExecute hmore hholding nofun

theorem wp_executeOperation {s : ExecuteLoop} (hs : Holding cwd environment [] [] s) :
    wp (Awaiting ExecuteJob.act) (Keeps bindings cwd environment) (executeOperation bindings)
      (fun _ s' => Finished s') s := by
  intro v hawait r v' hbegin
  obtain ⟨hr, rfl⟩ := hbegin
  obtain rfl := hs.allDone.awaiting hawait
  refine ⟨keeps_of_shared rfl, ?_⟩
  rcases hr with rfl | ⟨e, rfl⟩
  · apply Coroutine.wp_mono (wp_executeAction hs)
    intro r s' hclosed
    cases r with
    | ok result => exact hclosed
    | error e => exact hclosed
  · refine ⟨hs.allDone, [], [], rfl, ?_⟩
    rw [hs.history_eq]
    rfl

open VirtualCommandExecutor (executePlan runUnit ReferenceScan Sees changesOf quietExecutor
  quietRequest quietUnit)

end SandboxSession
