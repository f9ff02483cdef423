import MemSandbox.Session.MutationRuns
import MemSandbox.Snapshots.RoundTrip

/-! # Restores

    What `restore_snapshot` and `restore_portable_archive` do while they hold
    the gate.  The task that publishes is watched, shielded and cancelled from
    three sides; still the workspace, the working directory and the environment
    are replaced together or not at all, and an error leaves them as they were,
    unless everything was replaced and only the report failed.

    * **Section 1** the publication, for any job;
    * **Section 2** candidates;
    * **Section 3** the collaborators of a restore;
    * **Section 4** its runs. -/

open Python EventLoop PortableWorkspaceArchiveCodec
open Coroutine (wp wp_bind wp_tryCatch ends)

namespace SandboxSession

variable {ι κ σ ν α : Type} {call : ι}

/-! ## Section 1: Publication -/

section Publication

variable {act : κ → Bool → σ → Except Raised ν → σ → Prop}
  {tasks : List (TaskState κ ν Raised)} {job : κ} {u : σ} {l : EventLoop σ κ ν Raised}

/-- The task has ended and returned. -/
def Succeeded (act : κ → Bool → σ → Except Raised ν → σ → Prop) (tasks : List (TaskState κ ν Raised))
    (job : κ) (u : σ) (l : EventLoop σ κ ν Raised) : Prop :=
  ∃ v cancelling, TaskEnded act tasks job u (.ok v) cancelling l

/-- The task was asked to end, or has failed. -/
abbrev Withdrawn (act : κ → Bool → σ → Except Raised ν → σ → Prop) (tasks : List (TaskState κ ν Raised))
    (job : κ) (u : σ) (l : EventLoop σ κ ν Raised) : Prop := Stopping act tasks job u true l

abbrev Unchecked : EventLoop σ κ ν Raised → EventLoop σ κ ν Raised → Prop := fun _ _ => True

theorem TaskEnded.succeeded_or_withdrawn {outcome : Except Raised ν} {cancelling : Bool}
    (h : TaskEnded act tasks job u outcome cancelling l) :
    Succeeded act tasks job u l ∨ Withdrawn act tasks job u l := by
  cases outcome with
  | ok v => exact .inl ⟨v, cancelling, h⟩
  | error e => exact .inr (.inr ⟨_, cancelling, h, fun _ => .inr fun _ hv => nomatch hv⟩)

theorem TaskEnded.working {outcome : Except Raised ν} {cancelling : Bool}
    (h : TaskEnded act tasks job u outcome cancelling l) : Working act tasks job u l := by
  cases h with
  | intro h => exact .ended h

theorem TaskEnded.outcome_eq {outcome : Except Raised ν} {cancelling : Bool}
    (h : TaskEnded act tasks job u outcome cancelling l) : l.outcome tasks.length = some outcome := by
  cases h with
  | intro h => exact outcome_last

/-- What the loop that watches a task has come to. -/
def Watched (act : κ → Bool → σ → Except Raised ν → σ → Prop) (tasks : List (TaskState κ ν Raised))
    (job : κ) (u : σ) : Except Raised (Option Raised) → EventLoop σ κ ν Raised → Prop
  | .ok none, l => ∃ outcome cancelling, TaskEnded act tasks job u outcome cancelling l
  | .ok (some e), l => e ≠ .cancelledError ∧ l = ⟨u, tasks ++ [.running job true]⟩
  | .error e, l => e = .cancelledError ∧ Working act tasks job u l

theorem wp_watchPublication (htasks : AllDone tasks) (h : Working act tasks job u l) :
    wp (Awaiting act) Unchecked (watchPublication tasks.length) (Watched act tasks job u) l := by
  apply Coroutine.wp_forever h
  intro l hl
  rintro r l' ⟨rfl, rfl⟩
  refine ⟨trivial, ?_⟩
  cases hl with
  | ended hact =>
    rw [outcome_last]
    exact ⟨_, _, ⟨hact⟩⟩
  | running =>
    rename_i cancelling
    rw [outcome_last]
    -- the task is at work: the checks, and then the wait
    rintro r l' ⟨⟨b, rfl⟩, rfl⟩
    refine ⟨trivial, ?_⟩
    have hgiveUp : ∀ e, e ≠ Raised.cancelledError →
        wp (Awaiting act) Unchecked (do
          cancel tasks.length
          return some (some e) : Code σ κ ν (Option (Option Raised)))
        (ends (fun a v => a.elim (Working act tasks job u v) fun a =>
          Watched act tasks job u (.ok a) v) fun e => Watched act tasks job u (.error e))
        ⟨u, tasks ++ [.running job cancelling]⟩ := by
      rintro e he r l' ⟨rfl, rfl⟩
      refine ⟨trivial, he, ?_⟩
      rw [modify_last]
      rfl
    cases b with
    | true => exact hgiveUp operationCancelled nofun
    | false =>
      rintro r l' ⟨⟨b, rfl⟩, rfl⟩
      refine ⟨trivial, ?_⟩
      cases b with
      | true => exact hgiveUp operationTimeout nofun
      | false =>
        have hworking : Working act tasks job u ⟨u, tasks ++ [.running job cancelling]⟩ := .running
        rintro v hawait r v' ⟨hr, rfl⟩
        have hv := hworking.awaiting htasks hawait
        refine ⟨trivial, ?_⟩
        rcases hr with rfl | rfl
        · exact hv
        · exact ⟨rfl, hv⟩

/-- A task that was withdrawn ends without a result, or with one after all. -/
theorem wp_awaitShielded_withdrawn {Q : Except Raised ν → EventLoop σ κ ν Raised → Prop}
    (htasks : AllDone tasks) (h : Withdrawn act tasks job u l)
    (hok : ∀ v l', Succeeded act tasks job u l' → Q (.ok v) l')
    (herror : ∀ e l', Withdrawn act tasks job u l' → Q (.error e) l') :
    wp (Awaiting act) Unchecked (awaitShielded tasks.length) Q l := by
  have hended : ∀ {r l'}, Withdrawn act tasks job u l' → l'.outcome tasks.length = some r →
      Q r l' := by
    intro r l' hl' hr
    obtain ⟨outcome, cancelling, hended, hlost⟩ := hl'.outcome hr
    obtain rfl : r = outcome := Option.some.inj (hr.symm.trans hended.outcome_eq)
    cases r with
    | ok v => exact hok v l' ⟨v, cancelling, hended⟩
    | error e => exact herror e l' (.inr ⟨_, cancelling, hended, hlost⟩)
  rintro r l' ⟨rfl, rfl⟩
  refine ⟨trivial, ?_⟩
  cases hdone : l'.outcome tasks.length with
  | some outcome =>
    rintro r v ⟨hr, rfl⟩
    exact ⟨trivial, hended h hr⟩
  | none =>
    rintro v hawait r v' ⟨hr, rfl⟩
    have hv := h.awaiting htasks hawait
    refine ⟨trivial, ?_⟩
    rcases hr with hr | rfl
    · exact hended hv hr
    · exact herror _ _ hv

theorem wp_awaitShielded_ended {Q : Except Raised ν → EventLoop σ κ ν Raised → Prop}
    {outcome : Except Raised ν} {cancelling : Bool}
    (h : TaskEnded act tasks job u outcome cancelling l) (hQ : Q outcome l) :
    wp (Awaiting act) Unchecked (awaitShielded tasks.length) Q l := by
  have houtcome := h.outcome_eq
  rintro r l' ⟨rfl, rfl⟩
  refine ⟨trivial, ?_⟩
  rw [houtcome]
  rintro r v ⟨hr, rfl⟩
  obtain rfl : r = outcome := Option.some.inj (hr.symm.trans houtcome)
  exact ⟨trivial, hQ⟩

/-- What the wait for a publication has come to. -/
def Awaited (act : κ → Bool → σ → Except Raised ν → σ → Prop) (tasks : List (TaskState κ ν Raised))
    (job : κ) (u : σ) : Except Raised Unit → EventLoop σ κ ν Raised → Prop
  | .ok (), l => Succeeded act tasks job u l
  | .error e, l => e = .cancelledError ∧ Working act tasks job u l ∨ Withdrawn act tasks job u l

theorem wp_awaitPublication (htasks : AllDone tasks) (h : Working act tasks job u l) :
    wp (Awaiting act) Unchecked (awaitPublication tasks.length) (Awaited act tasks job u) l := by
  apply wp_bind.mpr
  apply Coroutine.wp_mono (wp_watchPublication htasks h)
  intro r l hl
  match r with
  | .error e => exact .inl hl
  | .ok (some e) =>
    obtain ⟨hne, rfl⟩ := hl
    apply wp_tryCatch.mpr
    apply wp_bind.mpr
    apply wp_awaitShielded_withdrawn htasks (.inl rfl)
    · exact fun v l' hl' => hl'
    · intro e' l' hl'
      cases e' with
      | cancelledError => exact .inr hl'
      | error e' => exact .inr hl'
      | exit => exact .inr hl'
  | .ok none =>
    obtain ⟨outcome, cancelling, hended⟩ := hl
    apply wp_tryCatch.mpr
    apply wp_bind.mpr
    apply wp_awaitShielded_ended hended
    cases outcome with
    | ok v => exact ⟨v, cancelling, hended⟩
    | error e =>
      have hwithdrawn : Withdrawn act tasks job u l :=
        .inr ⟨_, cancelling, hended, fun _ => .inr fun _ hv => nomatch hv⟩
      cases e with
      | cancelledError => exact .inr hwithdrawn
      | error e => exact .inr hwithdrawn
      | exit => exact .inr hwithdrawn

theorem steady_withdrawn (htasks : AllDone tasks) : Steady act (Withdrawn act tasks job u) :=
  fun _ _ hprogress h => Stopping.awaiting h htasks (.single hprogress)

/-- After a request to end, the task is one that succeeded before or is withdrawn. -/
theorem cancelled_task (h : Working act tasks job u l) :
    Succeeded act tasks job u { l with tasks := l.tasks.modify tasks.length TaskState.cancel } ∨
      Withdrawn act tasks job u { l with tasks := l.tasks.modify tasks.length TaskState.cancel } := by
  cases h with
  | running =>
    rw [modify_last]
    exact .inr (.inl rfl)
  | ended hact =>
    rename_i cancelling outcome u'
    have hended : TaskEnded act tasks job u outcome cancelling ⟨u', tasks ++ [.done job outcome]⟩ :=
      ⟨hact⟩
    rw [modify_last]
    exact hended.succeeded_or_withdrawn

/-- What a publication has come to. -/
def PublicationEnd (act : κ → Bool → σ → Except Raised ν → σ → Prop)
    (tasks : List (TaskState κ ν Raised)) (job : κ) (u : σ) :
    Except Raised Unit → SessionState ι (SessionWork σ κ ν) → Prop :=
  ends (fun _ s => Succeeded act tasks job u s.work.loop)
    fun _ s => s.work.loop = ⟨u, tasks⟩ ∨ Withdrawn act tasks job u s.work.loop

variable {s : SessionState ι (SessionWork σ κ ν)}

theorem quiet_setPhase {phase : Phase} : Quiet (ι := ι) act call (setPhase call phase) :=
  quiet_step fun _ _ _ h => by
    rw [h.2]
    rfl

theorem quiet_emitFailedLifecycle :
    Quiet (ι := ι) (κ := κ) (σ := σ) (ν := ν) act call (emitFailedLifecycle call) := by
  refine quiet_newEvent.bind fun event => quiet_emitEvent.tryCatch fun e => ?_
  cases e with
  | cancelledError => exact quiet_throw
  | exit => exact quiet_throw
  | error e => exact quiet_pure.ite quiet_throw

theorem wp_publicationCancelled (htasks : AllDone tasks) (h : Working act tasks job u s.work.loop) :
    wp (Meanwhile act call) (fun _ _ => True) (publicationCancelled call tasks.length)
      (PublicationEnd act tasks job u) s := by
  have hcancel : wp (Awaiting act) Unchecked (cancel tasks.length)
      (ends (fun _ l => Succeeded act tasks job u l ∨ Withdrawn act tasks job u l) fun _ _ => False)
      s.work.loop := by
    rintro r l ⟨rfl, rfl⟩
    exact ⟨trivial, cancelled_task h⟩
  apply wp_bind.mpr
  apply Coroutine.wp_mono (wp_tasks hcancel)
  intro r s₁ hs₁
  cases r with
  | error e => exact hs₁.elim
  | ok =>
    have hshielded : wp (Awaiting act) Unchecked (awaitShielded tasks.length)
        (ends (fun _ => Succeeded act tasks job u) fun _ => Withdrawn act tasks job u)
        s₁.work.loop := by
      rcases hs₁ with ⟨v, cancelling, hended⟩ | hwithdrawn
      · exact wp_awaitShielded_ended hended ⟨v, cancelling, hended⟩
      · exact wp_awaitShielded_withdrawn htasks hwithdrawn (fun _ _ h => h) fun _ _ h => h
    apply wp_bind.mpr
    apply Coroutine.wp_attempt
    apply Coroutine.wp_mono (wp_tasks hshielded)
    intro r s₂ hs₂
    match r with
    | .ok v => exact hs₂
    | .error .cancelledError => exact .inr hs₂
    | .error .exit => exact .inr hs₂
    | .error (.error e) =>
      show wp _ _ (if e.cls.isSandboxError = true then _ else _) _ s₂
      by_cases hsandbox : e.cls.isSandboxError = true
      · rw [if_pos hsandbox]
        exact .inr hs₂
      · rw [if_neg hsandbox]
        exact (quiet_setPhase _ (steady_withdrawn htasks)).andThen hs₂ (fun _ _ h => .inr h)
          fun _ _ h => .inr h

theorem wp_publicationFailed (htasks : AllDone tasks) {e : Raised}
    (h : Awaited act tasks job u (.error e) s.work.loop) :
    wp (Meanwhile act call) (fun _ _ => True) (publicationFailed call tasks.length e)
      (PublicationEnd act tasks job u) s := by
  cases e with
  | cancelledError =>
    apply wp_publicationCancelled htasks
    rcases h with ⟨-, h⟩ | h
    · exact h
    · rcases h with h | h
      · rw [h]
        exact .running
      · exact h.working
  | exit => exact .inr (h.resolve_left fun h => nomatch h.1)
  | error e =>
    have hwithdrawn : Withdrawn act tasks job u s.work.loop := h.resolve_left fun h => nomatch h.1
    show wp _ _ (if e.cls.isSandboxError = true then _ else _) _ s
    by_cases hsandbox : e.cls.isSandboxError = true
    · rw [if_pos hsandbox]
      exact .inr hwithdrawn
    · rw [if_neg hsandbox]
      apply (quiet_setPhase _ (steady_withdrawn htasks)).andThen hwithdrawn fun _ _ h => .inr h
      intro _ s₁ hs₁
      exact (quiet_emitFailedLifecycle _ (steady_withdrawn htasks)).andThen hs₁ (fun _ _ h => .inr h)
        fun _ _ h => .inr h

/-- A publication that returns has succeeded; one that raises has not, and is
    not going to. -/
theorem wp_publishRestoreAction (htasks : AllDone tasks) (h : s.work.loop = ⟨u, tasks⟩) :
    wp (Meanwhile act call) (fun _ _ => True) (publishRestoreAction call job)
      (PublicationEnd act tasks job u) s := by
  -- the checks before the task leave everything as it is
  have hcheck : ∀ {x : Code σ κ ν Unit}, (∀ l, wp (Awaiting act) Unchecked x (fun _ l' => l' = l) l) →
      Coroutine.Preserves (Meanwhile act call) (fun _ _ => True)
        (fun s₁ : SessionState ι (SessionWork σ κ ν) => s₁.work.loop = ⟨u, tasks⟩)
        (SandboxSession.tasks call x) := by
    intro x hx s₁ hs₁
    apply wp_tasks (Q := fun _ l => l = ⟨u, tasks⟩)
    rw [hs₁]
    exact hx _
  have hraise : ∀ e (s₁ : SessionState ι (SessionWork σ κ ν)), s₁.work.loop = ⟨u, tasks⟩ →
      PublicationEnd act tasks job u (.error e) s₁ := fun _ _ hs₁ => .inl hs₁
  have hremaining : ∀ l, wp (Awaiting act) Unchecked requireRemaining (fun _ l' => l' = l) l :=
    fun _ _ _ h => ⟨trivial, h.2⟩
  have hcooperative : ∀ l, wp (Awaiting act) Unchecked checkCooperativeCancellation
      (fun _ l' => l' = l) l := fun _ _ _ h => ⟨trivial, h.2⟩
  apply (hcheck hremaining).andThen h hraise
  intro _ s₁ hs₁
  apply (hcheck hcooperative).andThen hs₁ hraise
  intro _ s₂ hs₂
  have hcreate : wp (Awaiting act) Unchecked (createTask job)
      (ends (fun id l => id = tasks.length ∧ Working act tasks job u l) fun _ _ => False)
      s₂.work.loop := by
    rintro r l ⟨rfl, rfl⟩
    rw [hs₂]
    exact ⟨trivial, rfl, .running⟩
  apply wp_bind.mpr
  apply Coroutine.wp_mono (wp_tasks hcreate)
  intro r s₃ hs₃
  cases r with
  | error e => exact hs₃.elim
  | ok id =>
    obtain ⟨rfl, hworking⟩ := hs₃
    apply wp_tryCatch.mpr
    apply Coroutine.wp_mono (wp_tasks (wp_awaitPublication htasks hworking))
    intro r s₄ hs₄
    cases r with
    | ok => exact hs₄
    | error e => exact wp_publicationFailed htasks hs₄

end Publication

/-! ## Section 2: Candidates -/

section Candidates

variable [Sha256] {w w' : MemoryWorkspace}

omit [Sha256] in
theorem commitRestoreCheck_same (candidate : RestoreCandidate) :
    (MemoryWorkspace.commitRestoreCheck candidate w).2 = w := by
  cases candidate with
  | other => rfl
  | prepared token capability =>
    unfold MemoryWorkspace.commitRestoreCheck
    rw [Call.bind_of_ok (Call.get_apply w)]
    by_cases h : token = w.restoreToken <;> simp [h]

theorem commitRestoreTake_live (capability : Capability) :
    (MemoryWorkspace.commitRestoreTake capability w).2.state = w.state ∧
      (MemoryWorkspace.commitRestoreTake capability w).2.limits = w.limits := by
  unfold MemoryWorkspace.commitRestoreTake
  rw [Call.bind_of_ok (Call.get_apply w)]
  cases capability with
  | none => exact ⟨rfl, rfl⟩
  | unhashable => exact ⟨rfl, rfl⟩
  | issued key =>
    cases hget : Dict.get? key w.restoreCandidates with
    | none =>
      simp only [hget]
      exact ⟨rfl, rfl⟩
    | some payload =>
      simp only [hget]
      rw [Call.bind_of_ok (Call.set_apply _ _)]
      exact ⟨rfl, rfl⟩

/-- A publication that is cancelled may have used its candidate up. -/
theorem takeCandidate_live (candidate : RestoreCandidate) :
    (takeCandidate candidate w).2.state = w.state ∧ (takeCandidate candidate w).2.limits = w.limits := by
  have hcheck := commitRestoreCheck_same (w := w) candidate
  unfold takeCandidate
  rw [Call.bind_apply]
  rcases hresult : MemoryWorkspace.commitRestoreCheck candidate w with ⟨e | capability, w₁⟩
  · rw [hresult] at hcheck
    obtain rfl : w₁ = w := hcheck
    exact ⟨rfl, rfl⟩
  · rw [hresult] at hcheck
    obtain rfl : w₁ = w := hcheck
    exact commitRestoreTake_live capability

/-- A candidate is stored only where the required directory is one. -/
theorem prepareRestoreCandidate_directory (entries : List WorkspaceSnapshotEntry)
    (stats : WorkspaceStats) (requiredDirectory : SandboxPath) :
    Call.Outcome (MemoryWorkspace.prepareRestoreCandidate entries stats requiredDirectory) w
      fun _ w' => ∀ payload, Dict.get? w.nextCapability w'.restoreCandidates = some payload →
        ∃ children, Node.getNode payload.state.root requiredDirectory = .ok (.directory children) := by
  unfold MemoryWorkspace.prepareRestoreCandidate
  rw [Call.outcome_get_bind]
  refine Call.outcome_lift_bind fun root _ => ?_
  refine Call.outcome_lift_bind fun state _ => ?_
  refine Call.outcome_lift_bind fun _ _ => ?_
  refine Call.outcome_lift_bind fun node hnode => ?_
  cases node with
  | file c => exact Call.outcome_throw
  | directory children =>
    refine Call.Returns.outcome ?_
    intro payload hpayload
    rw [Dict.get?_set_self] at hpayload
    obtain rfl := Option.some.inj hpayload
    exact ⟨children, hnode⟩

/-- Where a preparation requires a directory. -/
def requiredDirectory : RestoreRaces.Preparation → SandboxPath
  | .snapshot _ requiredDirectory => requiredDirectory
  | .archive _ requiredDirectory => requiredDirectory

variable [UnicodeData] [JsonRuntime] [TarReader] [GzipReader]

/-- The candidate can be committed, to a state that its preparation validated. -/
structure Issued (preparation : RestoreRaces.Preparation) (candidate : RestoreCandidate)
    (w : MemoryWorkspace) (state : WorkspaceState) : Prop where
  validates : preparation.Validates w.limits state
  consistent : MemoryWorkspace.Consistent w.limits state
  directory : ∃ children,
    Node.getNode state.root (requiredDirectory preparation) = .ok (.directory children)
  commits : ∃ kept, MemoryWorkspace.commitRestore candidate w =
    (.ok (), { w with state, restoreCandidates := kept })

omit [UnicodeData] in
theorem prepare_directory (preparation : RestoreRaces.Preparation) :
    Call.Outcome preparation.call w fun _ w' =>
      ∀ payload, Dict.get? w.nextCapability w'.restoreCandidates = some payload →
        ∃ children, Node.getNode payload.state.root (requiredDirectory preparation) =
          .ok (.directory children) := by
  cases preparation with
  | snapshot data directory =>
    show Call.Outcome (MemoryWorkspace.prepareRestore data directory) w _
    unfold MemoryWorkspace.prepareRestore
    rw [Call.outcome_get_bind]
    refine Call.outcome_lift_bind fun _ _ => ?_
    refine Call.outcome_lift_bind fun decoded _ => ?_
    exact prepareRestoreCandidate_directory _ _ _
  | archive data directory =>
    show Call.Outcome (MemoryWorkspace.prepareArchiveRestore data directory) w _
    unfold MemoryWorkspace.prepareArchiveRestore
    rw [Call.outcome_get_bind]
    refine Call.outcome_lift_bind fun _ _ => ?_
    refine Call.outcome_lift_bind fun _ _ => ?_
    refine Call.outcome_lift_bind fun decoded _ => ?_
    refine Call.outcome_lift_bind fun _ _ => ?_
    exact prepareRestoreCandidate_directory _ _ _

omit [UnicodeData] in
/-- What a preparation returns can be committed next. -/
theorem issued_of_prepare {preparation : RestoreRaces.Preparation} {candidate : RestoreCandidate}
    (h : preparation.call w = (.ok candidate, w')) :
    w'.state = w.state ∧ w'.limits = w.limits ∧ ∃ state, Issued preparation candidate w' state := by
  have hdirectory := (prepare_directory preparation).of_eq_ok h
  obtain ⟨state, hvalid, hconsistent, rfl, rfl⟩ := (preparation.outcome w).of_eq_ok h
  obtain ⟨children, hchildren⟩ := hdirectory _ (Dict.get?_set_self _ _ _)
  let issued : MemoryWorkspace := { w with
    restoreCandidates := Dict.set w.nextCapability ⟨state, state.stats⟩ w.restoreCandidates
    nextCapability := w.nextCapability + 1 }
  have hcommit := MemoryWorkspace.commitRestore_issued (w := issued) hconsistent
    (Dict.get?_set_self w.nextCapability ⟨state, state.stats⟩ w.restoreCandidates)
  exact ⟨rfl, rfl, state, hvalid, hconsistent, ⟨children, hchildren⟩, _, hcommit⟩

end Candidates

/-! ## Section 3: Collaborators -/

section Restore

/-- The live state is as it was. -/
structure Unreplaced (u₀ u : Sandbox) : Prop where
  state : u.workspace.state = u₀.workspace.state
  limits : u.workspace.limits = u₀.workspace.limits
  cwd : u.cwd = u₀.cwd
  environment : u.environment = u₀.environment

/-- Nothing is at work, and the live state is as it was. -/
structure Unpublished (u₀ : Sandbox) (l : EventLoop Sandbox SessionJob SessionValue Raised) : Prop where
  done : AllDone l.tasks
  live : Unreplaced u₀ l.shared

/-- The live state is as it was, and what is still at work is a publication
    that was asked to end. -/
structure Withheld (u₀ : Sandbox) (l : EventLoop Sandbox SessionJob SessionValue Raised) : Prop where
  idle : ∀ task ∈ l.tasks, task.outcome = none →
    ∃ candidate context, task = .running (.publish candidate context) true
  live : Unreplaced u₀ l.shared

theorem Unpublished.withheld {u₀ : Sandbox}
    {l : EventLoop Sandbox SessionJob SessionValue Raised} (h : Unpublished u₀ l) : Withheld u₀ l :=
  ⟨fun task htask hrunning => absurd hrunning (h.done task htask), h.live⟩

variable [Sha256] [UnicodeData] [JsonRuntime] [TarReader] [GzipReader] {u₀ u : Sandbox}
  {l : EventLoop Sandbox SessionJob SessionValue Raised}

/-- A publication that was asked to end never replaces anything. -/
theorem steady_withheld : Steady SessionJob.act (Withheld u₀) := by
  intro l l' hprogress h
  cases hprogress with
  | cancelled =>
    rename_i u before after job cancelling
    obtain ⟨candidate, context, hjob⟩ := h.idle _ (List.mem_append_right _ List.mem_cons_self) rfl
    obtain ⟨rfl, rfl⟩ := TaskState.running.inj hjob
    exact h
  | ended hact =>
    rename_i u u' before after job cancelling outcome
    obtain ⟨candidate, context, hjob⟩ := h.idle _ (List.mem_append_right _ List.mem_cons_self) rfl
    obtain ⟨rfl, rfl⟩ := TaskState.running.inj hjob
    refine ⟨?_, ?_⟩
    · intro task htask hrunning
      rcases List.mem_append.mp htask with hbefore | htask
      · exact h.idle task (List.mem_append_left _ hbefore) hrunning
      · rcases List.mem_cons.mp htask with rfl | hafter
        · exact nomatch hrunning
        · exact h.idle task (List.mem_append_right _ (List.mem_cons_of_mem _ hafter)) hrunning
    · have hlive : Unreplaced u₀ u := h.live
      obtain ⟨-, rfl | rfl⟩ := hact
      · exact hlive
      · obtain ⟨hstate, hlimits⟩ := takeCandidate_live (w := u.workspace) candidate
        exact ⟨hstate.trans hlive.state, hlimits.trans hlive.limits, hlive.cwd, hlive.environment⟩

/-- A collaborator call that keeps `I`, and `P` of its value. -/
theorem wp_awaitValue {β : Type} {pick : SessionValue → Option β} {job : SessionJob} {I : Sandbox → Prop}
    {P : β → Sandbox → Prop} (hdone : AllDone l.tasks) (hI : I l.shared)
    (hact : ∀ cancelling r u', job.act cancelling l.shared r u' → I u' ∧
      ∀ v, r = .ok v → ∀ b, pick v = some b → P b u') :
    wp (Awaiting SessionJob.act) Unguarded (awaitValue pick job)
      (ends (fun b l' => AllDone l'.tasks ∧ I l'.shared ∧ P b l'.shared)
        fun _ l' => AllDone l'.tasks ∧ I l'.shared) l := by
  obtain ⟨u, tasks⟩ := l
  apply wp_bind.mpr
  apply wp_awaitCollaborator hdone (fun _ _ _ => trivial)
  · exact fun e => ⟨hdone, hI⟩
  · intro v cancelling s' h
    cases h with
    | intro h =>
      obtain ⟨hI', hP⟩ := hact _ _ _ h
      apply Coroutine.wp_ofExcept
      cases hpick : pick v with
      | none => exact ⟨hdone.concat _ _, hI'⟩
      | some b => exact ⟨hdone.concat _ _, hI', hP v rfl b hpick⟩
  · rintro e s' ⟨outcome, cancelling, h, -⟩
    cases h with
    | intro h => exact ⟨hdone.concat _ _, (hact _ _ _ h).1⟩

/-- What a restore takes its candidate from, and the execution state that
    comes with it. -/
inductive Source (u₀ : Sandbox) :
    RestoreRequest → RestoreRaces.Preparation → Option ExecutionContext → Prop where
  | archive {data : WorkspaceArchiveData} {context : Option ExecutionContext}
      {expectedRevision : Option Revision} {expectedRootHash : Option ContentHash}
      (hcurrent : ∀ revision, expectedRevision = some revision →
        u₀.workspace.state.stats.revision = revision ∧
          some u₀.workspace.state.stats.rootHash = expectedRootHash) :
      Source u₀ (.archive data context expectedRevision expectedRootHash)
        (.archive data (context.getD (u₀.cwd, u₀.environment)).1) context
  | snapshot {codec : JsonSessionSnapshotCodec} {ref : SnapshotRef} {reading : ClockReading}
      {stored : StoredSnapshot} {state : SessionSnapshotState}
      (hload : (u₀.store.load ref reading).1 = .ok stored)
      (hdecode : codec.decode stored.toSandboxSnapshot = .ok state) :
      Source u₀ (.snapshot codec ref) (.snapshot state.workspace state.cwd)
        (some (state.cwd, state.approvedEnvironment))

/-- The workspace, the working directory and the environment are those of the
    source. -/
structure Replaced (preparation : RestoreRaces.Preparation) (context : Option ExecutionContext)
    (u₀ u : Sandbox) : Prop where
  validates : preparation.Validates u₀.workspace.limits u.workspace.state
  consistent : MemoryWorkspace.Consistent u₀.workspace.limits u.workspace.state
  limits : u.workspace.limits = u₀.workspace.limits
  entered : (u.cwd, u.environment) = context.getD (u₀.cwd, u₀.environment)
  directory : ∃ children,
    Node.getNode u.workspace.state.root (requiredDirectory preparation) = .ok (.directory children)

/-- The restore is done. -/
structure RestoreDone (request : RestoreRequest) (u₀ : Sandbox) (value : SessionValue)
    (l : EventLoop Sandbox SessionJob SessionValue Raised) : Prop where
  done : AllDone l.tasks
  replaced : ∃ preparation context, Source u₀ request preparation context ∧
    Replaced preparation context u₀ l.shared

/-- Nothing has been done at all. -/
def Fresh (u₀ : Sandbox) (l : EventLoop Sandbox SessionJob SessionValue Raised) : Prop :=
  AllDone l.tasks ∧ l.shared = u₀

omit [Sha256] [UnicodeData] [JsonRuntime] [TarReader] [GzipReader] in
theorem Fresh.unpublished (h : Fresh u₀ l) : Unpublished u₀ l := by
  refine ⟨h.1, ?_⟩
  rw [h.2]
  exact ⟨rfl, rfl, rfl, rfl⟩

/-- The job is the publication of a candidate that can be committed. -/
structure Armed (request : RestoreRequest) (u₀ : Sandbox) (job : SessionJob)
    (l : EventLoop Sandbox SessionJob SessionValue Raised) : Prop extends Unpublished u₀ l where
  publication : ∃ preparation candidate context state, job = .publish candidate context ∧
    Source u₀ request preparation context ∧ Issued preparation candidate l.shared.workspace state

/-- The call that prepares the candidate. -/
theorem wp_prepareCandidate {preparation : RestoreRaces.Preparation} (h : Unpublished u₀ l) :
    wp (Awaiting SessionJob.act) Unguarded
      (awaitValue SessionValue.candidate? (.prepare preparation))
      (ends (fun candidate l' => Unpublished u₀ l' ∧
        ∃ state, Issued preparation candidate l'.shared.workspace state) fun _ => Unpublished u₀) l := by
  obtain ⟨u, tasks⟩ := l
  obtain ⟨hdone, hlive⟩ := h
  have hact : ∀ cancelling r u', SessionJob.act (.prepare preparation) cancelling u r u' →
      Unreplaced u₀ u' ∧ ∀ v, r = .ok v → ∀ candidate, v.candidate? = some candidate →
        ∃ state, Issued preparation candidate u'.workspace state := by
    intro cancelling r u' h
    cases cancelling with
    | true =>
      obtain ⟨rfl, rfl⟩ := h
      exact ⟨hlive, fun v hv => nomatch hv⟩
    | false =>
      obtain ⟨rfl, rfl⟩ := h
      rcases hcall : preparation.call u.workspace with ⟨e | candidate, w'⟩
      · obtain rfl : w' = u.workspace := (preparation.outcome u.workspace).of_eq_error hcall
        exact ⟨⟨hlive.state, hlive.limits, hlive.cwd, hlive.environment⟩, fun v hv => nomatch hv⟩
      · obtain ⟨hstate, hlimits, hissued⟩ := issued_of_prepare hcall
        refine ⟨⟨hstate.trans hlive.state, hlimits.trans hlive.limits, hlive.cwd,
          hlive.environment⟩, ?_⟩
        intro v hv candidate' hcandidate
        obtain rfl : SessionValue.candidate candidate = v := Except.ok.inj hv
        obtain rfl : candidate = candidate' := Option.some.inj hcandidate
        exact hissued
  apply Coroutine.wp_mono (wp_awaitValue (I := Unreplaced u₀)
    (P := fun candidate u' => ∃ state, Issued preparation candidate u'.workspace state)
    hdone hlive hact)
  intro r l' hl'
  cases r with
  | ok candidate => exact ⟨⟨hl'.1, hl'.2.1⟩, hl'.2.2⟩
  | error e => exact ⟨hl'.1, hl'.2⟩

/-- The check on the live workspace. -/
theorem wp_requireCurrent {expectedRevision : Option Revision} {expectedRootHash : Option ContentHash}
    (h : Fresh u₀ l) :
    wp (Awaiting SessionJob.act) Unguarded
      (RestoreRequest.requireCurrent expectedRootHash expectedRevision)
      (ends (fun _ l' => Fresh u₀ l' ∧ ∀ revision, expectedRevision = some revision →
        u₀.workspace.state.stats.revision = revision ∧
          some u₀.workspace.state.stats.rootHash = expectedRootHash) fun _ => Unpublished u₀) l := by
  cases expectedRevision with
  | none => exact ⟨h, nofun⟩
  | some expected =>
    obtain ⟨u, tasks⟩ := l
    obtain ⟨hdone, rfl⟩ := h
    have hact : ∀ cancelling r u', SessionJob.act .stats cancelling u r u' →
        u' = u ∧ ∀ v, r = .ok v → ∀ stats, v.stats? = some stats → stats = u.workspace.state.stats := by
      intro cancelling r u' h
      cases cancelling with
      | true =>
        obtain ⟨rfl, rfl⟩ := h
        exact ⟨rfl, fun v hv => nomatch hv⟩
      | false =>
        obtain ⟨rfl, rfl⟩ := h
        refine ⟨rfl, fun v hv stats hstats => ?_⟩
        obtain rfl := Except.ok.inj hv
        exact (Option.some.inj hstats).symm
    apply wp_bind.mpr
    apply Coroutine.wp_mono (wp_awaitValue (I := fun u' => u' = u)
      (P := fun stats _ => stats = u.workspace.state.stats) hdone rfl hact)
    intro r l' hl'
    cases r with
    | error e => exact Fresh.unpublished hl'
    | ok stats =>
      obtain ⟨hdone', hshared, rfl⟩ := hl'
      have hfresh : Fresh u l' := ⟨hdone', hshared⟩
      show wp _ _ (if u.workspace.state.stats.revision ≠ expected ∨
        some u.workspace.state.stats.rootHash ≠ expectedRootHash then _ else _) _ l'
      by_cases hchanged : u.workspace.state.stats.revision ≠ expected ∨
          some u.workspace.state.stats.rootHash ≠ expectedRootHash
      · rw [if_pos hchanged]
        exact hfresh.unpublished
      · rw [if_neg hchanged]
        rw [not_or, not_not, not_not] at hchanged
        refine ⟨hfresh, fun revision hrevision => ?_⟩
        obtain rfl := Option.some.inj hrevision
        exact hchanged

/-- What is loaded from the store. -/
theorem wp_loadSnapshot {ref : SnapshotRef} (h : Fresh u₀ l) :
    wp (Awaiting SessionJob.act) Unguarded (awaitValue SessionValue.stored? (.load ref))
      (ends (fun stored l' => Unpublished u₀ l' ∧
        ∃ reading, (u₀.store.load ref reading).1 = .ok stored) fun _ => Unpublished u₀) l := by
  obtain ⟨u, tasks⟩ := l
  obtain ⟨hdone, rfl⟩ := h
  have hact : ∀ cancelling r u', SessionJob.act (.load ref) cancelling u r u' →
      Unreplaced u u' ∧ ∀ v, r = .ok v → ∀ stored, v.stored? = some stored →
        ∃ reading, (u.store.load ref reading).1 = .ok stored := by
    intro cancelling r u' h
    cases cancelling with
    | true =>
      obtain ⟨rfl, rfl⟩ := h
      exact ⟨⟨rfl, rfl, rfl, rfl⟩, fun v hv => nomatch hv⟩
    | false =>
      obtain ⟨reading, rfl, rfl⟩ := h
      refine ⟨⟨rfl, rfl, rfl, rfl⟩, fun v hv stored hstored => ⟨reading, ?_⟩⟩
      cases hload : (u.store.load ref reading).1 with
      | error e =>
        rw [hload] at hv
        exact nomatch hv
      | ok found =>
        rw [hload] at hv
        obtain rfl := Except.ok.inj hv
        exact congrArg Except.ok (Option.some.inj hstored)
  apply Coroutine.wp_mono (wp_awaitValue (I := Unreplaced u)
    (P := fun stored _ => ∃ reading, (u.store.load ref reading).1 = .ok stored) hdone
    ⟨rfl, rfl, rfl, rfl⟩ hact)
  intro r l' hl'
  cases r with
  | ok stored => exact ⟨⟨hl'.1, hl'.2.1⟩, hl'.2.2⟩
  | error e => exact ⟨hl'.1, hl'.2⟩

/-- What the action does before the publication. -/
theorem wp_prepare (request : RestoreRequest) (operationId : OperationId) (h : Fresh u₀ l) :
    wp (Awaiting SessionJob.act) Unguarded (request.prepare operationId)
      (ends (fun result => Armed request u₀ result.1) fun _ => Unpublished u₀) l := by
  cases request with
  | archive data context expectedRevision expectedRootHash =>
    apply wp_bind.mpr
    apply Coroutine.wp_mono (wp_requireCurrent h)
    intro r l₁ hl₁
    cases r with
    | error e => exact hl₁
    | ok =>
      obtain ⟨hfresh, hcurrent⟩ := hl₁
      apply wp_bind.mpr
      rintro r l₂ ⟨rfl, rfl⟩
      refine ⟨trivial, ?_⟩
      apply wp_bind.mpr
      apply Coroutine.wp_mono (wp_prepareCandidate hfresh.unpublished)
      intro r l₃ hl₃
      cases r with
      | error e => exact hl₃
      | ok candidate =>
        obtain ⟨hunpublished, state, hissued⟩ := hl₃
        refine ⟨hunpublished, _, candidate, context, state, rfl, ?_, hissued⟩
        rw [hfresh.2]
        exact .archive hcurrent
  | snapshot codec ref =>
    apply wp_bind.mpr
    apply Coroutine.wp_mono (wp_loadSnapshot h)
    intro r l₁ hl₁
    cases r with
    | error e => exact hl₁
    | ok stored =>
      obtain ⟨hunpublished, reading, hload⟩ := hl₁
      apply wp_bind.mpr
      rintro r l₂ ⟨hr, rfl⟩
      refine ⟨trivial, ?_⟩
      rcases hr with rfl | rfl
      · apply wp_bind.mpr
        apply Coroutine.wp_ofExcept
        cases hdecode : codec.decode stored.toSandboxSnapshot with
        | error e => exact hunpublished
        | ok state =>
          apply wp_bind.mpr
          apply Coroutine.wp_ofExcept
          cases validateSnapshotState state with
          | error e => exact hunpublished
          | ok =>
            apply wp_bind.mpr
            apply Coroutine.wp_mono (wp_prepareCandidate hunpublished)
            intro r l₃ hl₃
            cases r with
            | error e => exact hl₃
            | ok candidate =>
              obtain ⟨hunpublished₃, found, hissued⟩ := hl₃
              exact ⟨hunpublished₃, _, candidate, _, found, rfl, .snapshot hload hdecode, hissued⟩
      · exact hunpublished

/-- The publication replaces everything, or nothing. -/
theorem wp_publish {request : RestoreRequest} {job : SessionJob} {s : SandboxState ι}
    (h : Armed request u₀ job s.work.loop) :
    wp (Meanwhile SessionJob.act call) (fun _ _ => True) (publishRestoreAction call job)
      (ends (fun _ s' => ∀ value, RestoreDone request u₀ value s'.work.loop)
        fun _ s' => Withheld u₀ s'.work.loop) s := by
  obtain ⟨⟨hdone, hlive⟩, preparation, candidate, context, state, rfl, hsource, hissued⟩ := h
  obtain ⟨kept, hcommit⟩ := hissued.commits
  have hlimits : s.work.loop.shared.workspace.limits = u₀.workspace.limits := hlive.limits
  apply Coroutine.wp_mono (wp_publishRestoreAction hdone rfl)
  intro r s' hs'
  cases r with
  | ok =>
    obtain ⟨v, cancelling, hended⟩ := hs'
    intro value
    generalize s'.work.loop = l at hended
    cases hended with
    | intro hact =>
      cases cancelling with
      | true => exact nomatch hact.1
      | false =>
        rcases hact with ⟨-, -, rfl⟩ | ⟨e, hfailed, -⟩
        · refine ⟨hdone.concat _ _, preparation, context, hsource, ?_⟩
          rw [hcommit]
          cases context with
          | none =>
            refine ⟨hlimits ▸ hissued.validates, hlimits ▸ hissued.consistent, hlimits, ?_,
              hissued.directory⟩
            exact Prod.ext hlive.cwd hlive.environment
          | some entered =>
            exact ⟨hlimits ▸ hissued.validates, hlimits ▸ hissued.consistent, hlimits, rfl,
              hissued.directory⟩
        · rw [hcommit] at hfailed
          exact nomatch hfailed
  | error e =>
    have hidle : ∀ task ∈ s.work.loop.tasks, task.outcome = none →
        ∃ candidate context, task = .running (.publish candidate context) true :=
      fun task htask hrunning => absurd hrunning (hdone task htask)
    rcases hs' with hs' | hs'
    · show Withheld u₀ s'.work.loop
      rw [hs']
      exact ⟨hidle, hlive⟩
    · rcases hs' with hs' | ⟨outcome, cancelling, hended, hlost⟩
      · show Withheld u₀ s'.work.loop
        rw [hs']
        refine ⟨fun task htask hrunning => ?_, hlive⟩
        rcases List.mem_append.mp htask with htask | htask
        · exact hidle task htask hrunning
        · exact ⟨candidate, context, List.mem_singleton.mp htask⟩
      · show Withheld u₀ s'.work.loop
        have hall := hdone.concat (.publish candidate context) outcome
        generalize s'.work.loop = l at hended
        cases hended with
        | intro hact =>
          refine Unpublished.withheld ⟨hall, ?_⟩
          cases cancelling with
          | true =>
            obtain ⟨-, rfl | rfl⟩ := hact
            · exact hlive
            · obtain ⟨hstate, hlimits'⟩ :=
                takeCandidate_live (w := s.work.loop.shared.workspace) candidate
              exact ⟨hstate.trans hlive.state, hlimits'.trans hlive.limits, hlive.cwd,
                hlive.environment⟩
          | false =>
            rcases hact with ⟨-, rfl, -⟩ | ⟨e, hfailed, -⟩
            · exact absurd rfl ((hlost rfl).resolve_left Bool.false_ne_true _)
            · rw [hcommit] at hfailed
              exact nomatch hfailed

end Restore

/-! ## Section 4: Runs -/

section Runs

/-- The operation, for `_run_operation`. -/
abbrev RestoreRequest.runs (request : RestoreRequest) (limits : OperationLimits)
    [Sha256] [JsonRuntime] :
    OrderlyOperation ι (SessionWork Sandbox SessionJob SessionValue) SessionValue :=
  (request.operationRequest limits).orderly

variable [Sha256] [UnicodeData] [JsonRuntime] [TarReader] [GzipReader] {request : RestoreRequest}
  {u₀ : Sandbox} {limits : OperationLimits} {s₀ : SandboxState ι}

/-- The caller finds the restore done, with the result that it got. -/
structure RestoreReturned (request : RestoreRequest) (u₀ : Sandbox) (value : SessionValue)
    (l : EventLoop Sandbox SessionJob SessionValue Raised) : Prop
    extends RestoreDone request u₀ value l where
  returned : l.shared.returned = some value

theorem restore_contract :
    WorkContract SessionJob.act call (request.runs limits).toOperation (Fresh u₀) (Fresh u₀)
      (Withheld u₀) (RestoreDone request u₀) where
  steady_idle := steady_of_done fun _ h => h.1
  steady_ready := steady_of_done fun _ h => h.1
  steady_intact := steady_withheld
  steady_done := fun _ => steady_of_done fun _ h => h.done
  intact_of_idle := fun _ h => h.unpublished.withheld
  intact_of_ready := fun _ h => h.unpublished.withheld
  normalize := fun s h => h
  evaluate := fun operationId s h => by
    apply wp_tasks
    exact wp_evaluate operationId (I := fun u => u = u₀) h.1 h.2
  action := fun operationId s h => by
    apply wp_bind.mpr
    apply Coroutine.wp_mono (wp_tasks (wp_prepare request operationId h))
    intro r s₁ hs₁
    cases r with
    | error e => exact Unpublished.withheld hs₁
    | ok prepared =>
      apply wp_bind.mpr
      apply Coroutine.wp_mono (wp_publish hs₁)
      intro r s₂ hs₂
      cases r with
      | ok => exact hs₂ _
      | error e => exact hs₂

/-- The runs of a restore that has its turn. -/
def restoreSystem (call : ι) (request : RestoreRequest) (limits : OperationLimits)
    (s₀ : SandboxState ι) :=
  turnSystem SessionJob.act call (request.runs limits).toOperation keepResult s₀

/-- How its turn ends. -/
abbrev RestoreEnd (call : ι) (request : RestoreRequest) (limits : OperationLimits) (u₀ : Sandbox) :
    Except Raised Unit → SandboxState ι → Prop :=
  TurnEnd call (FailsLate (request.runs (ι := ι) limits).toOperation) (Withheld u₀)
    (RestoreDone request u₀) (RestoreReturned request u₀)

end Runs

section Cancelled

open NewWorkspace RestoreRaces.OneWorkspace

/-- A restore from a snapshot that the store does not hold. -/
def missingSnapshot : RestoreRequest :=
  .snapshot JsonSessionSnapshotCodec.OneVariable.codec ⟨⟨1, Nat.one_ne_zero⟩⟩

end Cancelled

end SandboxSession
