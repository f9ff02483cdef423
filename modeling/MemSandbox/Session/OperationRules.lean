import MemSandbox.Session.SessionRuns

/-! # What an operation does to the work

    An operation that holds the gate, among other calls that do not: what its
    action establishes on the work is what the operation has done when it ends,
    whatever else fails, is cancelled or runs late.

    * **Section 1** an operation among the others;
    * **Section 2** code that leaves the work alone;
    * **Section 3** the rule for operations;
    * **Section 4** their runs. -/

open Python EventLoop
open Coroutine (wp wp_bind wp_tryCatch ends pre Preserves Stable)

namespace SandboxSession

variable {ι κ σ ν α : Type} {call : ι}

/-! ## Section 1: Interference -/

section Interference

variable {act : κ → Bool → σ → Except Raised ν → σ → Prop}
  {s s' : SessionState ι (SessionWork σ κ ν)}

/-- What may happen while a call has the gate: the tasks go on, and the other
    calls keep their guarantee and leave the work alone. -/
inductive Elsewhere (act : κ → Bool → σ → Except Raised ν → σ → Prop) (call : ι)
    (s : SessionState ι (SessionWork σ κ ν)) : SessionState ι (SessionWork σ κ ν) → Prop where
  | tasks {loop : EventLoop σ κ ν Raised} (h : Progress act s.work.loop loop) :
      Elsewhere act call s { s with work := { s.work with loop } }
  | calls {s' : SessionState ι (SessionWork σ κ ν)} {other : ι} (hne : other ≠ call)
      (h : Guarantee other s s') (hwork : s'.work = s.work) : Elsewhere act call s s'

/-- The guarantee of the only coroutine. -/
abbrev Alone (call : ι) : Unit → SessionState ι (SessionWork σ κ ν) →
    SessionState ι (SessionWork σ κ ν) → Prop := fun _ => Guarantee call

abbrev Meanwhile (act : κ → Bool → σ → Except Raised ν → σ → Prop) (call : ι) :
    SessionState ι (SessionWork σ κ ν) → SessionState ι (SessionWork σ κ ν) → Prop :=
  Coroutine.Rely (Elsewhere act call) (Alone call) ()

theorem Elsewhere.other (h : Coroutine.Other (Elsewhere act call) (Alone call) () s s') :
    Elsewhere act call s s' := by
  rcases h with h | ⟨j, hj, -⟩
  · exact h
  · exact absurd rfl hj

theorem Elsewhere.session (h : Elsewhere act call s s') :
    Coroutine.Other Environment Guarantee call s s' := by
  cases h with
  | tasks h => exact .inl ⟨_, rfl⟩
  | calls hne h hwork => exact .inr ⟨_, hne, h⟩

/-- While a call has the gate, that is all the others may do. -/
theorem Elsewhere.of_turn {other : ι} {knows : Knows} {P : Turn ι → Prop}
    (h : Holds call knows P s) (hne : other ≠ call) (hother : Guarantee other s s') :
    Elsewhere act call s s' := by
  obtain ⟨t, ht, hcall, -⟩ := h.hasTurn
  apply Elsewhere.calls hne hother
  apply (hother h.invariant).work
  intro t' ht' hcall'
  obtain rfl : t = t' := Option.some.inj (ht.symm.trans ht')
  exact hne (hcall'.symm.trans hcall)

/-- It is less than what may happen in a session at large. -/
theorem meanwhile_session (h : Meanwhile act call s s') :
    Coroutine.Rely Environment Guarantee call s s' := by
  induction h with
  | refl => exact .refl
  | tail _ hstep ih => exact .tail ih (Elsewhere.other hstep).session

theorem meanwhile_loop (h : Meanwhile act call s s') : Awaiting act s.work.loop s'.work.loop := by
  induction h with
  | refl => exact .refl
  | tail _ hstep ih =>
    cases Elsewhere.other hstep with
    | tasks h => exact .tail ih h
    | calls hne h hwork =>
      rw [hwork]
      exact ih

/-- What a call keeps among the others, with what it does to the work. -/
theorem pre_and {x : SessionCode ι (SessionWork σ κ ν) α}
    {Q₁ Q₂ : Except Raised α → SessionState ι (SessionWork σ κ ν) → Prop}
    (h₁ : pre Environment Guarantee call x Q₁ s)
    (h₂ : wp (Meanwhile act call) (fun _ _ => True) x Q₂ s) :
    pre (Elsewhere act call) (Alone call) () x (fun r u => Q₁ r u ∧ Q₂ r u) s :=
  Coroutine.wp_and (fun _ _ => meanwhile_session) (fun _ _ h => h) (fun _ _ h _ => h) h₁ h₂

/-- What the tasks do meanwhile. -/
abbrev AwaitingWork (act : κ → Bool → σ → Except Raised ν → σ → Prop)
    (work work' : SessionWork σ κ ν) : Prop := Awaiting act work.loop work'.loop

/-- Code of the tasks does in the session what it does alone. -/
theorem wp_tasks {x : Code σ κ ν α} {Q : Except Raised α → EventLoop σ κ ν Raised → Prop}
    (h : wp (Awaiting act) (fun _ _ => True) x Q s.work.loop) :
    wp (Meanwhile act call) (fun _ _ => True) (tasks call x) (fun r s' => Q r s'.work.loop) s := by
  have honLoop : wp (AwaitingWork act) (fun _ _ => True) (onLoop x)
      (fun r work => Q r work.loop) s.work := by
    refine Coroutine.wp_lift_part (R := Awaiting act) ?_ ?_ h
    · exact fun _ _ hR => hR
    · exact fun _ _ => rfl
  refine Coroutine.wp_lift_part (R := AwaitingWork act) ?_ ?_ honLoop
  · exact fun _ _ => meanwhile_loop
  · exact fun _ _ => rfl

end Interference

/-! ## Section 2: Quiet code -/

section Quiet

variable {act : κ → Bool → σ → Except Raised ν → σ → Prop}
  {I : EventLoop σ κ ν Raised → Prop}

/-- What the tasks at work cannot falsify. -/
def Steady (act : κ → Bool → σ → Except Raised ν → σ → Prop)
    (I : EventLoop σ κ ν Raised → Prop) : Prop :=
  ∀ l l', Progress act l l' → I l → I l'

/-- Where no task is at work, nothing changes. -/
theorem steady_of_done (h : ∀ l, I l → AllDone l.tasks) : Steady act I :=
  fun _ _ hprogress hl => absurd hprogress (h _ hl).no_progress

theorem Steady.awaiting (h : Steady act I) {l l' : EventLoop σ κ ν Raised}
    (hawait : Awaiting act l l') (hl : I l) : I l' := by
  induction hawait with
  | refl => exact hl
  | tail _ hprogress ih => exact h _ _ hprogress ih

/-- The other calls cannot falsify it either. -/
theorem Steady.elsewhere (h : Steady act I) {s s' : SessionState ι (SessionWork σ κ ν)}
    (hstep : Elsewhere act call s s') (hs : I s.work.loop) : I s'.work.loop := by
  cases hstep with
  | tasks hprogress => exact h _ _ hprogress hs
  | calls hne hother hwork =>
    rw [hwork]
    exact hs

/-- Code of a session that leaves the work to the tasks. -/
def Quiet (act : κ → Bool → σ → Except Raised ν → σ → Prop) (call : ι)
    (x : SessionCode ι (SessionWork σ κ ν) α) : Prop :=
  ∀ I : EventLoop σ κ ν Raised → Prop, Steady act I →
    Preserves (Meanwhile act call) (fun _ _ => True) (fun s => I s.work.loop) x

theorem quiet_step {w : SessionState ι (SessionWork σ κ ν) → Except Raised α →
      SessionState ι (SessionWork σ κ ν) → Prop}
    (hw : ∀ s r s', w s r s' → s'.work = s.work) : Quiet act call (.step w) := by
  intro I hI s hs r s' h
  refine ⟨trivial, ?_⟩
  show I s'.work.loop
  rw [hw s r s' h]
  exact hs

theorem quiet_await {w : SessionState ι (SessionWork σ κ ν) → Except Raised α →
      SessionState ι (SessionWork σ κ ν) → Prop}
    (hw : ∀ s r s', w s r s' → s'.work = s.work) : Quiet act call (.await w) := by
  intro I hI s hs v hv r s' h
  refine ⟨trivial, ?_⟩
  show I s'.work.loop
  rw [hw v r s' h]
  exact hI.awaiting (meanwhile_loop hv) hs

theorem Quiet.bind {β : Type} {x : SessionCode ι (SessionWork σ κ ν) α}
    {f : α → SessionCode ι (SessionWork σ κ ν) β} (hx : Quiet act call x)
    (hf : ∀ a, Quiet act call (f a)) : Quiet act call (x >>= f) :=
  fun I hI => (hx I hI).bind fun a => hf a I hI

theorem Quiet.tryCatch {x : SessionCode ι (SessionWork σ κ ν) α}
    {handler : Raised → SessionCode ι (SessionWork σ κ ν) α} (hx : Quiet act call x)
    (hhandler : ∀ e, Quiet act call (handler e)) : Quiet act call (MonadExcept.tryCatch x handler) :=
  fun I hI => (hx I hI).tryCatch fun e => hhandler e I hI

theorem Quiet.attempt {x : SessionCode ι (SessionWork σ κ ν) α} (hx : Quiet act call x) :
    Quiet act call (Coroutine.attempt x) :=
  fun I hI => (hx I hI).attempt

theorem Quiet.ite {c : Prop} [Decidable c] {x y : SessionCode ι (SessionWork σ κ ν) α}
    (hx : Quiet act call x) (hy : Quiet act call y) : Quiet act call (if c then x else y) :=
  fun I hI => (hx I hI).ite (hy I hI)

theorem quiet_pure {a : α} : Quiet (ι := ι) act call (pure a) := fun _ _ => .pure

theorem quiet_throw {e : Raised} :
    Quiet (ι := ι) act call (throw e : SessionCode ι (SessionWork σ κ ν) α) := fun _ _ => .throw

theorem quiet_readState : Quiet (ι := ι) act call readState :=
  quiet_step fun _ _ _ h => by rw [h.2]

theorem quiet_note {entry : Entry ι} : Quiet act call (note entry) :=
  quiet_step fun _ _ _ h => by
    rw [h.2]
    rfl

theorem quiet_rejectNonRunning : Quiet (ι := ι) act call rejectNonRunning := by
  refine quiet_readState.bind fun phase => ?_
  cases phase with
  | running => exact quiet_pure
  | created => exact quiet_throw
  | closing => exact quiet_throw
  | closed => exact quiet_throw
  | failed => exact quiet_throw

theorem quiet_newEvent {eventType : SandboxEventType} {operationId : Option OperationId}
    {operationKind : Option OperationKind} {attributes : List EventAttribute} :
    Quiet act call (newEvent call eventType operationId operationKind attributes) := by
  apply quiet_step
  rintro s r s' ⟨now, event, -, -, rfl⟩
  rfl

theorem quiet_emitEvent {event : SessionEvent} {closeTimeout : Bool} :
    Quiet act call (emitEvent call event closeTimeout) := by
  refine Quiet.bind (quiet_step fun _ _ _ h => by rw [h.2]) fun _ => .ite quiet_throw ?_
  refine Quiet.tryCatch (quiet_await ?_) fun e => ?_
  · rintro s r s' (⟨-, rfl⟩ | ⟨-, rfl⟩)
    · rfl
    · rfl
  · cases e with
    | cancelledError => exact quiet_throw
    | exit => exact quiet_throw
    | error e => exact quiet_throw.ite quiet_throw

theorem quiet_emitTerminal {op : Operation ι (SessionWork σ κ ν) α} {operationId : OperationId}
    {eventType : SandboxEventType} {attributes : List EventAttribute} :
    Quiet act call (emitTerminal call op operationId eventType attributes) :=
  quiet_newEvent.bind fun _ => quiet_emitEvent

theorem wp_completeOperation (op : Operation ι (SessionWork σ κ ν) α) {operationId : OperationId}
    {outcome : OperationOutcome α} {s : SessionState ι (SessionWork σ κ ν)}
    (hI : Steady act I) (h : I s.work.loop) :
    wp (Meanwhile act call) (fun _ _ => True) (completeOperation call op operationId outcome)
      (ends (fun value s' => value = outcome ∧ I s'.work.loop) fun _ s' => I s'.work.loop) s := by
  show wp _ _ (if op.completedResultIsAuthoritative = true then _ else _) _ s
  by_cases hauthoritative : op.completedResultIsAuthoritative = true
  · rw [if_pos hauthoritative]
    have hshielded : Quiet act call (awaitDespiteNativeCancellation (emitTerminal call op operationId
        .operationCompleted
        [⟨py "workspace_revision", .int outcome.metadata.workspaceRevision, .internal⟩])) :=
      Quiet.bind (quiet_await fun _ _ _ h => by rw [h.2]) fun _ => quiet_emitTerminal
    exact (hshielded I hI).andThen h (fun e s' hs' => hs') fun _ s' hs' => ⟨rfl, hs'⟩
  · rw [if_neg hauthoritative]
    exact (quiet_emitTerminal I hI).andThen h (fun e s' hs' => hs') fun _ s' hs' => ⟨rfl, hs'⟩

theorem wp_failOperation {β : Type} (op : Operation ι (SessionWork σ κ ν) α)
    {operationId : OperationId} {e : Raised} {s : SessionState ι (SessionWork σ κ ν)}
    (hI : Steady act I) (h : I s.work.loop) :
    wp (Meanwhile act call) (fun _ _ => True)
      (failOperation call op operationId e : SessionCode ι (SessionWork σ κ ν) β)
      (fun r s' => (∃ e', r = .error e') ∧ I s'.work.loop) s := by
  unfold failOperation
  cases terminalFor (some e) with
  | none => exact ⟨⟨e, rfl⟩, h⟩
  | some eventType =>
    apply wp_bind.mpr
    apply Coroutine.wp_attempt
    apply Coroutine.wp_mono (quiet_emitTerminal I hI s h)
    intro r s' hs'
    match r with
    | .ok () => exact ⟨⟨_, rfl⟩, hs'⟩
    | .error .cancelledError => exact ⟨⟨_, rfl⟩, hs'⟩
    | .error .exit => exact ⟨⟨_, rfl⟩, hs'⟩
    | .error (.error terminalError) =>
      show wp _ _ (if e = .cancelledError ∧ terminalError.cls.isSandboxError = true then _ else _) _ s'
      by_cases hcancelled : e = .cancelledError ∧ terminalError.cls.isSandboxError = true
      · rw [if_pos hcancelled]
        exact ⟨⟨_, rfl⟩, hs'⟩
      · rw [if_neg hcancelled]
        exact ⟨⟨_, rfl⟩, hs'⟩

end Quiet

/-! ## Section 3: The rule for operations -/

/-- The clock has gone back between the start of an operation and its end. -/
def clockBackwards : Raised := .of .valueError (py "completed_at must not be before started_at")

/-- What is raised where the event about a committed value is not accepted. -/
def reportFailed (kind : OperationKind) : Raised → Prop
  | .error e => e = ⟨.sessionEventDeliveryFailed,
      py "required post-commit event delivery failed for " ++ kind.value⟩
  | _ => True

/-- How an operation may still fail once its action is done. -/
def FailsLate (op : Operation ι (SessionWork σ κ ν) α) (e : Raised) : Prop :=
  e = clockBackwards ∨ op.postCommitEvent ≠ none ∧ reportFailed op.kind e

/-- What the parts of an operation do to the work: it is `idle` at the start,
    the action makes it from `ready` to `done` with its value, and whatever
    raises leaves it `intact`. -/
structure WorkContract (act : κ → Bool → σ → Except Raised ν → σ → Prop) (call : ι)
    (op : Operation ι (SessionWork σ κ ν) α) (idle ready intact : EventLoop σ κ ν Raised → Prop)
    (done : α → EventLoop σ κ ν Raised → Prop) : Prop where
  steady_idle : Steady act idle
  steady_ready : Steady act ready
  steady_intact : Steady act intact
  steady_done : ∀ a, Steady act (done a)
  intact_of_idle : ∀ l, idle l → intact l
  intact_of_ready : ∀ l, ready l → intact l
  normalize : ∀ s, idle s.work.loop → wp (Meanwhile act call) (fun _ _ => True)
    (working call op.normalize)
    (ends (fun _ s' => ready s'.work.loop) fun _ s' => intact s'.work.loop) s
  evaluate : ∀ operationId s, ready s.work.loop → wp (Meanwhile act call) (fun _ _ => True)
    (working call (op.evaluate operationId)) (fun _ s' => ready s'.work.loop) s
  action : ∀ operationId s, ready s.work.loop → wp (Meanwhile act call) (fun _ _ => True)
    (op.action call operationId)
    (ends (fun result s' => done result.1 s'.work.loop) fun _ s' => intact s'.work.loop) s

section Rule

variable {act : κ → Bool → σ → Except Raised ν → σ → Prop}
  {op : Operation ι (SessionWork σ κ ν) α} {idle ready intact : EventLoop σ κ ν Raised → Prop}
  {done : α → EventLoop σ κ ν Raised → Prop} {s : SessionState ι (SessionWork σ κ ν)}

theorem wp_beginOperation (hop : WorkContract act call op idle ready intact done)
    (h : idle s.work.loop) :
    wp (Meanwhile act call) (fun _ _ => True) (beginOperation call op)
      (ends (fun _ s' => ready s'.work.loop) fun _ s' => intact s'.work.loop) s := by
  have hidle := fun {β : Type} {x : SessionCode ι _ β} (hx : Quiet act call x) =>
    hx idle hop.steady_idle
  have hready := fun {β : Type} {x : SessionCode ι _ β} (hx : Quiet act call x) =>
    hx ready hop.steady_ready
  apply (hidle quiet_rejectNonRunning).andThen h fun e u hu => hop.intact_of_idle _ hu
  intro _ s₁ hs₁
  apply (hidle quiet_note).andThen hs₁ fun e u hu => hop.intact_of_idle _ hu
  intro _ s₂ hs₂
  apply wp_bind.mpr
  apply Coroutine.wp_mono (hop.normalize s₂ hs₂)
  intro r s₃ hs₃
  cases r with
  | error e => exact hs₃
  | ok =>
    have hraise : ∀ e (u : SessionState ι (SessionWork σ κ ν)), ready u.work.loop →
        ends (fun (_ : OperationId × Int) (s' : SessionState ι (SessionWork σ κ ν)) =>
          ready s'.work.loop) (fun (_ : Raised) s' => intact s'.work.loop) (.error e) u :=
      fun e u hu => hop.intact_of_ready _ hu
    apply (hready (quiet_step fun _ _ _ h => by rw [h.2])).andThen hs₃ hraise
    intro _ s₄ hs₄
    apply (hready (quiet_step fun _ _ _ h => by rw [h.1])).andThen hs₄ hraise
    intro operationId s₅ hs₅
    apply (hready (quiet_step fun _ _ _ h => by rw [h.2])).andThen hs₅ hraise
    intro startedAt s₆ hs₆
    apply (hready quiet_newEvent).andThen hs₆ hraise
    intro event s₇ hs₇
    apply (hready quiet_emitEvent).andThen hs₇ hraise
    exact fun _ s₈ hs₈ => hs₈

/-- How far an operation has come when it goes on to its report. -/
inductive Performed (late : Raised → Prop) (intact : EventLoop σ κ ν Raised → Prop)
    (done : α → EventLoop σ κ ν Raised → Prop) (l : EventLoop σ κ ν Raised) :
    Except Raised (OperationOutcome α) → Prop where
  | returned {outcome : OperationOutcome α} (h : done outcome.value l) :
      Performed late intact done l (.ok outcome)
  | raised {e : Raised} (h : intact l) : Performed late intact done l (.error e)
  | late {value : α} {e : Raised} (h : done value l)
      (hlate : late e) : Performed late intact done l (.error e)

theorem resultMetadata_error {operationId : OperationId} {revision : Revision}
    {startedAt completedAt : Int} {e : Raised}
    (h : resultMetadata operationId revision startedAt completedAt = .error e) :
    e = clockBackwards := by
  unfold resultMetadata at h
  by_cases hle : startedAt ≤ completedAt
  · rw [dif_pos hle] at h
    exact nomatch h
  · rw [dif_neg hle] at h
    exact (Except.error.inj h).symm

/-- Whatever the report of a committed value raises, it leaves the work alone. -/
theorem wp_emitPostCommit {I : EventLoop σ κ ν Raised → Prop} {operationId : OperationId} {value : α}
    {revision : Revision} (hI : Steady act I) (h : I s.work.loop) :
    wp (Meanwhile act call) (fun _ _ => True) (emitPostCommit call op operationId value revision)
      (ends (fun _ s' => I s'.work.loop) fun e s' => I s'.work.loop ∧ FailsLate op e) s := by
  unfold emitPostCommit
  cases hpost : op.postCommitEvent with
  | none => exact h
  | some describe =>
    have hreports : op.postCommitEvent ≠ none := by
      rw [hpost]
      exact Option.some_ne_none _
    have hnew : wp (Meanwhile act call) (fun _ _ => True)
        (newEvent call (describe value revision).1 (some operationId) (some op.kind)
          (describe value revision).2)
        (ends (fun _ s' => I s'.work.loop) fun _ _ => False) s := by
      rintro r s' ⟨now, event, -, rfl, rfl⟩
      exact ⟨trivial, h⟩
    apply wp_bind.mpr
    apply Coroutine.wp_mono hnew
    intro r s₁ hs₁
    cases r with
    | error e => exact hs₁.elim
    | ok event =>
      apply wp_tryCatch.mpr
      apply Coroutine.wp_mono (quiet_emitEvent I hI s₁ hs₁)
      intro r s₂ hs₂
      cases r with
      | ok => exact hs₂
      | error e =>
        cases e with
        | cancelledError => exact ⟨hs₂, .inr ⟨hreports, trivial⟩⟩
        | exit => exact ⟨hs₂, .inr ⟨hreports, trivial⟩⟩
        | error e => exact ⟨hs₂, .inr ⟨hreports, rfl⟩⟩

theorem wp_performOperation {operationId : OperationId} {startedAt : Int}
    (hop : WorkContract act call op idle ready intact done) (h : ready s.work.loop) :
    wp (Meanwhile act call) (fun _ _ => True) (performOperation call op operationId startedAt)
      (fun r s' => Performed (FailsLate op) intact done s'.work.loop r) s := by
  have hready := fun {β : Type} {x : SessionCode ι _ β} (hx : Quiet act call x) =>
    hx ready hop.steady_ready
  have hraise : ∀ e (u : SessionState ι (SessionWork σ κ ν)), ready u.work.loop →
      Performed (FailsLate op) intact done u.work.loop (.error e) :=
    fun e u hu => .raised (hop.intact_of_ready _ hu)
  apply (hready (quiet_step fun _ _ _ h => by rw [h.2])).andThen h hraise
  intro _ s₁ hs₁
  apply wp_bind.mpr
  apply Coroutine.wp_mono (hop.evaluate operationId s₁ hs₁)
  intro r s₂ hs₂
  cases r with
  | error e => exact hraise e s₂ hs₂
  | ok decision =>
    apply wp_bind.mpr
    apply Coroutine.wp_ofExcept
    cases validatePolicyDecision decision op.limits with
    | error e => exact hraise e s₂ hs₂
    | ok decision =>
      show wp _ _ (if decision.allowed = false then _ else _) _ s₂
      by_cases hdenied : decision.allowed = false
      · rw [if_pos hdenied]
        exact hraise _ s₂ hs₂
      · rw [if_neg hdenied]
        apply (hready (quiet_step fun _ _ _ h => by rw [h.2])).andThen hs₂ hraise
        intro _ s₃ hs₃
        apply wp_bind.mpr
        apply Coroutine.wp_mono (hop.action operationId s₃ hs₃)
        intro r s₄ hs₄
        cases r with
        | error e => exact .raised hs₄
        | ok value =>
          -- the action is done, and only the clock and the report can fail now
          have hs₄ : done value.1 s₄.work.loop := hs₄
          apply wp_bind.mpr
          rintro r s₅ ⟨⟨completedAt, rfl⟩, rfl⟩
          refine ⟨trivial, ?_⟩
          apply wp_bind.mpr
          apply Coroutine.wp_ofExcept
          cases hmetadata : resultMetadata operationId value.2 startedAt completedAt with
          | error e => exact .late hs₄ (.inl (resultMetadata_error hmetadata))
          | ok metadata =>
            apply wp_bind.mpr
            apply Coroutine.wp_mono (wp_emitPostCommit (hop.steady_done value.1) hs₄)
            intro r s₆ hs₆
            cases r with
            | ok => exact .returned hs₆
            | error e => exact .late hs₆.1 hs₆.2

/-- What an operation has come to when it gives the gate back, in its turn. -/
inductive OperationEnd (late : Raised → Prop) (intact : EventLoop σ κ ν Raised → Prop)
    (done : α → EventLoop σ κ ν Raised → Prop) (t : Turn ι) (l : EventLoop σ κ ν Raised) :
    Except Raised α → Prop where
  | returned {value : α} (h : done value l) : OperationEnd late intact done t l (.ok value)
  | raised {e : Raised} (h : intact l) : OperationEnd late intact done t l (.error e)
  /-- The sink has not accepted the report of the completed operation. -/
  | unreported {value : α} {e : Raised} (h : done value l) (hfinished : t.finished = some none)
      (hpending : t.pending ≠ none) : OperationEnd late intact done t l (.error e)
  | late {value : α} {e failure : Raised} (h : done value l)
      (hfinished : t.finished = some (some failure))
      (hlate : late failure) :
      OperationEnd late intact done t l (.error e)

/-- The value that a caller gets. -/
def valueOf (r : Except Raised (OperationOutcome α)) : Except Raised α :=
  r.map OperationOutcome.value

/-- The operation has ended so, and still has the gate. -/
def OperationSettled (call : ι) (late : Raised → Prop) (intact : EventLoop σ κ ν Raised → Prop)
    (done : α → EventLoop σ κ ν Raised → Prop) (r : Except Raised α)
    (s : SessionState ι (SessionWork σ κ ν)) : Prop :=
  Holds call .nothing (fun t => OperationEnd late intact done t s.work.loop r) s

theorem steady_performed (hop : WorkContract act call op idle ready intact done)
    (r : Except Raised (OperationOutcome α)) :
    Steady act fun l => Performed (FailsLate op) intact done l r := by
  intro l l' hprogress h
  cases h with
  | returned h => exact .returned (hop.steady_done _ _ _ hprogress h)
  | raised h => exact .raised (hop.steady_intact _ _ hprogress h)
  | late h hlate => exact .late (hop.steady_done _ _ _ hprogress h) hlate

theorem OperationEnd.steady (hop : WorkContract act call op idle ready intact done) {t : Turn ι}
    (r : Except Raised α) : Steady act fun l => OperationEnd (FailsLate op) intact done t l r := by
  intro l l' hprogress h
  cases h with
  | returned h => exact .returned (hop.steady_done _ _ _ hprogress h)
  | raised h => exact .raised (hop.steady_intact _ _ hprogress h)
  | unreported h hfinished hpending =>
    exact .unreported (hop.steady_done _ _ _ hprogress h) hfinished hpending
  | late h hfinished hlate => exact .late (hop.steady_done _ _ _ hprogress h) hfinished hlate

end Rule

section Whole

variable {act : κ → Bool → σ → Except Raised ν → σ → Prop}
  {op : OrderlyOperation ι (SessionWork σ κ ν) α}
  {idle ready intact : EventLoop σ κ ν Raised → Prop}
  {done : α → EventLoop σ κ ν Raised → Prop} {s : SessionState ι (SessionWork σ κ ν)}

/-- An operation that holds the gate, among other calls that do not. -/
theorem pre_operationWork (hop : WorkContract act call op.toOperation idle ready intact done)
    (hs : Holds call .nothing (fun t => t = .start call) s) (hidle : idle s.work.loop) :
    pre (Elsewhere act call) (Alone call) () (operationHolding call op.toOperation)
      (fun r s' => OperationSettled call (FailsLate op.toOperation) intact done (valueOf r) s') s := by
  apply wp_bind.mpr
  apply wp_tryCatch.mpr
  apply Coroutine.wp_mono (pre_and (pre_beginOperation hs) (wp_beginOperation hop hidle))
  rintro r s₁ ⟨hs₁, hwork₁⟩
  cases r with
  | error e => exact hs₁.mono fun t _ => .raised hwork₁
  | ok begun =>
    apply wp_bind.mpr
    apply Coroutine.wp_attempt
    apply Coroutine.wp_mono (pre_and (pre_performOperation hs₁) (wp_performOperation hop hwork₁))
    rintro result s₂ ⟨hs₂, hperformed₂⟩
    -- the work is left to the tasks until the gate is given back
    have hI := steady_performed hop result
    have hnoted : pre Environment Guarantee call (note (.finished call (failureOf result)))
        (ends (fun _ => Holds call .notClosed (Ending begun.1 (failureOf result))) fun _ _ => False)
        s₂ := pre_noteFinished hs₂ fun s' hs' => hs'
    apply wp_bind.mpr
    apply Coroutine.wp_mono (pre_and hnoted (quiet_note _ hI s₂ hperformed₂))
    rintro r s₃ ⟨hs₃, hwork₃⟩
    cases r with
    | error e => exact hs₃.elim
    | ok =>
      cases result with
      | ok outcome =>
        apply Coroutine.wp_mono (pre_and (pre_completeOperation hs₃)
          (wp_completeOperation op.toOperation hI hwork₃))
        rintro r s₄ ⟨hs₄, hwork₄⟩
        cases r with
        | ok value =>
          obtain ⟨rfl, hperformed₄⟩ := hwork₄
          refine hs₄.mono fun t ht => ?_
          cases hperformed₄ with
          | returned hdone => exact .returned hdone
        | error e =>
          have hperformed₄ : Performed (FailsLate op.toOperation) intact done s₄.work.loop (.ok outcome) := hwork₄
          refine hs₄.mono fun t ht => ?_
          cases hperformed₄ with
          | returned hdone => exact .unreported hdone ht.1.1 (ht.2 e rfl)
      | error e =>
        apply Coroutine.wp_mono (pre_and (pre_failOperation hs₃)
          (wp_failOperation op.toOperation hI hwork₃))
        rintro r s₄ ⟨hs₄, ⟨e', rfl⟩, hperformed₄⟩
        refine hs₄.mono fun t ht => ?_
        cases hperformed₄ with
        | raised hintact => exact .raised hintact
        | late hdone hlate => exact .late hdone ht.2 hlate

end Whole

/-! ## Section 4: Runs of an operation -/

section Runs

/-- An operation from its turn at the gate on, for a caller that keeps the result. -/
def answered {ω : Type} (call : ι) (op : Operation ι ω α) (keep : α → ω → ω) :
    SessionCode ι ω Unit := do
  .await fun s r s' => r = .ok () ∧ s' = s
  let outcome ← operationHolding call op
  updateWork (keep outcome.value)

/-- Its runs, among the other calls and the tasks. -/
def turnSystem (act : κ → Bool → σ → Except Raised ν → σ → Prop) (call : ι)
    (op : Operation ι (SessionWork σ κ ν) α)
    (keep : α → SessionWork σ κ ν → SessionWork σ κ ν) (s₀ : SessionState ι (SessionWork σ κ ν)) :=
  Coroutine.system (Elsewhere act call) (fun s => s = s₀) fun _ : Unit => answered call op keep

/-- How its turn ends: `kept` is what `keep` makes of `done`. -/
def TurnEnd (call : ι) (late : Raised → Prop) (intact : EventLoop σ κ ν Raised → Prop)
    (done kept : α → EventLoop σ κ ν Raised → Prop) :
    Except Raised Unit → SessionState ι (SessionWork σ κ ν) → Prop :=
  ends (fun _ s => ∃ value, kept value s.work.loop)
    fun e s => OperationSettled call late intact done (.error e) s

theorem TurnEnd.mono {late late' : Raised → Prop} {intact : EventLoop σ κ ν Raised → Prop}
    {done kept : α → EventLoop σ κ ν Raised → Prop} {r : Except Raised Unit}
    {s : SessionState ι (SessionWork σ κ ν)} (h : TurnEnd call late intact done kept r s)
    (himp : ∀ e, late e → late' e) : TurnEnd call late' intact done kept r s := by
  cases r with
  | ok => exact h
  | error e =>
    have h : OperationSettled call late intact done (.error e) s := h
    refine h.mono fun t ht => ?_
    cases ht with
    | raised h => exact .raised h
    | unreported h hfinished hpending => exact .unreported h hfinished hpending
    | late h hfinished hlate => exact .late h hfinished (himp _ hlate)

variable {act : κ → Bool → σ → Except Raised ν → σ → Prop}
  {op : OrderlyOperation ι (SessionWork σ κ ν) α}
  {idle ready intact : EventLoop σ κ ν Raised → Prop}
  {done kept : α → EventLoop σ κ ν Raised → Prop}
  {keep : α → SessionWork σ κ ν → SessionWork σ κ ν} {s₀ : SessionState ι (SessionWork σ κ ν)}

theorem turnEnd_stable (hop : WorkContract act call op.toOperation idle ready intact done)
    (hkept : ∀ a, Steady act (kept a)) (r : Except Raised Unit) :
    Stable (Elsewhere act call) (Alone call) ()
      (TurnEnd call (FailsLate op.toOperation) intact done kept r) := by
  intro s s' hother h
  have hstep : Elsewhere act call s s' := Elsewhere.other hother
  cases r with
  | ok =>
    obtain ⟨value, hvalue⟩ := h
    exact ⟨value, (hkept value).elsewhere hstep hvalue⟩
  | error e =>
    have h : OperationSettled call (FailsLate op.toOperation) intact done (.error e) s := h
    have hholds := holds_stable s s' hstep.session h
    exact hholds.mono fun t ht => (OperationEnd.steady hop _).elsewhere hstep ht

theorem pre_answered (hop : WorkContract act call op.toOperation idle ready intact done)
    (hkeep : ∀ a work, done a work.loop → kept a (keep a work).loop)
    (hturn : Holds call .nothing (fun t => t = .start call) s₀) (hidle : idle s₀.work.loop) :
    pre (Elsewhere act call) (Alone call) () (answered call op.toOperation keep)
      (TurnEnd call (FailsLate op.toOperation) intact done kept) s₀ := by
  apply wp_bind.mpr
  rintro v hv r v' ⟨rfl, rfl⟩
  refine ⟨.refl call _, ?_⟩
  have hholds : Holds call .nothing (fun t => t = .start call) v' :=
    holds_stable.rely (meanwhile_session hv) hturn
  have hidle : idle v'.work.loop := hop.steady_idle.awaiting (meanwhile_loop hv) hidle
  apply wp_bind.mpr
  apply Coroutine.wp_mono (pre_operationWork hop hholds hidle)
  intro r s₁ hs₁
  cases r with
  | error e => exact hs₁
  | ok outcome =>
    rintro r s₂ ⟨rfl, rfl⟩
    have hs₁ : OperationSettled call (FailsLate op.toOperation) intact done (.ok outcome.value) s₁ := hs₁
    obtain ⟨t, -, -, hend⟩ := hs₁.hasTurn
    refine ⟨(hs₁.of_work _).1, outcome.value, ?_⟩
    cases hend with
    | returned h => exact hkeep _ _ h

/-- In every run of an operation, its end is as its contract says. -/
theorem turnEnd_of_reachable (hop : WorkContract act call op.toOperation idle ready intact done)
    (hkept : ∀ a, Steady act (kept a))
    (hkeep : ∀ a work, done a work.loop → kept a (keep a work).loop)
    (hturn : Holds call .nothing (fun t => t = .start call) s₀) (hidle : idle s₀.work.loop)
    {c : Coroutine.Config Unit (SessionState ι (SessionWork σ κ ν)) Raised} {r : Except Raised Unit}
    (hreach : (turnSystem act call op.toOperation keep s₀).Reachable c)
    (hended : Coroutine.Ended (c.code ()) r) :
    TurnEnd call (FailsLate op.toOperation) intact done kept r c.shared := by
  have hpre : ∀ s, s = s₀ → pre (Elsewhere act call) (Alone call) ()
      (answered call op.toOperation keep)
      (TurnEnd call (FailsLate op.toOperation) intact done kept) s := by
    intro s hs
    rw [hs]
    exact pre_answered hop hkeep hturn hidle
  have hverified := Coroutine.verified_of_reachable (fun _ r => turnEnd_stable hop hkept r)
    (fun _ => .bind .await) (fun _ => hpre) hreach
  have hend := (hverified ()).1
  rw [hended] at hend
  cases r with
  | ok => exact hend
  | error e => exact hend

open Coroutine (Runs) in
/-- A call that finds in its turn that it is cancelled. -/
theorem turn_cancelled {op : Operation ι (SessionWork σ κ ν) α} (hrunning : s₀.state = .running)
    (hnormalize : ∃ r s₁, Runs (working call op.normalize) (s₀.record (.admitted call)) r s₁) :
    ∃ c e, (turnSystem act call op keep s₀).Reachable c ∧
      Coroutine.Ended (c.code ()) (.error e) := by
  obtain ⟨r, s₁, hnormalize⟩ := hnormalize
  have hread : Runs rejectNonRunning s₀ (.ok ()) s₀ := by
    refine .bind (a := s₀.state) (.step ⟨rfl, rfl⟩) ?_
    rw [hrunning]
    exact .ret
  have hnote : Runs (note (.admitted call)) s₀ (.ok ()) (s₀.record (.admitted call)) := .step ⟨rfl, rfl⟩
  have hbegin : ∃ e, Runs (beginOperation call op) s₀ (.error e) s₁ := by
    cases r with
    | error e => exact ⟨e, .bind hread (.bind hnote (.bindRaise hnormalize))⟩
    | ok =>
      have hcheck : Runs checkCancellation s₁ (.error operationCancelled) s₁ := .step ⟨.inr rfl, rfl⟩
      exact ⟨_, .bind hread (.bind hnote (.bind hnormalize (.bindRaise hcheck)))⟩
  obtain ⟨e, hbegin⟩ := hbegin
  have hhold : Runs (operationHolding call op) s₀ (.error (operationFailure e)) s₁ :=
    .bindRaise (.tryRaise hbegin .raise)
  have hruns : Runs (answered call op keep) s₀ (.error (operationFailure e)) s₁ :=
    .bind (.await ⟨rfl, rfl⟩) (.bindRaise hhold)
  obtain ⟨c, hreach, hended, -⟩ : ∃ c, (turnSystem act call op keep s₀).Reachable c ∧
      Coroutine.Ended (c.code ()) (.error (operationFailure e)) ∧ c.shared = s₁ :=
    Coroutine.ended_of_runs rfl rfl hruns
  exact ⟨c, _, hreach, hended⟩

end Runs

end SandboxSession
