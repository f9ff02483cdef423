import MemSandbox.Session.Operations

/-! # The protocol of a session

    What every entry of the history may rely on, given the entries before it:
    who holds the gate, which phase the session is in, and which event is due.

    * **Section 1** the gate, turn by turn, and the phase, read off the history;
    * **Section 2** the rules of the entries;
    * **Section 3** the invariant, and what a call guarantees to the others. -/

namespace SandboxSession

variable {ι ω α : Type}

/-! ## Section 1: Turns and phases -/

/-- A turn at the gate, as far as it has come. -/
structure Turn (ι : Type) where
  call : ι
  admitted : Bool
  /-- The first event of the turn, and whether the sink accepted it. -/
  opening : Option SessionEvent
  delivered : Bool
  /-- The number of the last event, until the sink accepts it. -/
  pending : Option Nat
  finished : Option (Option Raised)
  terminal : Bool

/-- The start of a turn. -/
def Turn.start (call : ι) : Turn ι := ⟨call, false, none, false, none, none, false⟩

/-- The turn after one of its entries. -/
def Turn.note (t : Turn ι) : Entry ι → Turn ι
  | .admitted _ => { t with admitted := true }
  | .created _ event =>
    { t with
      opening := if event.eventType.opens then some event else t.opening
      pending := some event.sequence
      terminal := t.terminal || event.eventType.isTerminal }
  | .delivered _ sequence =>
    { t with
      delivered := t.delivered || t.opening.any (·.sequence = sequence)
      pending := none }
  | .finished _ failure => { t with finished := some failure }
  | _ => t

/-- The turn after an entry; `none` while nobody holds the gate. -/
def turnAfter : Option (Turn ι) → Entry ι → Option (Turn ι)
  | _, .acquired call => some (.start call)
  | _, .released _ => none
  | t, entry => t.map fun t => t.note entry

/-- The turn that a history has come to. -/
def turn (history : List (Entry ι)) : Option (Turn ι) := history.foldl turnAfter none

/-- The phase after an entry. -/
def phaseAfter : Phase → Entry ι → Phase
  | _, .moved _ phase => phase
  | phase, _ => phase

/-- The phase that a history has come to. -/
def phaseOf (history : List (Entry ι)) : Phase := history.foldl phaseAfter .created

/-- Whether an entry creates an event. -/
def Entry.isCreated : Entry ι → Bool
  | .created _ _ => true
  | _ => false

/-- How many events there have been. -/
def createdCount (history : List (Entry ι)) : Nat := history.countP Entry.isCreated

/-- Whether somebody has asked to close the session. -/
def CloseRequested (history : List (Entry ι)) : Prop := ∃ call, .closeRequested call ∈ history

theorem turn_concat {history : List (Entry ι)} {entry : Entry ι} :
    turn (history ++ [entry]) = turnAfter (turn history) entry := by
  simp [turn]

theorem phaseOf_concat {history : List (Entry ι)} {entry : Entry ι} :
    phaseOf (history ++ [entry]) = phaseAfter (phaseOf history) entry := by
  simp [phaseOf]

theorem createdCount_concat {history : List (Entry ι)} {entry : Entry ι} :
    createdCount (history ++ [entry]) =
      createdCount history + if entry.isCreated then 1 else 0 := by
  simp [createdCount, List.countP_append, List.countP_singleton]

/-! ## Section 2: Rules -/

/-- The call has the gate, and its turn has come so far. -/
def HasTurn (before : List (Entry ι)) (call : ι) (P : Turn ι → Prop) : Prop :=
  ∃ t, turn before = some t ∧ t.call = call ∧ P t

/-- The event of a turn that opened it, accepted by the sink. -/
def Opened (t : Turn ι) (eventType : SandboxEventType) (operationId : Option OperationId) : Prop :=
  ∃ event, t.opening = some event ∧ event.eventType = eventType ∧
    event.operationId = operationId ∧ t.delivered = true

/-- When the phase may change. -/
def MoveRule (before : List (Entry ι)) (call : ι) : Phase → Prop
  | .created => False
  | .running => phaseOf before = .created ∧ ¬ CloseRequested before ∧
      HasTurn before call fun t => Opened t .sandboxStarted none
  | .closing => phaseOf before ≠ .closed ∧ .closeRequested call ∈ before
  | .closed => CloseRequested before ∧ HasTurn before call fun _ => True
  | .failed => phaseOf before ≠ .closed ∧ HasTurn before call fun _ => True

/-- The gate and the phases. -/
def LifecycleRule (before : List (Entry ι)) : Entry ι → Prop
  | .acquired _ => turn before = none
  | .released call => HasTurn before call fun _ => True
  | .admitted call => phaseOf before = .running ∧ HasTurn before call fun _ => True
  | .worked call => HasTurn before call fun t => t.admitted = true
  | .moved call phase => MoveRule before call phase
  | _ => True

/-- When an event may be created in a turn. -/
def Due (t : Turn ι) (event : SessionEvent) : Prop :=
  match event.eventType with
  | .sandboxStarted => t.opening = none ∧ event.operationId = none
  | .sandboxClosing | .sandboxClosed => t.opening = none ∧ event.operationId = none
  | .operationStarted => t.opening = none ∧ t.admitted = true ∧ event.operationId ≠ none
  | .sandboxFailed => event.operationId = none ∧ t.finished = none ∧
      ∃ operationId, Opened t .operationStarted operationId
  | .snapshotCreated | .snapshotRestored => event.operationId ≠ none ∧ t.finished = none ∧
      Opened t .operationStarted event.operationId
  | _ => event.operationId ≠ none ∧ Opened t .operationStarted event.operationId ∧
      t.terminal = false ∧ ∃ failure, t.finished = some failure ∧
        terminalFor failure = some event.eventType

/-- A turn that is complete: an operation that reported its start has reported
    its end, unless it was left by one of the exits. -/
def Complete (t : Turn ι) : Prop :=
  ∀ operationId, Opened t .operationStarted operationId →
    ∃ failure, t.finished = some failure ∧ (failure = some .exit ∨ t.terminal = true)

/-- The events. -/
def EventRule (before : List (Entry ι)) : Entry ι → Prop
  | .created call event =>
    event.sequence = createdCount before + 1 ∧ HasTurn before call fun t => Due t event
  | .delivered call sequence => HasTurn before call fun t => t.pending = some sequence
  | .finished call _ => HasTurn before call fun t => t.finished = none ∧
      ∃ operationId, Opened t .operationStarted operationId
  | .released call => HasTurn before call Complete
  | _ => True

/-! ## Section 3: Invariant and guarantee -/

/-- What holds of a session between any two of its steps. -/
structure SessionInvariant (s : SessionState ι ω) : Prop where
  lifecycle : Justified LifecycleRule s.history
  events : Justified EventRule s.history
  locked : s.locked = (turn s.history).isSome
  sequence : s.eventSequence = createdCount s.history
  phase : s.state = phaseOf s.history
  requested : s.closeTask ≠ none → CloseRequested s.history
  ending : CloseRequested s.history → s.state ≠ .created ∧ s.state ≠ .running

theorem sessionInvariant_new (work : ω) : SessionInvariant (SessionState.new work : SessionState ι ω) where
  lifecycle := justified_nil
  events := justified_nil
  locked := rfl
  sequence := rfl
  phase := rfl
  requested := fun h => absurd rfl h
  ending := by
    rintro ⟨call, hcall⟩
    exact absurd hcall List.not_mem_nil

/-- A step of a call: the history grows; a turn that is not its own stays as it
    is, and so does the phase then, unless it becomes `closing`; and without a
    turn of its own the call leaves the work alone. -/
structure StepOf (call : ι) (s s' : SessionState ι ω) : Prop where
  invariant : SessionInvariant s'
  grows : s.history <+: s'.history
  turns : ∀ t : Turn ι, t.call ≠ call → (turn s'.history = some t ↔ turn s.history = some t)
  phase : ∀ t : Turn ι, t.call ≠ call → turn s.history = some t →
    s'.state = s.state ∨ s'.state = .closing
  work : (∀ t, turn s.history = some t → t.call ≠ call) → s'.work = s.work

/-- What a call leaves to the others. -/
def Guarantee (call : ι) (s s' : SessionState ι ω) : Prop := SessionInvariant s → StepOf call s s'

/-- What happens while nothing runs: the tasks go on. -/
def Environment (s s' : SessionState ι ω) : Prop := ∃ work, s' = { s with work }

theorem Guarantee.refl (call : ι) (s : SessionState ι ω) : Guarantee call s s := by
  intro h
  exact ⟨h, List.prefix_refl _, fun _ _ => Iff.rfl, fun _ _ _ => .inl rfl, fun _ => rfl⟩

/-- A step that keeps the history, the phase and what the invariant says of
    the other fields. -/
theorem SessionInvariant.congr {s s' : SessionState ι ω} (h : SessionInvariant s)
    (hhistory : s'.history = s.history) (hlocked : s'.locked = s.locked)
    (hsequence : s'.eventSequence = s.eventSequence) (hstate : s'.state = s.state)
    (htask : s'.closeTask ≠ none → CloseRequested s.history) : SessionInvariant s' where
  lifecycle := by
    rw [hhistory]
    exact h.lifecycle
  events := by
    rw [hhistory]
    exact h.events
  locked := by
    rw [hlocked, hhistory]
    exact h.locked
  sequence := by
    rw [hsequence, hhistory]
    exact h.sequence
  phase := by
    rw [hstate, hhistory]
    exact h.phase
  requested := by
    rw [hhistory]
    exact htask
  ending := by
    rw [hhistory, hstate]
    exact h.ending

/-- One more entry, by its rules. -/
theorem SessionInvariant.concat {s s' : SessionState ι ω} (h : SessionInvariant s)
    (entry : Entry ι) (hlifecycle : LifecycleRule s.history entry)
    (hevents : EventRule s.history entry) (hhistory : s'.history = s.history ++ [entry])
    (hlocked : s'.locked = (turnAfter (turn s.history) entry).isSome)
    (hsequence : s'.eventSequence = s.eventSequence + if entry.isCreated then 1 else 0)
    (hstate : s'.state = phaseAfter s.state entry) (htask : s'.closeTask = s.closeTask)
    (hrequest : ∀ call, entry ≠ .closeRequested call) : SessionInvariant s' := by
  have hrequested : CloseRequested s'.history → CloseRequested s.history := by
    rintro ⟨call, hcall⟩
    rw [hhistory, List.mem_append, List.mem_singleton] at hcall
    exact ⟨call, hcall.resolve_right fun heq => hrequest call heq.symm⟩
  refine ⟨?_, ?_, ?_, ?_, ?_, ?_, ?_⟩
  · rw [hhistory]
    exact justified_concat.mpr ⟨h.lifecycle, hlifecycle⟩
  · rw [hhistory]
    exact justified_concat.mpr ⟨h.events, hevents⟩
  · rw [hhistory, turn_concat, hlocked]
  · rw [hhistory, createdCount_concat, hsequence, h.sequence]
  · rw [hhistory, phaseOf_concat, hstate, h.phase]
  · intro hne
    rw [htask] at hne
    obtain ⟨call, hcall⟩ := h.requested hne
    rw [hhistory]
    exact ⟨call, List.mem_append_left _ hcall⟩
  · intro hclose
    have hold := h.ending (hrequested hclose)
    rw [hstate]
    -- only a move changes the phase, and none goes back
    cases entry with
    | moved call phase =>
      cases phase with
      | created => exact hlifecycle.elim
      | running => exact absurd (hrequested hclose) hlifecycle.2.1
      | closing => exact ⟨nofun, nofun⟩
      | closed => exact ⟨nofun, nofun⟩
      | failed => exact ⟨nofun, nofun⟩
    | _ => exact hold

end SandboxSession
