import MemSandbox.Session.ProtocolSafety
import MemSandbox.Session.Requests

/-! # Runs of a session

    Any number of calls, interleaved at every suspension, with cancellations,
    deadlines and failures of the sink and of the collaborators at any time.

    * **Section 1** the actions keep their turn;
    * **Section 2** the lifecycle and the gate;
    * **Section 3** the events. -/

open Coroutine (wp ends pre Preserves)

namespace SandboxSession

variable {ι κ σ ν α : Type} {call : ι}

/-! ## Section 1: Actions -/

section Actions

variable {operationId : OperationId}

/-- Code that leaves the turn of its operation as it finds it. -/
abbrev Calm {ω : Type} (call : ι) (operationId : OperationId) (x : SessionCode ι ω α) : Prop :=
  Preserves (Coroutine.Rely Environment Guarantee call) (Guarantee call)
    (Holds call .notClosed (Active operationId)) x

theorem calm_tasks {x : Code σ κ ν α} : Calm call operationId (tasks call x) :=
  fun _ h => pre_working h fun _ ht => ht.1

theorem calm_readState {ω : Type} :
    Calm (ω := ω) call operationId readState :=
  fun _ h => pre_readState h

/-- The session fails while an operation is at work. -/
theorem calm_fail {ω : Type} : Calm (ω := ω) call operationId (setPhase call .failed) := by
  intro s h
  obtain ⟨t, ht, hcall, -⟩ := h.hasTurn
  have hmove : MoveRule s.history call .failed :=
    ⟨h.invariant.phase ▸ h.knows, t, ht, hcall, trivial⟩
  apply pre_setPhase .notClosed h hmove
  · intro s' hstate _
    show s'.state ≠ .closed
    rw [hstate]
    exact nofun
  · exact fun s' hs' => hs'

theorem calm_failClosed :
    Calm (ω := SessionWork σ κ ν) call operationId (failClosed call) :=
  calm_readState.bind fun _ => calm_fail.ite .pure

theorem calm_failUnlessDone {id : Nat} :
    Calm (ω := SessionWork σ κ ν) call operationId (failUnlessDone call id) :=
  calm_tasks.bind fun _ => Preserves.pure.ite calm_failClosed

theorem calm_settleWithin {id : Nat} :
    Calm (ω := SessionWork σ κ ν) call operationId (settleWithin call id) := by
  refine calm_tasks.bind fun _ => calm_tasks.ite ?_
  refine Preserves.bind (fun s h => pre_working h fun _ ht => ht.1) fun _ => ?_
  refine calm_tasks.attempt.bind fun r => ?_
  cases r with
  | error e => exact calm_failUnlessDone.bind fun _ => .throw
  | ok =>
    refine calm_tasks.bind fun _ => .ite ?_ calm_failClosed
    exact Preserves.bind (fun s h => pre_working h fun _ ht => ht.1) fun _ => calm_tasks

theorem calm_pollWithin {id : Nat} :
    Calm (ω := SessionWork σ κ ν) call operationId (pollWithin call id) := by
  refine Preserves.bind (.whileDo (calm_tasks.bind fun _ => .pure) ?_) fun _ => ?_
  · refine calm_tasks.bind fun _ => calm_tasks.bind fun _ => .ite ?_ calm_tasks
    exact calm_tasks.bind fun _ => calm_settleWithin.bind fun _ => .throw
  · exact calm_tasks.bind fun _ => calm_tasks.bind fun _ => calm_tasks.bind fun _ => .pure

theorem calm_interruptedWithin {id : Nat} {e : Raised} :
    Calm (ω := SessionWork σ κ ν) call operationId (interruptedWithin call id e) := by
  have hsettle : ∀ e, Calm (ω := SessionWork σ κ ν) call operationId (do
      tasks call (EventLoop.cancel id)
      settleWithin call id
      throw e : SessionCode ι (SessionWork σ κ ν) ν) :=
    fun e => calm_tasks.bind fun _ => calm_settleWithin.bind fun _ => .throw
  cases e with
  | cancelledError => exact hsettle _
  | exit => exact .throw
  | error e => exact (hsettle _).ite .throw

theorem calm_awaitWithin {job : κ} :
    Calm (ω := SessionWork σ κ ν) call operationId (awaitWithin call job) := by
  refine calm_tasks.bind fun _ => calm_tasks.bind fun _ => calm_tasks.bind fun _ => ?_
  exact calm_pollWithin.tryCatch fun _ => calm_interruptedWithin

/-- The report of a failed publication is not one of the operation's own events. -/
theorem calm_emitFailedLifecycle :
    Calm (ω := SessionWork σ κ ν) call operationId (emitFailedLifecycle call) := by
  intro s h
  apply pre_reportEvent h rfl rfl
  · rintro t event ⟨-, hopened, hfinished, -⟩ htype hid
    unfold Due
    rw [htype]
    exact ⟨hid, hfinished, _, hopened⟩
  · exact fun s' hs' => hs'
  · intro event e s' hs'
    cases e with
    | cancelledError => exact hs'
    | exit => exact hs'
    | error e =>
      have hite : Calm (ω := SessionWork σ κ ν) call operationId
          (if e.cls.isSandboxError = true then pure () else throw (.error e)) :=
        Preserves.pure.ite .throw
      exact hite s' hs'

theorem calm_publicationCancelled {id : Nat} :
    Calm (ω := SessionWork σ κ ν) call operationId (publicationCancelled call id) := by
  refine calm_tasks.bind fun _ => calm_tasks.attempt.bind fun r => ?_
  match r with
  | .ok _ => exact .pure
  | .error .cancelledError => exact .throw
  | .error .exit => exact .throw
  | .error (.error e) => exact Preserves.throw.ite (calm_fail.bind fun _ => .throw)

theorem calm_publishRestoreAction {publish : κ} :
    Calm (ω := SessionWork σ κ ν) call operationId (publishRestoreAction call publish) := by
  refine calm_tasks.bind fun _ => calm_tasks.bind fun _ => calm_tasks.bind fun id => ?_
  refine calm_tasks.tryCatch fun e => ?_
  cases e with
  | cancelledError => exact calm_publicationCancelled
  | exit => exact .throw
  | error e =>
    refine Preserves.throw.ite (calm_fail.bind fun _ => ?_)
    exact calm_emitFailedLifecycle.bind fun _ => .throw

/-- Whatever an operation does, its turn goes on. -/
theorem Action.orderly (action : Action σ κ ν α) :
    Orderly (ι := ι) fun call operationId => action.run call operationId := by
  intro call operationId
  cases action with
  | collaborate x => exact calm_tasks
  | send gateway finish => exact calm_awaitWithin.bind fun _ => calm_tasks
  | restore prepare =>
    exact calm_tasks.bind fun _ => calm_publishRestoreAction.bind fun _ => .pure

end Actions

theorem snapshot_of_postCommit {kind : OperationKind} {eventType : SandboxEventType}
    (h : postCommitEventType kind = some eventType) :
    eventType = .snapshotCreated ∨ eventType = .snapshotRestored := by
  unfold postCommitEventType at h
  split at h
  · exact .inl (Option.some.inj h).symm
  · exact .inr (Option.some.inj h).symm
  · exact nomatch h

/-- The operation of a request, with its orderly action. -/
def OperationRequest.orderly (request : OperationRequest σ κ ν α) :
    OrderlyOperation ι (SessionWork σ κ ν) α where
  toOperation := request.operation
  orderly := request.action.orderly
  snapshots := by
    intro describe hdescribe value revision
    obtain ⟨eventType, htype, rfl⟩ := Option.map_eq_some_iff.mp hdescribe
    exact snapshot_of_postCommit htype

theorem pre_operationRequest {request : OperationRequest σ κ ν α}
    {s : SessionState ι (SessionWork σ κ ν)} (h : Outside call .nothing s) :
    pre Environment Guarantee call (request.perform call)
      (fun _ s' => Outside call .nothing s') s := by
  have hrun : ∀ s : SessionState ι (SessionWork σ κ ν), Outside call .nothing s →
      pre Environment Guarantee call (do
        Coroutine.ofExcept request.check
        runOperation call request.operation) (fun _ s' => Outside call .nothing s') s := by
    intro s h
    apply Coroutine.wp_bind.mpr
    apply Coroutine.wp_ofExcept
    cases request.check with
    | error e => exact h
    | ok => exact pre_runOperation request.orderly h
  show pre Environment Guarantee call (if request.kind = .outboundHttp then _ else _) _ s
  by_cases hkind : request.kind = .outboundHttp
  · rw [if_pos hkind]
    apply Coroutine.wp_bind.mpr
    exact pre_rejectNonRunning (fun _ => hrun s h) fun _ => h
  · rw [if_neg hkind]
    exact hrun s h

theorem pre_arrive {request : Request σ κ ν} {s : SessionState ι (SessionWork σ κ ν)}
    (h : Outside call .nothing s) :
    pre Environment Guarantee call (request.arrive call) (fun _ s' => Outside call .nothing s') s := by
  apply Coroutine.wp_bind.mpr
  apply Coroutine.pre_await (outside_stable (by decide)) h
  rintro v r v' hv ⟨rfl, rfl⟩
  refine ⟨.refl call _, ?_⟩
  cases request with
  | start => exact pre_start hv
  | close => exact pre_close hv
  | operation request =>
    apply Coroutine.wp_bind.mpr
    apply Coroutine.wp_mono (pre_operationRequest hv)
    intro r s' hs'
    cases r with
    | ok => exact hs'
    | error e => exact hs'

/-! ## Section 2: Lifecycle -/

section Runs

variable {ω : Type} {history before after : List (Entry ι)} {s : SessionState ι ω}

/-- Once a session is closed it stays so. -/
theorem phaseOf_closed (h : Justified LifecycleRule history)
    (hclosed : history = before ++ Entry.moved call .closed :: after) : phaseOf history = .closed := by
  induction after using List.reverseRecOn generalizing history with
  | nil =>
    rw [hclosed, phaseOf_concat]
    rfl
  | append_singleton after entry ih =>
    have hsplit : history = (before ++ Entry.moved call .closed :: after) ++ [entry] := by
      rw [hclosed]
      simp
    rw [hsplit] at h ⊢
    obtain ⟨hbefore, hentry⟩ := justified_concat.mp h
    have hstill := ih hbefore rfl
    rw [phaseOf_concat, hstill]
    -- a move that leaves `closed` would break its rule
    cases entry with
    | moved call phase =>
      cases phase with
      | created => exact hentry.elim
      | running => exact absurd (hentry.1.symm.trans hstill) nofun
      | closing => exact absurd hstill hentry.1
      | closed => rfl
      | failed => exact absurd hstill hentry.1
    | _ => rfl

/-- Whether an entry gets the gate for the call, or gives it back. -/
def Entry.acquires [DecidableEq ι] (call : ι) : Entry ι → Bool
  | .acquired c => c = call
  | _ => false

def Entry.releases [DecidableEq ι] (call : ι) : Entry ι → Bool
  | .released c => c = call
  | _ => false

/-- Whether the call has the gate. -/
def isHolder [DecidableEq ι] (history : List (Entry ι)) (call : ι) : Bool :=
  (turn history).any (·.call = call)

/-- Every acquisition of the gate is released once, unless the call has it still. -/
theorem acquisitions_balanced [DecidableEq ι] (h : Justified LifecycleRule history) (call : ι) :
    history.countP (Entry.acquires call) =
      history.countP (Entry.releases call) + if isHolder history call then 1 else 0 := by
  induction history using List.reverseRecOn with
  | nil => rfl
  | append_singleton history entry ih =>
    obtain ⟨hbefore, hentry⟩ := justified_concat.mp h
    have ih := ih hbefore
    rw [List.countP_append, List.countP_append, List.countP_singleton, List.countP_singleton]
    unfold isHolder at ih ⊢
    rw [turn_concat]
    cases entry with
    | acquired c =>
      have hfree : turn history = none := hentry
      rw [hfree] at ih
      by_cases hc : c = call
      · simpa [Entry.acquires, Entry.releases, turnAfter, Turn.start, hc] using ih
      · simpa [Entry.acquires, Entry.releases, turnAfter, Turn.start, hc] using ih
    | released c =>
      obtain ⟨t, ht, rfl, -⟩ := hentry
      rw [ht] at ih
      by_cases hc : t.call = call
      · simpa [Entry.acquires, Entry.releases, turnAfter, hc] using ih
      · simpa [Entry.acquires, Entry.releases, turnAfter, hc] using ih
    | admitted c | worked c | created c event | delivered c sequence | finished c failure
    | moved c phase | closeRequested c =>
      cases hturn : turn history with
      | none =>
        rw [hturn] at ih
        simpa [Entry.acquires, Entry.releases, turnAfter] using ih
      | some t =>
        rw [hturn] at ih
        simpa [Entry.acquires, Entry.releases, turnAfter, Turn.note] using ih

end Runs

/-! ## Section 3: Events -/

section Segments

variable {ω : Type} {history before after segment : List (Entry ι)} {t : Turn ι}

/-- The events created so far. -/
def createdEvents (history : List (Entry ι)) : List SessionEvent :=
  history.filterMap fun
    | .created _ event => some event
    | _ => none

theorem createdEvents_length : (createdEvents history).length = createdCount history := by
  induction history with
  | nil => rfl
  | cons entry history ih =>
    unfold createdEvents createdCount at ih ⊢
    rw [List.filterMap_cons, List.countP_cons]
    cases entry with
    | created c event => simpa [Entry.isCreated] using ih
    | _ => simpa [Entry.isCreated] using ih

/-- The numbers of the events are 1, 2, 3, and so on. -/
theorem createdEvents_numbers (h : Justified EventRule history) :
    (createdEvents history).map SessionEvent.sequence = List.range' 1 (createdCount history) := by
  induction history using List.reverseRecOn with
  | nil => rfl
  | append_singleton history entry ih =>
    obtain ⟨hbefore, hentry⟩ := justified_concat.mp h
    have ih := ih hbefore
    rw [createdCount_concat]
    unfold createdEvents at ih ⊢
    rw [List.filterMap_append, List.map_append, ih]
    cases entry with
    | created c event =>
      have hnumber : event.sequence = createdCount history + 1 := hentry.1
      show _ ++ [event.sequence] = List.range' 1 (createdCount history + 1)
      rw [List.range'_concat, hnumber, Nat.one_mul, Nat.add_comm]
    | _ => simp [Entry.isCreated]

/-- Whether an entry creates the last event of an operation. -/
def Entry.isTerminal : Entry ι → Bool
  | .created _ event => event.eventType.isTerminal
  | _ => false

/-- The call has reported the start of its operation, and the sink accepted it. -/
def Started (call : ι) (segment : List (Entry ι)) : Prop :=
  ∃ first second third event, event.eventType = .operationStarted ∧
    segment = first ++ Entry.created call event :: (second ++ Entry.delivered call event.sequence :: third)

/-- What a turn of the call has reported, once it is over. -/
structure Reported (call : ι) (segment : List (Entry ι)) : Prop where
  own : ∀ c event, .created c event ∈ segment → c = call
  /-- A start that was accepted is followed by the end, as the end was. -/
  ended : Started call segment → ∃ failure, .finished call failure ∈ segment ∧
    (failure = some .exit ∨ ∃ event, terminalFor failure = some event.eventType ∧
      .created call event ∈ segment)
  atMostOnce : segment.countP Entry.isTerminal ≤ 1
  /-- Nothing else reports an end. -/
  started : segment.countP Entry.isTerminal ≠ 0 → Started call segment

/-- What a turn tells of its entries. -/
structure Summary (call : ι) (segment : List (Entry ι)) (t : Turn ι) : Prop where
  holder : t.call = call
  own : ∀ c event, .created c event ∈ segment → c = call
  opens : ∀ c event, .created c event ∈ segment → event.eventType.opens = true →
    t.opening = some event
  accepted : Started call segment → t.delivered = true
  delivered : t.delivered = true → t.opening ≠ none
  started : ∀ operationId, Opened t .operationStarted operationId → Started call segment
  opening : ∀ event, t.opening = some event → ∃ first second,
    segment = first ++ Entry.created call event :: second
  finished : ∀ failure, t.finished = some failure → .finished call failure ∈ segment
  terminals : segment.countP Entry.isTerminal = if t.terminal then 1 else 0
  terminal : t.terminal = true → (∃ operationId, Opened t .operationStarted operationId) ∧
    ∃ event failure, t.finished = some failure ∧ terminalFor failure = some event.eventType ∧
      .created call event ∈ segment

theorem summary_start : Summary call [] (.start call) where
  holder := rfl
  own := fun _ _ h => absurd h List.not_mem_nil
  opens := fun _ _ h => absurd h List.not_mem_nil
  accepted := by
    rintro ⟨first, second, third, event, -, hsplit⟩
    exact absurd hsplit (by simp)
  delivered := nofun
  started := by
    rintro operationId ⟨event, hopening, -⟩
    exact nomatch hopening
  opening := nofun
  finished := nofun
  terminals := rfl
  terminal := nofun

theorem Started.append {more : List (Entry ι)} (h : Started call segment) :
    Started call (segment ++ more) := by
  obtain ⟨first, second, third, event, htype, rfl⟩ := h
  exact ⟨first, second, third ++ more, event, htype, by simp⟩

/-- A start is accepted by the last entry or by an earlier one. -/
theorem Started.of_concat {entry : Entry ι} (h : Started call (segment ++ [entry])) :
    Started call segment ∨ ∃ first second event, event.eventType = .operationStarted ∧
      segment = first ++ Entry.created call event :: second ∧ entry = .delivered call event.sequence := by
  obtain ⟨first, second, third, event, htype, hsplit⟩ := h
  rcases List.eq_nil_or_concat third with rfl | ⟨third, last, rfl⟩
  · have hsplit : segment ++ [entry] =
        (first ++ Entry.created call event :: second) ++ [Entry.delivered call event.sequence] := by
      rw [hsplit]
      simp
    obtain ⟨hsegment, hentry⟩ := List.append_inj' hsplit rfl
    exact .inr ⟨first, second, event, htype, hsegment, List.head_eq_of_cons_eq hentry⟩
  · have hsplit : segment ++ [entry] = (first ++ Entry.created call event ::
        (second ++ Entry.delivered call event.sequence :: third)) ++ [last] := by
      rw [hsplit]
      simp
    exact .inl ⟨first, second, third, event, htype, (List.append_inj' hsplit rfl).1⟩

/-- Whether the sink accepts an event. -/
def Entry.isDelivered : Entry ι → Bool
  | .delivered _ _ => true
  | _ => false

theorem started_of_silent {entry : Entry ι} (hsilent : entry.isDelivered = false)
    (h : Started call (segment ++ [entry])) : Started call segment := by
  rcases h.of_concat with h | ⟨first, second, event, -, -, rfl⟩
  · exact h
  · exact nomatch hsilent

/-- An entry that tells nothing of the events. -/
theorem Summary.silent {entry : Entry ι} {t' : Turn ι} (h : Summary call segment t)
    (hcreated : entry.isCreated = false) (hdelivered : entry.isDelivered = false)
    (hholder : t'.call = t.call) (hopening : t'.opening = t.opening)
    (hdelivered' : t'.delivered = t.delivered) (hfinished : t'.finished = t.finished)
    (hterminal : t'.terminal = t.terminal) : Summary call (segment ++ [entry]) t' := by
  have hmem : ∀ c event, Entry.created c event ∈ segment ++ [entry] → Entry.created c event ∈ segment := by
    intro c event hevent
    refine (List.mem_append.mp hevent).resolve_right fun hlast => ?_
    rw [← List.mem_singleton.mp hlast] at hcreated
    exact nomatch hcreated
  have hopened : ∀ operationId, Opened t' .operationStarted operationId →
      Opened t .operationStarted operationId := by
    rintro operationId ⟨event, hevent, htype, hid, haccepted⟩
    exact ⟨event, hopening ▸ hevent, htype, hid, hdelivered' ▸ haccepted⟩
  refine ⟨hholder.trans h.holder, fun c event hevent => h.own c event (hmem c event hevent), ?_, ?_, ?_,
    ?_, ?_, ?_, ?_, ?_⟩
  · intro c event hevent hopens
    rw [hopening]
    exact h.opens c event (hmem c event hevent) hopens
  · intro hstarted
    rw [hdelivered']
    exact h.accepted (started_of_silent hdelivered hstarted)
  · rw [hdelivered', hopening]
    exact h.delivered
  · exact fun operationId hstart => (h.started operationId (hopened operationId hstart)).append
  · intro event hevent
    obtain ⟨first, second, rfl⟩ := h.opening event (hopening ▸ hevent)
    exact ⟨first, second ++ [entry], by simp⟩
  · intro failure hfailure
    exact List.mem_append_left _ (h.finished failure (hfinished ▸ hfailure))
  · have hnot : entry.isTerminal = false := by
      cases entry with
      | created c event => exact nomatch hcreated
      | _ => rfl
    rw [List.countP_append, List.countP_singleton, hnot, hterminal]
    exact h.terminals
  · rw [hterminal]
    intro hended
    obtain ⟨⟨operationId, event, hevent, hrest⟩, last, failure, hfailure, hreport, hlast⟩ :=
      h.terminal hended
    refine ⟨⟨operationId, event, hopening.trans hevent, ?_⟩, last, failure,
      hfinished.trans hfailure, hreport, List.mem_append_left _ hlast⟩
    rw [hdelivered']
    exact hrest

theorem Summary.delivered_concat {sequence : Nat} (h : Summary call segment t) :
    Summary call (segment ++ [Entry.delivered call sequence]) (t.note (.delivered call sequence)) := by
  have hmem : ∀ c event, Entry.created c event ∈ segment ++ [Entry.delivered call sequence] →
      Entry.created c event ∈ segment := by
    intro c event hevent
    exact (List.mem_append.mp hevent).resolve_right fun hlast => nomatch List.mem_singleton.mp hlast
  refine ⟨h.holder, fun c event hevent => h.own c event (hmem c event hevent),
    fun c event hevent => h.opens c event (hmem c event hevent), ?_, ?_, ?_, ?_, ?_, ?_, ?_⟩
  · intro hstarted
    show (t.delivered || t.opening.any (·.sequence = sequence)) = true
    rcases hstarted.of_concat with hbefore | ⟨first, second, event, htype, rfl, hentry⟩
    · rw [h.accepted hbefore]
      rfl
    · have hopening := h.opens call event (List.mem_append_right _ List.mem_cons_self) (htype ▸ rfl)
      obtain rfl : sequence = event.sequence := by
        injection hentry
      rw [hopening]
      simp
  · intro hdelivered hnone
    have hopening : t.opening = none := hnone
    have hdelivered : (t.delivered || t.opening.any (·.sequence = sequence)) = true := hdelivered
    rw [hopening, Option.any_none, Bool.or_false] at hdelivered
    exact h.delivered hdelivered hopening
  · rintro operationId ⟨event, hopening, htype, hid, hdelivered⟩
    by_cases hbefore : t.delivered = true
    · exact (h.started operationId ⟨event, hopening, htype, hid, hbefore⟩).append
    · -- the sink accepts the start just now
      have hopening : t.opening = some event := hopening
      have hdelivered : (t.delivered || t.opening.any (·.sequence = sequence)) = true := hdelivered
      obtain rfl : event.sequence = sequence := by simpa [hbefore, hopening] using hdelivered
      obtain ⟨first, second, rfl⟩ := h.opening event hopening
      exact ⟨first, second, [], event, htype, by simp⟩
  · intro event hevent
    obtain ⟨first, second, rfl⟩ := h.opening event hevent
    exact ⟨first, second ++ [Entry.delivered call sequence], by simp⟩
  · exact fun failure hfailure => List.mem_append_left _ (h.finished failure hfailure)
  · rw [List.countP_append, List.countP_singleton]
    exact h.terminals
  · intro hended
    obtain ⟨⟨operationId, hopened⟩, last, failure, hfailure, hreport, hlast⟩ := h.terminal hended
    exact ⟨⟨operationId, hopened.of_delivered⟩, last, failure, hfailure, hreport,
      List.mem_append_left _ hlast⟩

theorem Summary.finished_concat {failure : Option Raised} (h : Summary call segment t)
    (hopen : t.finished = none) :
    Summary call (segment ++ [Entry.finished call failure]) (t.note (.finished call failure)) := by
  have hmem : ∀ c event, Entry.created c event ∈ segment ++ [Entry.finished call failure] →
      Entry.created c event ∈ segment := by
    intro c event hevent
    exact (List.mem_append.mp hevent).resolve_right fun hlast => nomatch List.mem_singleton.mp hlast
  refine ⟨h.holder, fun c event hevent => h.own c event (hmem c event hevent),
    fun c event hevent => h.opens c event (hmem c event hevent),
    fun hstarted => h.accepted (started_of_silent rfl hstarted), h.delivered, ?_, ?_, ?_, ?_, ?_⟩
  · exact fun operationId hopened => (h.started operationId hopened).append
  · intro event hevent
    obtain ⟨first, second, rfl⟩ := h.opening event hevent
    exact ⟨first, second ++ [Entry.finished call failure], by simp⟩
  · intro failure' hfailure
    obtain rfl := Option.some.inj hfailure
    exact List.mem_append_right _ List.mem_cons_self
  · rw [List.countP_append, List.countP_singleton]
    exact h.terminals
  · intro hended
    -- an end is only reported after the operation has ended
    obtain ⟨-, last, failure', hfailure, -⟩ := h.terminal hended
    exact absurd (hopen.symm.trans hfailure) nofun

/-- When the end of an operation may be reported. -/
theorem Due.terminal {event : SessionEvent} (h : Due t event) (hterminal : event.eventType.isTerminal = true) :
    Opened t .operationStarted event.operationId ∧ t.terminal = false ∧
      ∃ failure, t.finished = some failure ∧ terminalFor failure = some event.eventType := by
  unfold Due at h
  cases htype : event.eventType with
  | operationCompleted | operationFailed | operationCancelled | operationTimedOut =>
    rw [htype] at h
    exact h.2
  | _ =>
    rw [htype] at hterminal
    exact nomatch hterminal

theorem Summary.created_concat {event : SessionEvent} (h : Summary call segment t)
    (hdue : Due t event) :
    Summary call (segment ++ [Entry.created call event]) (t.note (.created call event)) := by
  have hfresh : event.eventType.opens = true → t.opening = none := by
    intro hopens
    unfold Due at hdue
    cases htype : event.eventType with
    | sandboxStarted | operationStarted =>
      rw [htype] at hdue
      exact hdue.1
    | _ =>
      rw [htype] at hopens
      exact nomatch hopens
  have hnote : (t.note (.created call event)).opening =
      if event.eventType.opens then some event else t.opening := rfl
  have hkeep : event.eventType.opens = false →
      (t.note (.created call event)).opening = t.opening := by
    intro hopens
    rw [hnote, hopens]
    rfl
  have hsplit : ∀ c e, Entry.created c e ∈ segment ++ [Entry.created call event] →
      Entry.created c e ∈ segment ∨ c = call ∧ e = event := by
    intro c e he
    rcases List.mem_append.mp he with he | he
    · exact .inl he
    · cases List.mem_singleton.mp he
      exact .inr ⟨rfl, rfl⟩
  refine ⟨h.holder, ?_, ?_, fun hstarted => h.accepted (started_of_silent rfl hstarted), ?_, ?_, ?_,
    fun failure hfailure => List.mem_append_left _ (h.finished failure hfailure), ?_, ?_⟩
  · intro c e he
    rcases hsplit c e he with he | ⟨rfl, -⟩
    · exact h.own c e he
    · rfl
  · intro c e he hopens
    rcases hsplit c e he with he | ⟨rfl, rfl⟩
    · have hopening := h.opens c e he hopens
      cases hevent : event.eventType.opens with
      | true => exact absurd ((hfresh hevent).symm.trans hopening) nofun
      | false => exact (hkeep hevent).trans hopening
    · rw [hnote, hopens]
      rfl
  · intro hdelivered hnone
    cases hevent : event.eventType.opens with
    | true =>
      rw [hnote, hevent] at hnone
      exact nomatch hnone
    | false => exact h.delivered hdelivered ((hkeep hevent).symm.trans hnone)
  · rintro operationId ⟨first, hopening, htype, hid, hdelivered⟩
    cases hevent : event.eventType.opens with
    | true => exact absurd (hfresh hevent) (h.delivered hdelivered)
    | false =>
      exact (h.started operationId ⟨first, (hkeep hevent).symm.trans hopening, htype, hid,
        hdelivered⟩).append
  · intro first hopening
    cases hevent : event.eventType.opens with
    | true =>
      rw [hnote, hevent] at hopening
      obtain rfl := Option.some.inj hopening
      exact ⟨segment, [], rfl⟩
    | false =>
      obtain ⟨before, after, rfl⟩ := h.opening first ((hkeep hevent).symm.trans hopening)
      exact ⟨before, after ++ [Entry.created call event], by simp⟩
  · rw [List.countP_append, List.countP_singleton, h.terminals]
    show _ = if (t.terminal || event.eventType.isTerminal) = true then 1 else 0
    cases hevent : event.eventType.isTerminal with
    | true =>
      rw [(hdue.terminal hevent).2.1]
      simp [Entry.isTerminal, hevent]
    | false => simp [Entry.isTerminal, hevent]
  · intro hended
    have hended : (t.terminal || event.eventType.isTerminal) = true := hended
    cases hevent : event.eventType.isTerminal with
    | true =>
      obtain ⟨hopened, -, failure, hfailure, hreport⟩ := hdue.terminal hevent
      have hopens : event.eventType.opens = false := by
        cases htype : event.eventType with
        | sandboxStarted | operationStarted =>
          rw [htype] at hevent
          exact nomatch hevent
        | _ => rfl
      exact ⟨⟨_, hopened.of_created hopens⟩, event, failure, hfailure, hreport,
        List.mem_append_right _ List.mem_cons_self⟩
    | false =>
      rw [hevent, Bool.or_false] at hended
      obtain ⟨⟨operationId, hopened⟩, last, failure, hfailure, hreport, hlast⟩ := h.terminal hended
      refine ⟨⟨operationId, ?_⟩, last, failure, hfailure, hreport, List.mem_append_left _ hlast⟩
      cases hopens : event.eventType.opens with
      | true =>
        obtain ⟨first, hopening, -⟩ := hopened
        exact absurd ((hfresh hopens).symm.trans hopening) nofun
      | false => exact hopened.of_created hopens

/-- The turn after its entries so far. -/
theorem summary_of_segment (h : Justified EventRule (before ++ Entry.acquired call :: segment))
    (hopen : ∀ c, Entry.released c ∉ segment)
    (hgate : Justified LifecycleRule (before ++ Entry.acquired call :: segment)) :
    ∃ t, turn (before ++ Entry.acquired call :: segment) = some t ∧ Summary call segment t := by
  induction segment using List.reverseRecOn with
  | nil =>
    refine ⟨.start call, ?_, summary_start⟩
    rw [turn_concat]
    rfl
  | append_singleton segment entry ih =>
    rw [← List.cons_append, ← List.append_assoc] at h hgate ⊢
    obtain ⟨hbefore, hentry⟩ := justified_concat.mp h
    obtain ⟨hgateBefore, hgateEntry⟩ := justified_concat.mp hgate
    obtain ⟨t, ht, hsummary⟩ := ih hbefore (fun c hc => hopen c (List.mem_append_left _ hc)) hgateBefore
    rw [turn_concat, ht]
    have hits : ∀ c P, HasTurn (before ++ Entry.acquired call :: segment) c P → c = call ∧ P t := by
      rintro c P ⟨t', ht', rfl, hP⟩
      obtain rfl := Option.some.inj (ht.symm.trans ht')
      exact ⟨hsummary.holder, hP⟩
    cases entry with
    | acquired c => exact absurd (ht.symm.trans hgateEntry) nofun
    | released c => exact absurd (List.mem_append_right _ List.mem_cons_self) (hopen c)
    | created c event =>
      obtain ⟨rfl, hdue⟩ := hits c _ hentry.2
      exact ⟨_, rfl, hsummary.created_concat hdue⟩
    | delivered c sequence =>
      obtain ⟨rfl, -⟩ := hits c _ hentry
      exact ⟨_, rfl, hsummary.delivered_concat⟩
    | finished c failure =>
      obtain ⟨rfl, hfinished, -⟩ := hits c _ hentry
      exact ⟨_, rfl, hsummary.finished_concat hfinished⟩
    | admitted c | worked c | moved c phase | closeRequested c =>
      exact ⟨_, rfl, hsummary.silent rfl rfl rfl rfl rfl rfl rfl⟩

/-- A turn has reported what it had to when it is over. -/
theorem reported_of_released
    (h : Justified EventRule (before ++ Entry.acquired call :: (segment ++ Entry.released call :: after)))
    (hgate : Justified LifecycleRule
      (before ++ Entry.acquired call :: (segment ++ Entry.released call :: after)))
    (hopen : ∀ c, Entry.released c ∉ segment) : Reported call segment := by
  have hsplit : before ++ Entry.acquired call :: (segment ++ Entry.released call :: after) =
      (before ++ Entry.acquired call :: segment) ++ Entry.released call :: after := by simp
  have hreleased := h (before ++ Entry.acquired call :: segment) (Entry.released call) after hsplit
  rw [hsplit] at h hgate
  obtain ⟨t, ht, hsummary⟩ := summary_of_segment h.of_append hopen hgate.of_append
  obtain ⟨t', ht', -, hcomplete⟩ := hreleased
  obtain rfl := Option.some.inj (ht.symm.trans ht')
  have hcount := hsummary.terminals
  refine ⟨hsummary.own, ?_, ?_, ?_⟩
  · intro hstarted
    obtain ⟨first, second, third, event, htype, hsegment⟩ := id hstarted
    have hmem : Entry.created call event ∈ segment := by
      rw [hsegment]
      exact List.mem_append_right _ List.mem_cons_self
    have hopening := hsummary.opens call event hmem (htype ▸ rfl)
    obtain ⟨failure, hfailure, hexit | hterminal⟩ :=
      hcomplete event.operationId ⟨event, hopening, htype, rfl, hsummary.accepted hstarted⟩
    · exact ⟨failure, hsummary.finished failure hfailure, .inl hexit⟩
    · obtain ⟨-, last, failure', hfailure', hreport, hlast⟩ := hsummary.terminal hterminal
      obtain rfl := Option.some.inj (hfailure.symm.trans hfailure')
      exact ⟨failure, hsummary.finished failure hfailure, .inr ⟨last, hreport, hlast⟩⟩
  · rw [hcount]
    by_cases hterminal : t.terminal = true
    · rw [if_pos hterminal]
    · rw [if_neg hterminal]
      exact Nat.zero_le _
  · intro hne
    have hterminal : t.terminal = true := by
      by_contra hnot
      rw [hcount, if_neg hnot] at hne
      exact hne rfl
    obtain ⟨⟨operationId, hopened⟩, -⟩ := hsummary.terminal hterminal
    exact hsummary.started operationId hopened

end Segments

/-! ## Section 4: Runs -/

/-- The runs of a session, in which `requests` are made and the resources are
    closed by `closeJob`. -/
def sessionSystem [DecidableEq κ'] (closeJob : κ) (requests : κ' → Request σ κ ν) :
    System (Coroutine.Config (Option κ') (SessionState (Option κ') (SessionWork σ κ ν)) Raised)
      (Option (Option κ')) :=
  Coroutine.system Environment (fun s => ∃ work, s = SessionState.new work)
    (sessionCode closeJob requests)

/-- The gate and the phases of a session. -/
structure LifecycleSafe {ω : Type} [DecidableEq ι]
    (c : Coroutine.Config ι (SessionState ι ω) Raised) : Prop where
  /-- Every entry keeps its rule. -/
  justified : Justified LifecycleRule c.shared.history
  phase : c.shared.state = phaseOf c.shared.history
  locked : c.shared.locked = (turn c.shared.history).isSome
  ending : CloseRequested c.shared.history → c.shared.state ≠ .created ∧ c.shared.state ≠ .running
  closed : ∀ call before after, c.shared.history = before ++ Entry.moved call .closed :: after →
    c.shared.state = .closed
  balanced : ∀ call, c.shared.history.countP (Entry.acquires call) =
    c.shared.history.countP (Entry.releases call) + if isHolder c.shared.history call then 1 else 0
  /-- A call that is over does not have the gate. -/
  ended : ∀ call r, Coroutine.Ended (c.code call) r → isHolder c.shared.history call = false

/-- The events of a session. -/
structure EventsSafe {ω : Type} (s : SessionState ι ω) : Prop where
  /-- Every event is due where it is created. -/
  justified : Justified EventRule s.history
  numbers : (createdEvents s.history).map SessionEvent.sequence = List.range' 1 s.eventSequence
  /-- Every turn that is over has reported what it had to. -/
  reported : ∀ call before segment after,
    s.history = before ++ Entry.acquired call :: (segment ++ Entry.released call :: after) →
    (∀ c, .released c ∉ segment) → Reported call segment

section System

variable {κ' : Type} [DecidableEq κ'] {closeJob : κ} {requests : κ' → Request σ κ ν}
  {c c' : Coroutine.Config (Option κ') (SessionState (Option κ') (SessionWork σ κ ν)) Raised}

theorem outside_new {ω : Type} (work : ω) :
    Outside call .nothing (SessionState.new work : SessionState ι ω) :=
  outside_of_free (sessionInvariant_new work) trivial rfl

omit [DecidableEq κ'] in
/-- Each coroutine of a session is outside the gate when it begins and when it
    ends. -/
theorem pre_sessionCode (call : Option κ') {s : SessionState (Option κ') (SessionWork σ κ ν)}
    (h : ∃ work, s = .new work) :
    pre Environment Guarantee call (sessionCode closeJob requests call)
      (fun _ s' => Outside call .nothing s') s := by
  obtain ⟨work, rfl⟩ := h
  cases call with
  | none => exact pre_closeTask (outside_new work)
  | some call => exact pre_arrive (outside_new work)

omit [DecidableEq κ'] in
theorem sessionCode_awaits (call : Option κ') :
    Coroutine.Awaits (sessionCode closeJob requests call) := by
  cases call with
  | none => exact .bind .await
  | some call => exact .bind .await

theorem session_verified (h : (sessionSystem closeJob requests).Reachable c) :
    Coroutine.Verified Environment Guarantee (fun call _ => Outside call .nothing) c :=
  Coroutine.verified_of_reachable (fun _ _ => outside_stable (by decide)) sessionCode_awaits
    (fun call _ => pre_sessionCode call) h

theorem session_invariant (h : (sessionSystem closeJob requests).Reachable c) :
    SessionInvariant c.shared := by
  apply Coroutine.invariant_of_reachable (Q := fun call _ => Outside call .nothing)
    (fun _ _ => outside_stable (by decide)) sessionCode_awaits (fun call _ => pre_sessionCode call)
    _ _ _ h
  · rintro s ⟨work, rfl⟩
    exact sessionInvariant_new work
  · rintro s s' ⟨work, rfl⟩ hs
    exact hs.of_work work
  · exact fun call s s' hG hs => (hG hs).invariant

theorem Outside.not_holder {ω : Type} {knows : Knows} [DecidableEq ι] {s : SessionState ι ω}
    (h : Outside call knows s) : isHolder s.history call = false := by
  unfold isHolder
  cases hturn : turn s.history with
  | none => rfl
  | some t =>
    have hnot := h.notIts t hturn
    simpa using hnot

open Coroutine (Runs) in
/-- The start of a new session that nobody disturbs. -/
theorem runs_start {ω : Type} (call : ι) (work : ω) :
    ∃ s : SessionState ι ω, Runs (start call) (.new work) (.ok ()) s ∧ s.state = .running ∧
      s.locked = false ∧ s.work = work := by
  have hcreated : ∀ s : SessionState ι ω, s.state = .created → Runs requireCreated s (.ok ()) s := by
    intro s hs
    refine .bind (a := s.state) (.step ⟨rfl, rfl⟩) ?_
    show Runs (if s.state ≠ .created then _ else pure ()) s _ s
    rw [hs]
    exact .ret
  let event : SessionEvent := ⟨.sandboxStarted, 0, 1, none, none, []⟩
  let acquired : SessionState ι ω :=
    { (SessionState.new work).record (.acquired call) with locked := true }
  let created : SessionState ι ω := { acquired.record (.created call event) with eventSequence := 1 }
  let delivered : SessionState ι ω := created.record (.delivered call 1)
  let moved : SessionState ι ω := { delivered.record (.moved call .running) with state := .running }
  let released : SessionState ι ω := { moved.record (.released call) with locked := false }
  have hacquire : Runs (tryCatch (acquireGate call true) startTimedOut) (.new work) (.ok ()) acquired :=
    .tryRet (.await (.inl ⟨rfl, rfl, rfl⟩))
  have hcreate : Runs (newEvent call .sandboxStarted none none []) acquired (.ok event) created :=
    .step ⟨0, event, rfl, rfl, rfl⟩
  have hemit : Runs (emitEvent call event false) created (.ok ()) delivered :=
    .bind (a := false) (.step ⟨⟨_, rfl⟩, rfl⟩) (.tryRet (.await (.inl ⟨rfl, rfl⟩)))
  have hmove : Runs (setPhase call .running) delivered (.ok ()) moved := .step ⟨rfl, rfl⟩
  have hread : Runs readState delivered (.ok .created) delivered := .step ⟨rfl, rfl⟩
  have hhold : Runs (startHolding call) acquired (.ok ()) moved :=
    .bind (hcreated _ rfl) (.bind hcreate (.bind (.tryRet hemit) (.bind hread hmove)))
  have hrelease : Runs (releaseGate call) moved (.ok ()) released := .step (.inl ⟨rfl, rfl, rfl⟩)
  refine ⟨released, .bind (hcreated _ rfl) (.bind hacquire ?_), rfl, rfl, rfl⟩
  exact .bind (.tryRet hhold) (.bind hrelease .ret)

/-- A call gets its turn in a session that has been started. -/
theorem turn_begins {ω : Type} (call : ι) (work : ω) :
    ∃ s : SessionState ι ω, Holds call .nothing (fun t => t = .start call) s ∧
      s.state = .running ∧ s.work = work := by
  obtain ⟨s, hruns, hstate, hfree, hwork⟩ := runs_start call work
  have houtside : Outside call .nothing s :=
    hruns.establishes (fun _ => .refl) (pre_start (outside_new work))
  have hacquire : pre Environment Guarantee call (acquireGate call true)
      (ends (fun _ => Holds call .nothing fun t => t = .start call) fun _ _ => True) s :=
    pre_acquireGate (by decide) houtside (fun _ h => h) fun _ _ _ => trivial
  refine ⟨{ s.record (.acquired call) with locked := true }, ?_, hstate, hwork⟩
  exact (hacquire s .refl (.ok ()) _ (.inl ⟨rfl, hfree, rfl⟩)).2

/-- A session that one caller starts. -/
def startRequests : Unit → Request Unit Unit Unit := fun _ => .start

theorem started_reachable : ∃ c, (sessionSystem () startRequests).Reachable c ∧
    c.shared.state = .running := by
  have work : SessionWork Unit Unit Unit := ⟨⟨(), []⟩, []⟩
  obtain ⟨s, hruns, hstate, -⟩ := runs_start (some ()) work
  have harrive : Coroutine.Runs (sessionCode () startRequests (some ())) (.new work) (.ok ()) s :=
    .bind (.await ⟨rfl, rfl⟩) hruns
  have hreach : ∃ c, (sessionSystem () startRequests).Reachable c ∧ c.shared = s :=
    Coroutine.reachable_of_runs ⟨work, rfl⟩ rfl harrive
  obtain ⟨c, hc, rfl⟩ := hreach
  exact ⟨c, hc, hstate⟩

/-- The lifecycle of a session, whatever its callers do and whatever fails. -/
theorem session_lifecycle_safe (h : (sessionSystem closeJob requests).Reachable c) :
    LifecycleSafe c := by
  have hinvariant := session_invariant h
  refine ⟨hinvariant.lifecycle, hinvariant.phase, hinvariant.locked, hinvariant.ending, ?_,
    acquisitions_balanced hinvariant.lifecycle, ?_⟩
  · intro call before after hsplit
    rw [hinvariant.phase]
    exact phaseOf_closed hinvariant.lifecycle hsplit
  · intro call r hended
    have hpre := (session_verified h call).1
    rw [hended] at hpre
    have houtside : Outside call .nothing c.shared := by
      cases r with
      | ok => exact hpre
      | error e => exact hpre
    exact houtside.not_holder

theorem session_lifecycle_safe_started :
    ∃ c, (sessionSystem () startRequests).Reachable c ∧ c.shared.state = .running ∧
      LifecycleSafe c := by
  obtain ⟨c, hc, hstate⟩ := started_reachable
  exact ⟨c, hc, hstate, session_lifecycle_safe hc⟩

/-- The events of a session, whatever its callers do and whatever fails. -/
theorem session_events_safe (h : (sessionSystem closeJob requests).Reachable c) :
    EventsSafe c.shared := by
  have hinvariant := session_invariant h
  refine ⟨hinvariant.events, ?_, ?_⟩
  · rw [hinvariant.sequence]
    exact createdEvents_numbers hinvariant.events
  · intro call before segment after hsplit hopen
    exact reported_of_released (hsplit ▸ hinvariant.events) (hsplit ▸ hinvariant.lifecycle) hopen

theorem session_events_safe_started :
    ∃ c, (sessionSystem () startRequests).Reachable c ∧ c.shared.state = .running ∧
      EventsSafe c.shared := by
  obtain ⟨c, hc, hstate⟩ := started_reachable
  exact ⟨c, hc, hstate, session_events_safe hc⟩

end System

end SandboxSession
