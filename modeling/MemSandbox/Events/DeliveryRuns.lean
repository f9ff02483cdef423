import MemSandbox.Events.Delivery

/-! # Exactly-once delivery

    Any number of `emit`, `flush` and `close` calls, the worker and the closing
    task, in any order; the sink returns or fails with any exception, a timeout
    among them, and the worker may fail while it waits for an event.

    `delivered_once`: once the closing task has ended, every event that was
    emitted was accepted by the sink in its prepared form or reported, exactly
    once; and the sink gets and accepts events in the order they were emitted. -/

open Python EventDispatcher

namespace Dispatch

/-! ## Section 1: Model -/

/-- What happened to the event of an `emit` call. -/
inductive Event where
  | emitted (call : Nat) (event : SandboxEvent)
  /-- `sink.emit` was called. -/
  | offered (call : Nat) (event : SandboxEvent)
  /-- `sink.emit` returned. -/
  | accepted (call : Nat) (event : SandboxEvent)
  | reported (call : Nat) (diagnostic : EventDeliveryDiagnostic)
  /-- A `close` call ended after the closing task. -/
  | closed (closer : Nat)

namespace Event

def emission : Event → Option Nat
  | .emitted call _ => some call
  | _ => none

def offer : Event → Option Nat
  | .offered call _ => some call
  | _ => none

def acceptance : Event → Option Nat
  | .accepted call _ => some call
  | _ => none

/-- The call whose event has got its outcome. -/
def outcome : Event → Option Nat
  | .accepted call _ => some call
  | .reported call _ => some call
  | _ => none

end Event

/-- A suspended `close` call: at its first `shield`, or after a cancellation at
    the second. -/
inductive Closer where
  | waiting
  | cancelled

/-- The dispatcher, the number of `emit` calls so far, the suspended `close`
    calls, and the history. -/
structure World where
  dispatcher : EventDispatcher
  emits : Nat
  closers : Nat → Option Closer
  closes : Nat
  history : List Event

/-- A new dispatcher. -/
def World.new (policy : EventDeliveryPolicy) : World := ⟨.new policy, 0, fun _ => none, 0, []⟩

/-- A step of a call, of the worker or of the closing task. -/
inductive Action where
  | emit (event : SandboxEvent)
  | flush
  | close
  | cancelClose (closer : Nat)
  | returnClose (closer : Nat)
  | workerGet
  | sinkReturns
  /-- The sink raised, or the timeout did. -/
  | sinkFails (error : DeliveryError)
  /-- An exception other than a cancellation got out of the worker's loop. -/
  | workerFails (error : DeliveryError)
  | closeStart
  | closeJoined
  | closeEnd

variable [EventPreparation]

namespace World

/-- A call of `emit`. -/
def emit (W : World) (event : SandboxEvent) : World :=
  let (dispatcher, diagnostic) := W.dispatcher.emit W.emits event
  { W with
    dispatcher
    emits := W.emits + 1
    history := W.history ++ .emitted W.emits event ::
      (diagnostic.map fun diagnostic => .reported W.emits diagnostic).toList }

/-- The worker's `queue.get`. -/
def workerGet (W : World) : World :=
  match W.dispatcher.queue with
  | .event call event :: _ =>
    { W with dispatcher := W.dispatcher.workerGet, history := W.history ++ [.offered call event] }
  | _ => { W with dispatcher := W.dispatcher.workerGet }

/-- The worker fails, and reports what is queued. -/
def workerFails (W : World) (error : DeliveryError) : World :=
  let (dispatcher, failed) := W.dispatcher.failQueuedEvents
  { W with
    dispatcher
    history := W.history ++ failed.map fun entry => .reported entry.1 (report entry.2 error) }

/-- A suspended `close` call is cancelled; the second time it ends. -/
def cancelClose (W : World) (closer : Nat) : World :=
  match W.closers closer with
  | some .waiting => { W with closers := Function.update W.closers closer (some .cancelled) }
  | _ => { W with closers := Function.update W.closers closer none }

/-- One step; a step that is not possible changes nothing. -/
def after (W : World) : Action → World
  | .emit event => W.emit event
  -- `flush` only waits
  | .flush => W
  | .close =>
    { W with
      dispatcher := W.dispatcher.close
      closers := Function.update W.closers W.closes (some .waiting)
      closes := W.closes + 1 }
  | .cancelClose closer => W.cancelClose closer
  | .returnClose closer =>
    match W.closers closer, W.dispatcher.closeTask with
    | some _, .done =>
      { W with
        closers := Function.update W.closers closer none
        history := W.history ++ [.closed closer] }
    | _, _ => W
  | .workerGet =>
    match W.dispatcher.worker with
    | .getting => W.workerGet
    | _ => W
  | .sinkReturns =>
    match W.dispatcher.worker with
    | .sending call event =>
      { W with
        dispatcher := W.dispatcher.workerNext
        history := W.history ++ [.accepted call event] }
    | _ => W
  | .sinkFails error =>
    match W.dispatcher.worker with
    | .sending call event =>
      { W with
        dispatcher := W.dispatcher.workerNext
        history := W.history ++ [.reported call (report event error)] }
    | _ => W
  | .workerFails error =>
    match W.dispatcher.worker with
    | .getting => W.workerFails error
    | _ => W
  | .closeStart =>
    match W.dispatcher.closeTask with
    | .created => { W with dispatcher := W.dispatcher.closeStart }
    | _ => W
  | .closeJoined =>
    match W.dispatcher.closeTask, W.dispatcher.unfinished with
    | .joining, 0 => { W with dispatcher := W.dispatcher.closeJoined }
    | _, _ => W
  | .closeEnd =>
    match W.dispatcher.closeTask, W.dispatcher.worker with
    | .stopping, .done => { W with dispatcher := { W.dispatcher with closeTask := .done } }
    | _, _ => W

end World

/-- The runs of a dispatcher. -/
def system (policy : EventDeliveryPolicy) : System World Action where
  init W := W = .new policy
  step W action W' := W' = W.after action

/-! ## Section 2: Books -/

/-- The event is the prepared form of what the call was given. -/
def Prepared (history : List Event) (call : Nat) (prepared : SandboxEvent) : Prop :=
  ∃ event, .emitted call event ∈ history ∧ prepare event = .ok prepared

/-- What justifies an entry of the history. -/
def Rule (before : List Event) : Event → Prop
  | .emitted _ _ => True
  | .offered call prepared => Prepared before call prepared
  | .accepted call prepared => Prepared before call prepared
  | .reported call diagnostic =>
    ∃ event, .emitted call event ∈ before ∧ diagnostic.eventId = event.eventId
  | .closed _ => True

/-- Each call's event is with the sink, is queued, or has had its outcome, and
    the sink is given events in the order of the calls. -/
structure Books (sending queued : List (Nat × SandboxEvent)) (emits : Nat)
    (history : List Event) : Prop where
  emitted : history.filterMap Event.emission = List.range emits
  outcomes : (history.filterMap Event.outcome ++ (sending ++ queued).map Prod.fst).Perm
    (List.range emits)
  order : (history.filterMap Event.offer ++ queued.map Prod.fst).Pairwise (· < ·)
  bound : ∀ call ∈ history.filterMap Event.offer ++ queued.map Prod.fst, call < emits
  accepted : (history.filterMap Event.acceptance ++ sending.map Prod.fst).Sublist
    (history.filterMap Event.offer)
  prepared : ∀ entry ∈ sending ++ queued, Prepared history entry.1 entry.2
  justified : Justified Rule history

variable {sending queued : List (Nat × SandboxEvent)} {emits call : Nat} {history : List Event}
  {event : SandboxEvent}

theorem prepared_append (h : Prepared history call event) (more : List Event) :
    Prepared (history ++ more) call event := by
  obtain ⟨e, he, hprepare⟩ := h
  exact ⟨e, List.mem_append_left _ he, hprepare⟩

omit [EventPreparation] in
theorem calls_none {f : Event → Option Nat} {entry : Event} (h : f entry = none) :
    (history ++ [entry]).filterMap f = history.filterMap f := by
  rw [List.filterMap_append, List.filterMap_cons_none h, List.filterMap_nil, List.append_nil]

omit [EventPreparation] in
theorem calls_some {f : Event → Option Nat} {entry : Event} (h : f entry = some call) :
    (history ++ [entry]).filterMap f = history.filterMap f ++ [call] := by
  rw [List.filterMap_append, List.filterMap_cons_some h, List.filterMap_nil]

theorem books_new : Books [] [] 0 [] where
  emitted := rfl
  outcomes := .refl _
  order := .nil
  bound := List.forall_mem_nil _
  accepted := .refl _
  prepared := List.forall_mem_nil _
  justified := justified_nil

/-- `emit` queues the prepared form of the event. -/
theorem Books.enqueue (h : Books sending queued emits history) {prepared : SandboxEvent}
    (hprepare : prepare event = .ok prepared) :
    Books sending (queued ++ [(emits, prepared)]) (emits + 1)
      (history ++ [Event.emitted emits event]) where
  emitted := by
    rw [calls_some rfl, h.emitted, List.range_succ]
  outcomes := by
    rw [calls_none rfl, List.range_succ, ← List.append_assoc, List.map_append, ← List.append_assoc]
    exact h.outcomes.append_right _
  order := by
    rw [calls_none rfl, List.map_append, ← List.append_assoc]
    refine List.pairwise_append.mpr ⟨h.order, List.pairwise_singleton _ _, ?_⟩
    intro call hcall last hlast
    rw [List.mem_singleton.mp hlast]
    exact h.bound call hcall
  bound call hcall := by
    rw [calls_none rfl, List.map_append, ← List.append_assoc] at hcall
    rcases List.mem_append.mp hcall with hcall | hcall
    · exact Nat.lt_succ_of_lt (h.bound call hcall)
    · rw [List.mem_singleton.mp hcall]
      exact Nat.lt_succ_self _
  accepted := by
    rw [calls_none rfl, calls_none rfl]
    exact h.accepted
  prepared entry hentry := by
    rw [← List.append_assoc] at hentry
    rcases List.mem_append.mp hentry with hentry | hentry
    · exact prepared_append (h.prepared entry hentry) _
    · rw [List.mem_singleton.mp hentry]
      exact ⟨event, List.mem_append_right _ (List.mem_singleton.mpr rfl), hprepare⟩
  justified := justified_concat.mpr ⟨h.justified, trivial⟩

/-- `emit` reports the event. -/
theorem Books.reject (h : Books sending queued emits history)
    {diagnostic : EventDeliveryDiagnostic} (heventId : diagnostic.eventId = event.eventId) :
    Books sending queued (emits + 1)
      (history ++ [Event.emitted emits event] ++ [Event.reported emits diagnostic]) where
  emitted := by
    rw [calls_none rfl, calls_some rfl, h.emitted, List.range_succ]
  outcomes := by
    rw [calls_some rfl, calls_none rfl, List.range_succ, List.append_assoc]
    -- the report stands before the open events, and the last number behind them
    have hswap := @List.perm_append_comm _ [emits] ((sending ++ queued).map Prod.fst)
    refine (hswap.append_left _).trans ?_
    rw [← List.append_assoc]
    exact h.outcomes.append_right _
  order := by
    rw [calls_none rfl, calls_none rfl]
    exact h.order
  bound call hcall := by
    rw [calls_none rfl, calls_none rfl] at hcall
    exact Nat.lt_succ_of_lt (h.bound call hcall)
  accepted := by
    rw [calls_none rfl, calls_none rfl, calls_none rfl, calls_none rfl]
    exact h.accepted
  prepared entry hentry := prepared_append (prepared_append (h.prepared entry hentry) _) _
  justified := by
    refine justified_concat.mpr ⟨justified_concat.mpr ⟨h.justified, trivial⟩, event, ?_, heventId⟩
    exact List.mem_append_right _ (List.mem_singleton.mpr rfl)

/-- The worker takes the first event to the sink. -/
theorem Books.offer (h : Books [] ((call, event) :: queued) emits history) :
    Books [(call, event)] queued emits (history ++ [Event.offered call event]) where
  emitted := by
    rw [calls_none rfl]
    exact h.emitted
  outcomes := by
    rw [calls_none rfl]
    exact h.outcomes
  order := by
    rw [calls_some rfl, List.append_assoc]
    exact h.order
  bound c hc := by
    rw [calls_some rfl, List.append_assoc] at hc
    exact h.bound c hc
  accepted := by
    have haccepted := h.accepted
    rw [List.map_nil, List.append_nil] at haccepted
    rw [calls_none rfl, calls_some rfl]
    exact haccepted.append (.refl _)
  prepared entry hentry := prepared_append (h.prepared entry hentry) _
  justified := justified_concat.mpr ⟨h.justified, h.prepared _ List.mem_cons_self⟩

/-- The sink accepts the event it was given. -/
theorem Books.accept (h : Books [(call, event)] queued emits history) :
    Books [] queued emits (history ++ [Event.accepted call event]) where
  emitted := by
    rw [calls_none rfl]
    exact h.emitted
  outcomes := by
    rw [calls_some rfl, List.append_assoc]
    exact h.outcomes
  order := by
    rw [calls_none rfl]
    exact h.order
  bound c hc := by
    rw [calls_none rfl] at hc
    exact h.bound c hc
  accepted := by
    rw [calls_some rfl, calls_none rfl, List.map_nil, List.append_nil]
    exact h.accepted
  prepared entry hentry := prepared_append (h.prepared entry (List.mem_cons_of_mem _ hentry)) _
  justified := justified_concat.mpr ⟨h.justified, h.prepared _ List.mem_cons_self⟩

/-- An event that the sink has, or that is queued, is reported. -/
theorem Books.fail {sending' queued' : List (Nat × SandboxEvent)}
    (h : Books sending queued emits history)
    (hopen : sending ++ queued = (call, event) :: (sending' ++ queued'))
    (hsending : sending'.Sublist sending) (hqueued : queued'.Sublist queued)
    (error : DeliveryError) :
    Books sending' queued' emits (history ++ [Event.reported call (report event error)]) where
  emitted := by
    rw [calls_none rfl]
    exact h.emitted
  outcomes := by
    have houtcomes := h.outcomes
    rw [hopen] at houtcomes
    rw [calls_some rfl, List.append_assoc]
    exact houtcomes
  order := by
    rw [calls_none rfl]
    exact h.order.sublist ((List.Sublist.refl _).append (hqueued.map _))
  bound c hc := by
    rw [calls_none rfl] at hc
    exact h.bound c (((List.Sublist.refl _).append (hqueued.map _)).subset hc)
  accepted := by
    rw [calls_none rfl, calls_none rfl]
    exact ((List.Sublist.refl _).append (hsending.map _)).trans h.accepted
  prepared entry hentry := by
    have hmem : entry ∈ sending ++ queued := by
      rw [hopen]
      exact List.mem_cons_of_mem _ hentry
    exact prepared_append (h.prepared entry hmem) _
  justified := by
    have hmem : (call, event) ∈ sending ++ queued := by
      rw [hopen]
      exact List.mem_cons_self
    obtain ⟨e, he, hprepare⟩ := h.prepared _ hmem
    exact justified_concat.mpr ⟨h.justified, e, he, eventId_of_prepare hprepare⟩

/-- Everything that is queued is reported. -/
theorem Books.drain (h : Books [] queued emits history) (error : DeliveryError) :
    Books [] [] emits
      (history ++ queued.map fun entry => Event.reported entry.1 (report entry.2 error)) := by
  induction queued generalizing history with
  | nil =>
    rw [List.map_nil, List.append_nil]
    exact h
  | cons entry queued ih =>
    rw [List.map_cons, List.append_cons]
    exact ih (h.fail rfl (.refl _) (List.sublist_cons_self _ _) error)

/-- A `close` call has no event. -/
theorem Books.close (h : Books sending queued emits history) (closer : Nat) :
    Books sending queued emits (history ++ [Event.closed closer]) where
  emitted := by
    rw [calls_none rfl]
    exact h.emitted
  outcomes := by
    rw [calls_none rfl]
    exact h.outcomes
  order := by
    rw [calls_none rfl]
    exact h.order
  bound c hc := by
    rw [calls_none rfl] at hc
    exact h.bound c hc
  accepted := by
    rw [calls_none rfl, calls_none rfl]
    exact h.accepted
  prepared entry hentry := prepared_append (h.prepared entry hentry) _
  justified := justified_concat.mpr ⟨h.justified, trivial⟩

/-! ## Section 3: The invariant -/

/-- The event that the sink has. -/
def withSink : Worker → List (Nat × SandboxEvent)
  | .sending call event => [(call, event)]
  | _ => []

/-- The books are kept; what is unfinished is queued or with the sink; a queue
    has a live worker; nothing is queued behind the stop token; and behind
    `close` nothing is accepted. -/
structure Safe (W : World) : Prop where
  books : Books (withSink W.dispatcher.worker) (events W.dispatcher.queue)
    W.emits W.history
  unfinished : W.dispatcher.unfinished =
    W.dispatcher.queue.length + (withSink W.dispatcher.worker).length
  idle : W.dispatcher.worker = .none ∨ W.dispatcher.worker = .done → W.dispatcher.queue = []
  stop : .stop ∈ W.dispatcher.queue →
    W.dispatcher.queue = [.stop] ∧ W.dispatcher.accepting = false
  closing : W.dispatcher.closeTask ≠ .none → W.dispatcher.accepting = false
  joining : W.dispatcher.closeTask = .joining → W.dispatcher.worker ≠ .none
  ended : W.dispatcher.closeTask = .done →
    W.dispatcher.worker = .none ∨ W.dispatcher.worker = .done
  closed : ∀ closer, .closed closer ∈ W.history → W.dispatcher.closeTask = .done

theorem safe_new (policy : EventDeliveryPolicy) : Safe (.new policy) where
  books := books_new
  unfinished := rfl
  idle _ := rfl
  stop := nofun
  closing h := absurd rfl h
  joining := nofun
  ended := nofun
  closed := nofun

omit [EventPreparation] in
/-- There is a live worker, which has what the worker before had. -/
theorem ensureWorker_eq (D : EventDispatcher) : ∃ worker, worker ≠ .none ∧ worker ≠ .done ∧
    withSink worker = withSink D.worker ∧ D.ensureWorker = { D with worker } := by
  obtain ⟨policy, queue, unfinished, worker, accepting, task⟩ := D
  cases worker with
  | none => exact ⟨.getting, nofun, nofun, rfl, rfl⟩
  | done => exact ⟨.getting, nofun, nofun, rfl, rfl⟩
  | getting => exact ⟨.getting, nofun, nofun, rfl, rfl⟩
  | sending call event => exact ⟨.sending call event, nofun, nofun, rfl, rfl⟩

/-- What a call of `emit` does. -/
theorem emit_cases (D : EventDispatcher) (call : Nat) (event : SandboxEvent) :
    (∃ error, D.emit call event = (D, some (report event error))) ∨
    (∃ error, D.accepting = true ∧ D.emit call event = (D.ensureWorker, some (report event error))) ∨
    (∃ prepared, D.accepting = true ∧ prepare event = .ok prepared ∧
      D.emit call event =
        ({ D.ensureWorker with
          queue := D.ensureWorker.queue ++ [.event call prepared]
          unfinished := D.ensureWorker.unfinished + 1 }, none)) := by
  unfold EventDispatcher.emit
  cases haccepting : D.accepting with
  | false => exact .inl ⟨.sinkClosed, rfl⟩
  | true =>
    cases hprepare : prepare event with
    | error error => exact .inl ⟨error, rfl⟩
    | ok prepared =>
      right
      unfold EventDispatcher.putNowait
      by_cases hfull : D.ensureWorker.queue.length ≥ D.ensureWorker.policy.maxPendingEvents
      · left
        exact ⟨.bufferLimitExceeded, rfl, by simp only [if_true, if_pos hfull]⟩
      · right
        exact ⟨prepared, rfl, rfl, by simp only [if_true, if_neg hfull]⟩

/-! ## Section 4: Every step -/

variable {W : World}

omit [EventPreparation] in
theorem closed_of_append {more : List Event} (hmore : ∀ closer, .closed closer ∉ more)
    {closer : Nat} (h : .closed closer ∈ history ++ more) : .closed closer ∈ history := by
  rcases List.mem_append.mp h with h | h
  · exact h
  · exact absurd h (hmore closer)

omit [EventPreparation] in
theorem events_append (queue : List QueueItem) (item : QueueItem) :
    events (queue ++ [item]) =
      events queue ++ events [item] := List.filterMap_append

theorem Safe.emit (h : Safe W) (event : SandboxEvent) : Safe (W.emit event) := by
  unfold World.emit
  obtain ⟨worker, hnone, hdone, hsink, hensure⟩ := ensureWorker_eq W.dispatcher
  have hreject : ∀ error, Books (withSink W.dispatcher.worker)
      (events W.dispatcher.queue) (W.emits + 1)
      (W.history ++ [Event.emitted W.emits event, .reported W.emits (report event error)]) := by
    intro error
    have hbooks := @Books.reject _ _ _ _ _ event h.books (report event error) rfl
    rw [List.append_assoc] at hbooks
    exact hbooks
  have hopen : W.dispatcher.accepting = true → W.dispatcher.closeTask = .none := by
    intro haccepting
    by_contra hclosing
    rw [h.closing hclosing] at haccepting
    exact nomatch haccepting
  rcases emit_cases W.dispatcher W.emits event with
    ⟨error, hemit⟩ | ⟨error, haccepting, hemit⟩ | ⟨prepared, haccepting, hprepare, hemit⟩
  · rw [hemit]
    exact { h with
      books := hreject error
      closed := fun closer hcloser => h.closed closer (closed_of_append (by simp) hcloser) }
  · have htask := hopen haccepting
    rw [hemit, hensure]
    exact {
      books := hsink ▸ hreject error
      unfinished := h.unfinished.trans (by rw [hsink])
      idle := fun hidle => absurd hidle (not_or.mpr ⟨hnone, hdone⟩)
      stop := h.stop
      closing := h.closing
      joining := fun _ => hnone
      ended := fun hended => nomatch htask.symm.trans hended
      closed := fun closer hcloser => h.closed closer (closed_of_append (by simp) hcloser) }
  · have htask := hopen haccepting
    have hbooks := h.books.enqueue hprepare
    rw [hemit, hensure]
    refine {
      books := ?_
      unfinished := ?_
      idle := fun hidle => absurd hidle (not_or.mpr ⟨hnone, hdone⟩)
      stop := ?_
      closing := h.closing
      joining := fun _ => hnone
      ended := fun hended => nomatch htask.symm.trans hended
      closed := fun closer hcloser => h.closed closer (closed_of_append (by simp) hcloser) }
    · show Books (withSink worker) (events (W.dispatcher.queue ++ [_])) _ _
      rw [hsink, events_append]
      exact hbooks
    · show W.dispatcher.unfinished + 1 =
        (W.dispatcher.queue ++ [_]).length + (withSink worker).length
      rw [hsink, List.length_append, List.length_singleton, h.unfinished]
      omega
    · intro hstop
      -- a stop token is only queued when nothing is accepted
      rcases List.mem_append.mp hstop with hstop | hstop
      · have hclosed := (h.stop hstop).2
        rw [haccepting] at hclosed
        exact nomatch hclosed
      · exact nomatch List.mem_singleton.mp hstop

/-- The worker takes an item: there is nothing behind a stop token. -/
theorem Safe.workerGet (h : Safe W) (hworker : W.dispatcher.worker = .getting) :
    Safe W.workerGet := by
  have hbooks := h.books
  have hunfinished := h.unfinished
  have hlive : W.dispatcher.closeTask ≠ .done := by
    intro htask
    rcases h.ended htask with hended | hended
    · exact nomatch hworker.symm.trans hended
    · exact nomatch hworker.symm.trans hended
  rw [hworker] at hbooks hunfinished
  unfold World.workerGet EventDispatcher.workerGet
  cases hqueue : W.dispatcher.queue with
  | nil => exact h
  | cons item queue =>
    rw [hqueue] at hbooks hunfinished
    cases item with
    | event call event =>
      refine {
        books := hbooks.offer
        unfinished := hunfinished
        idle := nofun
        stop := ?_
        closing := h.closing
        joining := nofun
        ended := fun hended => absurd hended hlive
        closed := fun closer hcloser => h.closed closer (closed_of_append (by simp) hcloser) }
      intro hstop
      have hwhole := (h.stop (hqueue ▸ List.mem_cons_of_mem _ hstop)).1
      rw [hqueue] at hwhole
      exact nomatch hwhole
    | stop =>
      obtain ⟨hwhole, haccepting⟩ := h.stop (hqueue ▸ List.mem_cons_self)
      rw [hqueue] at hwhole
      obtain ⟨-, rfl⟩ := List.cons.inj hwhole
      refine {
        books := hbooks
        unfinished := ?_
        idle := fun _ => rfl
        stop := nofun
        closing := h.closing
        joining := nofun
        ended := fun _ => .inr rfl
        closed := h.closed }
      show W.dispatcher.unfinished - 1 = 0
      rw [hunfinished]
      rfl

/-- The worker goes on behind `sink.emit`. -/
theorem Safe.workerNext (h : Safe W) {call : Nat} {event : SandboxEvent} {entry : Event}
    (hworker : W.dispatcher.worker = .sending call event)
    (hbooks : Books [] (events W.dispatcher.queue) W.emits (W.history ++ [entry]))
    (hentry : ∀ closer, .closed closer ∉ [entry]) :
    Safe { W with
      dispatcher := W.dispatcher.workerNext
      history := W.history ++ [entry] } := by
  have hunfinished := h.unfinished
  rw [hworker] at hunfinished
  refine {
    books := hbooks
    unfinished := ?_
    idle := nofun
    stop := h.stop
    closing := h.closing
    joining := nofun
    ended := ?_
    closed := fun closer hcloser => h.closed closer (closed_of_append hentry hcloser) }
  · show W.dispatcher.unfinished - 1 = W.dispatcher.queue.length + 0
    rw [hunfinished]
    rfl
  · intro hended
    rcases h.ended hended with hidle | hidle
    · exact nomatch hworker.symm.trans hidle
    · exact nomatch hworker.symm.trans hidle

/-- The worker fails: what was queued has been reported. -/
theorem Safe.workerFails (h : Safe W) (hworker : W.dispatcher.worker = .getting)
    (error : DeliveryError) : Safe (W.workerFails error) := by
  have hbooks := h.books
  have hunfinished := h.unfinished
  rw [hworker] at hbooks hunfinished
  refine {
    books := hbooks.drain error
    unfinished := ?_
    idle := fun _ => rfl
    stop := nofun
    closing := h.closing
    joining := nofun
    ended := fun _ => .inr rfl
    closed := fun closer hcloser => h.closed closer (closed_of_append ?_ hcloser) }
  · show W.dispatcher.unfinished - W.dispatcher.queue.length = 0
    rw [hunfinished]
    exact Nat.sub_self _
  · intro closer hmem
    obtain ⟨entry, -, hentry⟩ := List.mem_map.mp hmem
    exact nomatch hentry

/-- `close` stops the dispatcher from accepting events. -/
theorem Safe.close (h : Safe W) : Safe (W.after .close) := by
  unfold World.after EventDispatcher.close
  cases htask : W.dispatcher.closeTask with
  | none =>
    exact { h with
      stop := fun hstop => ⟨(h.stop hstop).1, rfl⟩
      closing := fun _ => rfl
      joining := nofun
      ended := nofun
      closed := fun closer hcloser => nomatch htask.symm.trans (h.closed closer hcloser) }
  | _ => exact { h with }

omit [EventPreparation] in
theorem closeStart_cases (D : EventDispatcher) :
    (D.worker = .none ∧ D.closeStart = { D with closeTask := .done }) ∨
      (D.worker ≠ .none ∧ D.closeStart = { D with closeTask := .joining }) := by
  obtain ⟨policy, queue, unfinished, worker, accepting, task⟩ := D
  cases worker with
  | none => exact .inl ⟨rfl, rfl⟩
  | _ => exact .inr ⟨nofun, rfl⟩

omit [EventPreparation] in
theorem closeJoined_cases (D : EventDispatcher) :
    (D.worker = .done ∧ D.closeJoined = { D with closeTask := .done }) ∨
      (D.worker ≠ .done ∧ D.closeJoined =
        { D with
          queue := D.queue ++ [.stop]
          unfinished := D.unfinished + 1
          closeTask := .stopping }) := by
  obtain ⟨policy, queue, unfinished, worker, accepting, task⟩ := D
  cases worker with
  | done => exact .inl ⟨rfl, rfl⟩
  | _ => exact .inr ⟨nofun, rfl⟩

/-- The closing task ends after the worker. -/
theorem Safe.ends (h : Safe W) (htask : W.dispatcher.closeTask ≠ .none)
    (hworker : W.dispatcher.worker = .none ∨ W.dispatcher.worker = .done) :
    Safe { W with dispatcher := { W.dispatcher with closeTask := .done } } :=
  { h with
    closing := fun _ => h.closing htask
    joining := nofun
    ended := fun _ => hworker
    closed := fun _ _ => rfl }

theorem Safe.closeStart (h : Safe W) (htask : W.dispatcher.closeTask = .created) :
    Safe { W with dispatcher := W.dispatcher.closeStart } := by
  have hclosing : W.dispatcher.closeTask ≠ .none := by
    rw [htask]
    exact nofun
  rcases closeStart_cases W.dispatcher with ⟨hworker, hstart⟩ | ⟨hworker, hstart⟩
  · rw [hstart]
    exact h.ends hclosing (.inl hworker)
  · rw [hstart]
    exact { h with
      closing := fun _ => h.closing hclosing
      joining := fun _ => hworker
      ended := nofun
      closed := fun closer hcloser => nomatch htask.symm.trans (h.closed closer hcloser) }

/-- The stop token is put into an empty queue. -/
theorem Safe.closeJoined (h : Safe W) (htask : W.dispatcher.closeTask = .joining)
    (hjoined : W.dispatcher.unfinished = 0) :
    Safe { W with dispatcher := W.dispatcher.closeJoined } := by
  have hclosing : W.dispatcher.closeTask ≠ .none := by
    rw [htask]
    exact nofun
  have hunfinished := h.unfinished
  have hqueue : W.dispatcher.queue = [] := List.length_eq_zero_iff.mp (by omega)
  have haccepting := h.closing hclosing
  rcases closeJoined_cases W.dispatcher with ⟨hworker, hclose⟩ | ⟨hworker, hclose⟩
  · rw [hclose]
    exact h.ends hclosing (.inr hworker)
  · rw [hclose]
    refine {
      books := ?_
      unfinished := ?_
      idle := ?_
      stop := ?_
      closing := fun _ => haccepting
      joining := nofun
      ended := nofun
      closed := fun closer hcloser => nomatch htask.symm.trans (h.closed closer hcloser) }
    · show Books _ (events (W.dispatcher.queue ++ [QueueItem.stop])) _ _
      rw [events_append]
      exact (List.append_nil _).symm ▸ h.books
    · show W.dispatcher.unfinished + 1 = (W.dispatcher.queue ++ [QueueItem.stop]).length +
        (withSink W.dispatcher.worker).length
      rw [List.length_append, List.length_singleton, h.unfinished]
      omega
    · intro hidle
      exact (hidle.elim (h.joining htask) hworker).elim
    · intro _
      refine ⟨?_, haccepting⟩
      show W.dispatcher.queue ++ [.stop] = [.stop]
      rw [hqueue, List.nil_append]

/-- Every step keeps the invariant. -/
theorem Safe.after (h : Safe W) (action : Action) : Safe (W.after action) := by
  cases action with
  | emit event => exact h.emit event
  | flush => exact h
  | close => exact h.close
  | cancelClose closer =>
    simp only [World.after, World.cancelClose]
    cases W.closers closer with
    | none => exact { h with }
    | some state =>
      cases state with
      | waiting => exact { h with }
      | cancelled => exact { h with }
  | returnClose closer =>
    simp only [World.after]
    split
    · next htask => exact { h with
        books := h.books.close closer
        closed := fun _ _ => htask }
    · exact h
  | workerGet =>
    simp only [World.after]
    split
    · next hworker => exact h.workerGet hworker
    · exact h
  | sinkReturns =>
    simp only [World.after]
    split
    · next call event hworker =>
      have hbooks := h.books
      rw [hworker] at hbooks
      exact h.workerNext hworker hbooks.accept (by simp)
    · exact h
  | sinkFails error =>
    simp only [World.after]
    split
    · next call event hworker =>
      have hbooks := h.books
      rw [hworker] at hbooks
      have hfail : Books [] (events W.dispatcher.queue) W.emits
          (W.history ++ [Event.reported call (report event error)]) :=
        hbooks.fail rfl (List.nil_sublist _) (.refl _) error
      exact h.workerNext hworker hfail (by simp)
    · exact h
  | workerFails error =>
    simp only [World.after]
    split
    · next hworker => exact h.workerFails hworker error
    · exact h
  | closeStart =>
    simp only [World.after]
    split
    · next htask => exact h.closeStart htask
    · exact h
  | closeJoined =>
    simp only [World.after]
    split
    · next htask hjoined => exact h.closeJoined htask hjoined
    · exact h
  | closeEnd =>
    simp only [World.after]
    split
    · next htask hworker =>
      refine h.ends ?_ (.inr hworker)
      rw [htask]
      exact nofun
    · exact h

/-! ## Section 5: Every run -/

theorem safe_of_reachable {policy : EventDeliveryPolicy} (h : (system policy).Reachable W) :
    Safe W := by
  refine h.invariant ?_ ?_
  · intro W hW
    rw [show W = .new policy from hW]
    exact safe_new policy
  · intro W action W' _ hW hstep
    rw [show W' = W.after action from hstep]
    exact hW.after action

/-- The entries that settle what became of a call's event. -/
def Event.settles (call : Nat) (entry : Event) : Bool := entry.outcome = some call

omit [EventPreparation] in
theorem countP_settles (history : List Event) (call : Nat) :
    history.countP (Event.settles call) = (history.filterMap Event.outcome).count call := by
  induction history with
  | nil => rfl
  | cons entry history ih =>
    rw [List.countP_cons, ih, List.filterMap_cons]
    unfold Event.settles
    cases entry.outcome with
    | none => simp
    | some other => rw [List.count_cons]; simp

/-- What the sink and the diagnostic handler got. -/
structure Delivered (W : World) : Prop where
  /-- The events were emitted in the order of their calls. -/
  calls : W.history.filterMap Event.emission = List.range W.emits
  /-- The sink is given events in that order, -/
  offeredInOrder : (W.history.filterMap Event.offer).Pairwise (· < ·)
  /-- and accepts them in that order, -/
  acceptedInOrder : (W.history.filterMap Event.acceptance).Pairwise (· < ·)
  /-- each in its prepared form. -/
  accepted : ∀ call prepared, .accepted call prepared ∈ W.history →
    ∃ event, .emitted call event ∈ W.history ∧ prepare event = .ok prepared
  /-- A diagnostic is about the event of the call. -/
  reported : ∀ call diagnostic, .reported call diagnostic ∈ W.history →
    ∃ event, .emitted call event ∈ W.history ∧ diagnostic.eventId = event.eventId
  /-- No event has two outcomes, -/
  atMostOnce : ∀ call, W.history.countP (Event.settles call) ≤ 1
  /-- and behind a completed `close` every one has one. -/
  exactlyOnce : (W.dispatcher.closeTask = .done ∨ ∃ closer, .closed closer ∈ W.history) →
    ∀ call event, .emitted call event ∈ W.history → W.history.countP (Event.settles call) = 1

/-- Nothing is lost and nothing duplicated, whatever the callers, the sink and
    the handler do, and in whatever order. -/
theorem delivered_once {policy : EventDeliveryPolicy} (h : (system policy).Reachable W) :
    Delivered W := by
  have hsafe := safe_of_reachable h
  have hbooks := hsafe.books
  have hentry : ∀ entry ∈ W.history, ∃ before, Rule before entry ∧ before.Sublist W.history := by
    intro entry hmem
    obtain ⟨before, after, heq⟩ := List.append_of_mem hmem
    refine ⟨before, hbooks.justified before entry after heq, ?_⟩
    rw [heq]
    exact List.sublist_append_left _ _
  refine ⟨hbooks.emitted, ?_, ?_, ?_, ?_, ?_, ?_⟩
  · exact (List.pairwise_append.mp hbooks.order).1
  · have hsublist := (List.sublist_append_left _ _).trans hbooks.accepted
    exact (List.pairwise_append.mp hbooks.order).1.sublist hsublist
  · intro call prepared hmem
    obtain ⟨before, ⟨event, hevent, hprepare⟩, hsublist⟩ := hentry _ hmem
    exact ⟨event, hsublist.subset hevent, hprepare⟩
  · intro call diagnostic hmem
    obtain ⟨before, ⟨event, hevent, heventId⟩, hsublist⟩ := hentry _ hmem
    exact ⟨event, hsublist.subset hevent, heventId⟩
  · intro call
    rw [countP_settles]
    have hnodup := hbooks.outcomes.nodup_iff.mpr List.nodup_range
    exact List.nodup_iff_count_le_one.mp (List.nodup_append.mp hnodup).1 call
  · intro hclosed call event hmem
    have htask : W.dispatcher.closeTask = .done := by
      rcases hclosed with htask | ⟨closer, hcloser⟩
      · exact htask
      · exact hsafe.closed closer hcloser
    -- nothing is with the sink and nothing is queued
    have hworker := hsafe.ended htask
    have houtcomes := hbooks.outcomes
    have hsink : withSink W.dispatcher.worker = [] := by
      rcases hworker with hworker | hworker
      · rw [hworker]
        rfl
      · rw [hworker]
        rfl
    rw [hsink, hsafe.idle hworker] at houtcomes
    have hcall : call ∈ List.range W.emits := by
      rw [← hbooks.emitted]
      exact List.mem_filterMap.mpr ⟨_, hmem, rfl⟩
    rw [countP_settles]
    calc (W.history.filterMap Event.outcome).count call
        = (W.history.filterMap Event.outcome ++ []).count call := by rw [List.append_nil]
      _ = (List.range W.emits).count call := houtcomes.count_eq call
      _ = 1 := List.count_eq_one_of_mem List.nodup_range hcall

end Dispatch

/-! ## Section 6: A run -/

namespace Dispatch.OneEvent

/-- Nothing is protected. -/
scoped instance preparation : EventPreparation where
  prepareAttributes event := .ok event.attributes

def policy : EventDeliveryPolicy := ⟨1, Nat.one_pos⟩

def event : SandboxEvent := ⟨⟨py "session", 1, Nat.one_pos⟩, []⟩

/-- One event is sent and accepted; the closing task stops the worker. -/
def world : World :=
  ((((((((World.new policy).after (.emit event)).after .close).after .workerGet).after
    .sinkReturns).after .closeStart).after .closeJoined).after .workerGet).after .closeEnd

theorem delivered_once_world : Delivered world ∧ world.dispatcher.closeTask = .done :=
  ⟨delivered_once (.step (.step (.step (.step (.step (.step (.step (.step (.init rfl)
    rfl) rfl) rfl) rfl) rfl) rfl) rfl) rfl), rfl⟩

end Dispatch.OneEvent
