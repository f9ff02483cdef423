import MemSandbox.Lib.System
import MemSandbox.Lib.Text

/-! # Best-effort event delivery

    `events/delivery.py`, `EventDispatcher` with a queue: `emit` puts the
    prepared form of an event in a bounded queue, from which one worker task
    takes it to the sink, and a closing task waits for the queue to be empty and
    stops the worker.

    The diagnostic handler returns or raises an `Exception`; `_report` goes on
    in the same way after both, so what the handler does is left out.

    A queued event is kept with the number of the `emit` call that queued it,
    which no function looks at. -/

open Python

/-! ## Section 1: Events -/

/-- `EventId`. -/
structure EventId where
  sessionId : Text
  sequence : Nat
  positive : 0 < sequence

/-- The scalar values of an attribute. -/
inductive EventValue where
  | str (text : Text)
  | int (n : Int)
  | float (q : ℚ)
  | bool (b : Bool)
  | none

inductive EventSensitivity where
  | «public»
  | internal
  | «protected»
  | secret

/-- `EventAttribute`. -/
structure EventAttribute where
  name : Text
  value : EventValue
  sensitivity : EventSensitivity

/-- What delivery reads of a `SandboxEvent`: its identity, and the attributes,
    which preparing replaces. -/
structure SandboxEvent where
  eventId : EventId
  attributes : List EventAttribute

/-- What `_report` reads of an exception: the name and the `code` of its class,
    and its text when it is a `SandboxError`. -/
structure DeliveryError where
  typeName : Text
  code : Option Text
  sandboxText : Option Text

/-- `EventDeliveryDiagnostic`. -/
structure EventDeliveryDiagnostic where
  eventId : EventId
  failureCode : Text
  message : Text
  code_ne : failureCode ≠ []
  message_ne : message ≠ []

/-- What the redactor, the payload policy and the limits of a dispatcher make of
    an event's attributes, or why they reject it. -/
class EventPreparation where
  prepareAttributes : SandboxEvent → Except DeliveryError (List EventAttribute)

/-- `EventDeliveryPolicy`. -/
structure EventDeliveryPolicy where
  maxPendingEvents : Nat
  pending_pos : 0 < maxPendingEvents

namespace DeliveryError

/-- `EventSinkClosed("event dispatcher is closed")`. -/
def sinkClosed : DeliveryError :=
  ⟨py "EventSinkClosed", some (py "event_sink_closed"), some (py "event dispatcher is closed")⟩

/-- `EventBufferLimitExceeded("best-effort event queue is full")`. -/
def bufferLimitExceeded : DeliveryError :=
  ⟨py "EventBufferLimitExceeded", some (py "event_buffer_limit_exceeded"),
    some (py "best-effort event queue is full")⟩

/-- `failure_code` in `_report`. -/
def failureCode (error : DeliveryError) : Text :=
  match error.code with
  | some code => if code = [] then py "event_delivery_failed" else code
  | none => py "event_delivery_failed"

/-- `message` in `_report`. -/
def message (error : DeliveryError) : Text :=
  match error.sandboxText with
  | some text =>
    if text = [] then py "event delivery failed (" ++ error.typeName ++ py ")" else text
  | none => py "event delivery failed (" ++ error.typeName ++ py ")"

theorem failureCode_ne (error : DeliveryError) : error.failureCode ≠ [] := by
  unfold failureCode
  cases error.code with
  | none => exact List.cons_ne_nil _ _
  | some code =>
    by_cases hcode : code = []
    · simp only [hcode, if_true]
      exact List.cons_ne_nil _ _
    · simp only [hcode, if_false]
      exact hcode

theorem message_ne (error : DeliveryError) : error.message ≠ [] := by
  unfold message
  cases error.sandboxText with
  | none => exact List.cons_ne_nil _ _
  | some text =>
    by_cases htext : text = []
    · simp only [htext, if_true]
      exact List.cons_ne_nil _ _
    · simp only [htext, if_false]
      exact htext

end DeliveryError

/-- The diagnostic that `_report` hands over. -/
def EventDispatcher.report (event : SandboxEvent) (error : DeliveryError) : EventDeliveryDiagnostic :=
  ⟨event.eventId, error.failureCode, error.message, error.failureCode_ne, error.message_ne⟩

/-- `_prepare`. -/
def EventDispatcher.prepare [EventPreparation] (event : SandboxEvent) : Except DeliveryError SandboxEvent := do
  let attributes ← EventPreparation.prepareAttributes event
  return { event with attributes }

/-- Preparing keeps the identity of an event. -/
theorem EventDispatcher.eventId_of_prepare [EventPreparation] {event prepared : SandboxEvent}
    (h : prepare event = .ok prepared) : prepared.eventId = event.eventId := by
  unfold prepare at h
  cases hattributes : EventPreparation.prepareAttributes event with
  | error e =>
    rw [hattributes] at h
    exact nomatch h
  | ok attributes =>
    rw [hattributes] at h
    cases h
    rfl

/-! ## Section 2: The dispatcher -/

/-- What the queue holds. -/
inductive EventDispatcher.QueueItem where
  | event (call : Nat) (event : SandboxEvent)
  | stop

/-- The worker task: suspended in `queue.get` or in `sink.emit`, or ended. -/
inductive EventDispatcher.Worker where
  | none
  | getting
  | sending (call : Nat) (event : SandboxEvent)
  | done

/-- `_close_once`: not started, suspended in `queue.join` or in `await worker`,
    or ended. -/
inductive EventDispatcher.CloseTask where
  | none
  | created
  | joining
  | stopping
  | done

/-- The fields of an `EventDispatcher` that change, and its policy; `unfinished`
    is the queue's count of items without a `task_done`. -/
structure EventDispatcher where
  policy : EventDeliveryPolicy
  queue : List EventDispatcher.QueueItem
  unfinished : Nat
  worker : EventDispatcher.Worker
  accepting : Bool
  closeTask : EventDispatcher.CloseTask

namespace EventDispatcher

/-- A new dispatcher. -/
def new (policy : EventDeliveryPolicy) : EventDispatcher := ⟨policy, [], 0, .none, true, .none⟩

/-- `_ensure_worker`. -/
def ensureWorker (D : EventDispatcher) : EventDispatcher :=
  match D.worker with
  | .none => { D with worker := .getting }
  | .done => { D with worker := .getting }
  | _ => D

/-- `queue.put_nowait`; `none` when the queue is full. -/
def putNowait (D : EventDispatcher) (item : QueueItem) : Option EventDispatcher :=
  if D.queue.length ≥ D.policy.maxPendingEvents then none
  else some { D with queue := D.queue ++ [item], unfinished := D.unfinished + 1 }

/-- `queue.task_done`. -/
def taskDone (D : EventDispatcher) : EventDispatcher := { D with unfinished := D.unfinished - 1 }

/-- `emit`, and the diagnostic it reports. -/
def emit [EventPreparation] (D : EventDispatcher) (call : Nat) (event : SandboxEvent) :
    EventDispatcher × Option EventDeliveryDiagnostic :=
  if D.accepting then
    match prepare event with
    | .error error => (D, some (report event error))
    | .ok prepared =>
      match D.ensureWorker.putNowait (.event call prepared) with
      | some D' => (D', none)
      | none => (D.ensureWorker, some (report event .bufferLimitExceeded))
  else
    (D, some (report event .sinkClosed))

/-- The worker takes the next item; the stop token ends it. -/
def workerGet (D : EventDispatcher) : EventDispatcher :=
  match D.queue with
  | [] => D
  | .event call event :: queue => { D with queue, worker := .sending call event }
  | .stop :: queue => { D with queue, worker := .done }.taskDone

/-- The worker goes on behind `sink.emit`. -/
def workerNext (D : EventDispatcher) : EventDispatcher := { D with worker := .getting }.taskDone

/-- The events of a queue. -/
def events (queue : List QueueItem) : List (Nat × SandboxEvent) :=
  queue.filterMap fun
    | .event call event => some (call, event)
    | .stop => none

/-- `_fail_queued_events`, and the events it reports. -/
def failQueuedEvents (D : EventDispatcher) : EventDispatcher × List (Nat × SandboxEvent) :=
  ({ D with queue := [], unfinished := D.unfinished - D.queue.length, worker := .done },
    events D.queue)

/-- `close`, up to its first suspension. -/
def close (D : EventDispatcher) : EventDispatcher :=
  match D.closeTask with
  | .none => { D with accepting := false, closeTask := .created }
  | _ => D

/-- `_close_once`, up to its first suspension. -/
def closeStart (D : EventDispatcher) : EventDispatcher :=
  match D.worker with
  | .none => { D with closeTask := .done }
  | _ => { D with closeTask := .joining }

/-- `_close_once` behind `queue.join()`.  Since `accepting` was cleared no call
    starts a worker, so its worker is still the dispatcher's; and the queue has
    room, since every item in it is unfinished. -/
def closeJoined (D : EventDispatcher) : EventDispatcher :=
  match D.worker with
  | .done => { D with closeTask := .done }
  | _ =>
    { D with
      queue := D.queue ++ [.stop]
      unfinished := D.unfinished + 1
      closeTask := .stopping }

end EventDispatcher
