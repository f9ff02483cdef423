import MemSandbox.Lib.Coroutine

/-! # Tasks

    A coroutine starts other code as a task, waits for it, and may ask for its
    cancellation.  A task is known by its job; while no coroutine runs it may
    end, and `act` says how a job may end and what it has done by then.

    A cancellation of the coroutine itself reaches it only where it awaits.
    While it awaits a task directly, the cancellation is handed on to the task,
    so that `join` never goes on before the task has ended; `shielded` and
    `waitFor` do. -/

/-- A task.  `cancelling` tells that somebody has asked for its cancellation. -/
inductive TaskState (κ ν ε : Type) where
  | running (job : κ) (cancelling : Bool)
  | done (job : κ) (outcome : Except ε ν)

namespace TaskState

variable {κ ν ε : Type}

/-- How the task has ended, if it has. -/
def outcome : TaskState κ ν ε → Option (Except ε ν)
  | running _ _ => none
  | done _ outcome => some outcome

/-- `task.cancel()`. -/
def cancel : TaskState κ ν ε → TaskState κ ν ε
  | running job _ => running job true
  | done job outcome => done job outcome

end TaskState

/-- The state that the coroutines share, and every task created so far. -/
structure EventLoop (σ κ ν ε : Type) where
  shared : σ
  tasks : List (TaskState κ ν ε)

namespace EventLoop

variable {σ κ ν ε : Type}

/-- How task `id` has ended, if it has. -/
def outcome (s : EventLoop σ κ ν ε) (id : Nat) : Option (Except ε ν) :=
  s.tasks[id]?.bind TaskState.outcome

/-! ## Section 1: Operations -/

/-- A call on the shared state. -/
def onShared {α : Type} (f : Call σ ε α) : Coroutine (EventLoop σ κ ν ε) ε α :=
  .step fun s r s' => s' = { s with shared := (f s.shared).2 } ∧ r = (f s.shared).1

/-- `asyncio.ensure_future(job)`. -/
def createTask (job : κ) : Coroutine (EventLoop σ κ ν ε) ε Nat :=
  .step fun s r s' => r = .ok s.tasks.length ∧ s' = { s with tasks := s.tasks ++ [.running job false] }

/-- `task.done()`. -/
def isDone (id : Nat) : Coroutine (EventLoop σ κ ν ε) ε Bool :=
  .step fun s r s' => r = .ok (s.outcome id).isSome ∧ s' = s

/-- `task.cancel()`. -/
def cancel (id : Nat) : Coroutine (EventLoop σ κ ν ε) ε Unit :=
  .step fun s r s' => r = .ok () ∧ s' = { s with tasks := s.tasks.modify id TaskState.cancel }

/-- `task.result()` of a task that is done; so `await task` ends then too. -/
def result (id : Nat) : Coroutine (EventLoop σ κ ν ε) ε ν :=
  .step fun s r s' => s.outcome id = some r ∧ s' = s

/-- `await asyncio.wait((task,), timeout=timeout)`. -/
def waitFor (cancelled : ε) : Coroutine (EventLoop σ κ ν ε) ε Unit :=
  .await fun s r s' => (r = .ok () ∨ r = .error cancelled) ∧ s' = s

/-- `await task`. -/
def join (cancelled : ε) (id : Nat) : Coroutine (EventLoop σ κ ν ε) ε ν :=
  .await fun s r s' => ∃ outcome, s.outcome id = some outcome ∧ (r = outcome ∨ r = .error cancelled) ∧
    s' = s

/-- `await asyncio.shield(task)`. -/
def shielded (cancelled : ε) (id : Nat) : Coroutine (EventLoop σ κ ν ε) ε ν :=
  .await fun s r s' => (s.outcome id = some r ∨ r = .error cancelled) ∧ s' = s

/-! ## Section 2: The progress of tasks -/

/-- While nothing runs, a task is cancelled by somebody or ends. -/
inductive Progress (act : κ → Bool → σ → Except ε ν → σ → Prop) :
    EventLoop σ κ ν ε → EventLoop σ κ ν ε → Prop where
  | cancelled {u : σ} {before after : List (TaskState κ ν ε)} {job : κ} {cancelling : Bool} :
      Progress act ⟨u, before ++ .running job cancelling :: after⟩
        ⟨u, before ++ .running job true :: after⟩
  | ended {u u' : σ} {before after : List (TaskState κ ν ε)} {job : κ} {cancelling : Bool}
      {outcome : Except ε ν} (h : act job cancelling u outcome u') :
      Progress act ⟨u, before ++ .running job cancelling :: after⟩
        ⟨u', before ++ .done job outcome :: after⟩

/-- Every task has ended. -/
def AllDone (tasks : List (TaskState κ ν ε)) : Prop := ∀ task ∈ tasks, task.outcome ≠ none

theorem allDone_nil : AllDone ([] : List (TaskState κ ν ε)) := List.forall_mem_nil _

theorem AllDone.concat {tasks : List (TaskState κ ν ε)} (h : AllDone tasks) (job : κ)
    (outcome : Except ε ν) : AllDone (tasks ++ [TaskState.done job outcome]) := by
  intro task htask
  rcases List.mem_append.mp htask with htask | htask
  · exact h task htask
  · rw [List.mem_singleton.mp htask]
    exact Option.some_ne_none _

/-- The task that runs among tasks that have ended is the last one. -/
theorem AllDone.split {tasks before after : List (TaskState κ ν ε)} {last : TaskState κ ν ε}
    (h : AllDone tasks) {job : κ} {cancelling : Bool}
    (heq : tasks ++ [last] = before ++ TaskState.running job cancelling :: after) :
    before = tasks ∧ last = .running job cancelling ∧ after = [] := by
  rcases List.eq_nil_or_concat after with rfl | ⟨rest, final, rfl⟩
  · obtain ⟨hbefore, hlast⟩ := List.append_inj' heq rfl
    exact ⟨hbefore.symm, (List.cons.inj hlast).1, rfl⟩
  · -- otherwise the running task would be one of those that have ended
    rw [List.concat_eq_append, ← List.cons_append, ← List.append_assoc] at heq
    obtain ⟨htasks, -⟩ := List.append_inj' heq rfl
    exact absurd rfl (h (.running job cancelling)
      (htasks ▸ List.mem_append_right _ List.mem_cons_self))

variable {act : κ → Bool → σ → Except ε ν → σ → Prop}

theorem AllDone.no_progress {s s' : EventLoop σ κ ν ε} (h : AllDone s.tasks) :
    ¬ Progress act s s' := by
  intro hprogress
  cases hprogress with
  | cancelled => exact h _ (List.mem_append_right _ List.mem_cons_self) rfl
  | ended => exact h _ (List.mem_append_right _ List.mem_cons_self) rfl

/-- The last of the tasks is at work, or has ended; the others have ended. -/
inductive Working (act : κ → Bool → σ → Except ε ν → σ → Prop) (tasks : List (TaskState κ ν ε))
    (job : κ) (u : σ) : EventLoop σ κ ν ε → Prop where
  | running {cancelling : Bool} : Working act tasks job u ⟨u, tasks ++ [.running job cancelling]⟩
  | ended {cancelling : Bool} {outcome : Except ε ν} {u' : σ}
      (h : act job cancelling u outcome u') :
      Working act tasks job u ⟨u', tasks ++ [.done job outcome]⟩

theorem Working.progress {tasks : List (TaskState κ ν ε)} {job : κ} {u : σ}
    {s s' : EventLoop σ κ ν ε} (h : Working act tasks job u s) (htasks : AllDone tasks)
    (hprogress : Progress act s s') : Working act tasks job u s' := by
  cases h with
  | running =>
    generalize hs : (⟨u, _⟩ : EventLoop σ κ ν ε) = s at hprogress
    cases hprogress with
    | cancelled =>
      obtain ⟨rfl, hsplit⟩ := EventLoop.mk.inj hs
      obtain ⟨rfl, hlast, rfl⟩ := htasks.split hsplit
      cases hlast
      exact .running
    | ended hact =>
      obtain ⟨rfl, hsplit⟩ := EventLoop.mk.inj hs
      obtain ⟨rfl, hlast, rfl⟩ := htasks.split hsplit
      cases hlast
      exact .ended hact
  | ended hact => exact absurd hprogress (AllDone.no_progress (htasks.concat _ _))

theorem outcome_last {u : σ} {tasks : List (TaskState κ ν ε)} {task : TaskState κ ν ε} :
    (⟨u, tasks ++ [task]⟩ : EventLoop σ κ ν ε).outcome tasks.length = task.outcome := by
  simp [outcome]

theorem modify_last {tasks : List (TaskState κ ν ε)} {task : TaskState κ ν ε}
    (f : TaskState κ ν ε → TaskState κ ν ε) :
    (tasks ++ [task]).modify tasks.length f = tasks ++ [f task] := by
  induction tasks with
  | nil => rfl
  | cons first tasks ih => exact congrArg (first :: ·) ih

/-! ## Section 3: A coroutine and its tasks -/

section Alone

open Coroutine (Rely Other)

/-- What happens while the coroutine awaits: its tasks make progress. -/
abbrev Awaiting (act : κ → Bool → σ → Except ε ν → σ → Prop) :
    EventLoop σ κ ν ε → EventLoop σ κ ν ε → Prop := Relation.ReflTransGen (Progress act)

/-- With no other coroutine, only the tasks interfere. -/
theorem rely_alone {G : Unit → EventLoop σ κ ν ε → EventLoop σ κ ν ε → Prop} :
    Rely (Progress act) G () = Awaiting act := by
  have hother : Other (Progress act) G () = Progress act := by
    funext s s'
    apply propext
    constructor
    · rintro (h | ⟨j, hj, -⟩)
      · exact h
      · exact absurd rfl hj
    · exact .inl
  unfold Rely
  rw [hother]

theorem AllDone.awaiting {s s' : EventLoop σ κ ν ε} (h : AllDone s.tasks)
    (hawait : Awaiting act s s') : s' = s := by
  rcases Relation.ReflTransGen.cases_head hawait with heq | ⟨_, hprogress, -⟩
  · exact heq.symm
  · exact absurd hprogress h.no_progress

theorem Working.awaiting {tasks : List (TaskState κ ν ε)} {job : κ} {u : σ}
    {s s' : EventLoop σ κ ν ε} (h : Working act tasks job u s) (htasks : AllDone tasks)
    (hawait : Awaiting act s s') : Working act tasks job u s' := by
  induction hawait with
  | refl => exact h
  | tail _ hprogress ih => exact ih.progress htasks hprogress

end Alone

end EventLoop
