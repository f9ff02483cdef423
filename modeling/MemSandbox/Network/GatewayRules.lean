import MemSandbox.Network.Gateway
import MemSandbox.Network.Hostnames

/-! # Rules for the gateway's code

    The gateway shares its state with nobody, so a part of its code is
    specified by the history it starts from and the histories it returns
    with.  Nothing is promised of the histories it raises with, except that
    each of their entries was justified when it was made: once the gateway
    raises there is no more to be shown. -/

open Python

namespace Gateway

/-! ## Section 1: The rules -/

section Rules

/-- Only justified entries are made. -/
def Keeps (P : List GatewayEvent → GatewayEvent → Prop) (s s' : GatewayState) : Prop :=
  Justified P s.history → Justified P s'.history

/-- What has to hold before a part of the gateway. -/
abbrev before {α : Type} (P : List GatewayEvent → GatewayEvent → Prop) (x : Gateway α)
    (Q : Except Raised α → GatewayState → Prop) : GatewayState → Prop :=
  Coroutine.pre (fun _ _ => False) (fun _ : Unit => Keeps P) () x Q

/-- From `history` the code returns values and histories that satisfy `Q`. -/
def Meets {α : Type} (P : List GatewayEvent → GatewayEvent → Prop) (x : Gateway α)
    (history : List GatewayEvent) (Q : α → List GatewayEvent → Prop) : Prop :=
  ∀ s, s.history = history →
    before P x (Coroutine.ends (fun a u => Q a u.history) fun _ _ => True) s

/-- Entries that need no justification. -/
structure Idle (P : List GatewayEvent → GatewayEvent → Prop) : Prop where
  evaluated : ∀ h facts reply, P h (.evaluated facts reply)
  resolved : ∀ h hostname port reply, P h (.resolved hostname port reply)
  answered : ∀ h reply, P h (.answered reply)
  failed : ∀ h e, P h (.failed e)

variable {α β : Type} {P : List GatewayEvent → GatewayEvent → Prop} {history : List GatewayEvent}
  {Q : α → List GatewayEvent → Prop} {s : GatewayState}

theorem keeps_refl : Keeps P s s := fun h => h

/-- The rule of one entry. -/
theorem keeps_record {event : GatewayEvent} (h : P s.history event) : Keeps P s (s.record [event]) := by
  intro hs
  exact justified_concat.mpr ⟨hs, h⟩

theorem Meets.pure {a : α} (h : Q a history) : Meets P (pure a) history Q := by
  intro s hs
  show Q a s.history
  rw [hs]
  exact h

theorem Meets.throw {e : Raised} : Meets P (throw e) history Q := fun _ _ => trivial

theorem Meets.bind {x : Gateway β} {f : β → Gateway α} {mid : β → List GatewayEvent → Prop}
    (hx : Meets P x history mid) (hf : ∀ b h, mid b h → Meets P (f b) h Q) :
    Meets P (x >>= f) history Q := by
  intro s hs
  apply Coroutine.wp_mono (hx s hs)
  apply Coroutine.ends_mono
  · intro b u hb
    exact hf b u.history hb u rfl
  · exact fun _ _ _ => trivial

theorem Meets.mono {Q' : α → List GatewayEvent → Prop} {x : Gateway α}
    (hx : Meets P x history Q) (himp : ∀ a h, Q a h → Q' a h) :
    Meets P x history Q' := by
  intro s hs
  apply Coroutine.wp_mono (hx s hs)
  exact Coroutine.ends_mono (fun a u ha => himp a _ ha) fun _ _ _ => trivial

/-- The rule of `while True`: an invariant of its variables and the history. -/
theorem Meets.loop {γ : Type} {body : γ → Gateway (γ ⊕ α)} {c : γ}
    (I : γ → List GatewayEvent → Prop) (hc : I c history)
    (hbody : ∀ c h, I c h → Meets P (body c) h (Sum.elim I Q)) :
    Meets P (.loop body c) history Q := by
  intro s hs
  refine ⟨fun c u => I c u.history, ?_, ?_⟩
  · show I c s.history
    rw [hs]
    exact hc
  · intro c u hI
    apply Coroutine.wp_mono (hbody c u.history hI u rfl)
    apply Coroutine.ends_mono
    · intro r v hr
      cases r with
      | inl c' => exact hr
      | inr a => exact hr
    · exact fun _ _ _ => trivial

theorem Meets.record {event : GatewayEvent} {Q : Unit → List GatewayEvent → Prop}
    (hP : P history event) (h : Q () (history ++ [event])) :
    Meets P (record event) history Q := by
  intro s hs r s' hr
  obtain ⟨rfl, rfl⟩ := hr
  rw [← hs] at hP h
  exact ⟨keeps_record hP, h⟩

theorem Meets.time {Q : ℚ → List GatewayEvent → Prop} (h : ∀ t, Q t history) :
    Meets P time history Q := by
  intro s hs r s' hr
  obtain ⟨t, _, rfl, rfl⟩ := hr
  refine ⟨keeps_refl, ?_⟩
  show Q t s.history
  rw [hs]
  exact h t

variable (hidle : Idle P)

include hidle

theorem Meets.fail {e : PyError} : Meets P (fail e : Gateway α) history Q := by
  apply Meets.bind (Meets.record (Q := fun _ _ => True) (hidle.failed _ _) trivial)
  exact fun _ _ _ => Meets.throw

theorem Meets.check {x : Except PyError α} (h : ∀ a, x = .ok a → Q a history) :
    Meets P (check x) history Q := by
  cases x with
  | ok a => exact Meets.pure (h a rfl)
  | error e => exact Meets.fail hidle

/-! ## Section 2: Activity -/

variable {context : NetworkOperationContext}

theorem Meets.cancellationIsActive {Q : Bool → List GatewayEvent → Prop}
    (h : ∀ b, Q b history) : Meets P (cancellationIsActive context) history Q := by
  unfold Gateway.cancellationIsActive
  split
  · intro s hs r s' hr
    rcases hr with ⟨b, rfl, rfl⟩ | ⟨e, rfl, rfl⟩
    · refine ⟨keeps_refl, ?_⟩
      show Q b s'.history
      rw [hs]
      exact h b
    · exact ⟨keeps_record (hidle.failed _ _), trivial⟩
  · exact Meets.pure (h false)

omit hidle in
theorem Meets.callerIsCancelling {Q : Bool → List GatewayEvent → Prop}
    (h : ∀ b, Q b history) : Meets P callerIsCancelling history Q := by
  intro s hs r s' hr
  obtain ⟨b, rfl, rfl⟩ := hr
  refine ⟨keeps_refl, ?_⟩
  show Q b s'.history
  rw [hs]
  exact h b

theorem Meets.requireTime {Q : Unit → List GatewayEvent → Prop} (h : Q () history) :
    Meets P (requireTime context) history Q := by
  apply Meets.bind (Meets.time (Q := fun _ h => h = history) fun _ => rfl)
  intro now h₁ hh₁
  subst hh₁
  exact Meets.check hidle fun _ _ => h

/-- While the operation is active nothing is added to the history. -/
theorem Meets.requireActive {Q : Unit → List GatewayEvent → Prop} (h : Q () history) :
    Meets P (requireActive context) history Q := by
  apply Meets.bind (Meets.cancellationIsActive hidle (Q := fun _ h => h = history) fun _ => rfl)
  intro active h₁ hh₁
  subst hh₁
  apply Meets.bind (Meets.check hidle (Q := fun _ h => h = h₁) fun _ _ => rfl)
  intro _ h₂ hh₂
  subst hh₂
  exact Meets.requireTime hidle h

/-! ## Section 3: Collaborators -/

omit hidle in
/-- The call of a collaborator, with what it makes known. -/
theorem Meets.invoke {γ : Type} {begun : List GatewayEvent} {ended : Reply γ → GatewayEvent}
    {Q : Unit → List GatewayEvent → Prop} (hended : ∀ h reply, P h (ended reply))
    (hbegun : Justified P history → Justified P (history ++ begun)) (h : Q () (history ++ begun)) :
    Meets P (invoke begun ended) history Q := by
  intro s hs r s' hr
  rw [← hs] at hbegun h
  rcases hr with ⟨rfl, rfl⟩ | ⟨reply, e, _, rfl, rfl⟩
  · exact ⟨hbegun, h⟩
  · refine ⟨?_, trivial⟩
    intro hjustified
    show Justified P (s.history ++ (begun ++ [ended reply]))
    rw [← List.append_assoc]
    exact justified_concat.mpr ⟨hbegun hjustified, hended _ _⟩

/-- A suspension ends with a reply, or without one. -/
theorem Meets.waitFor {γ : Type} {ended : Reply γ → GatewayEvent}
    {Q : Option (Except Raised γ) → List GatewayEvent → Prop}
    (hended : ∀ h reply, P h (ended reply)) (hnone : Q none history)
    (hsome : ∀ reply : Reply γ, Q (some reply.result) (history ++ [ended reply])) :
    Meets P (waitFor ended) history Q := by
  intro s hs
  apply Coroutine.pre_await (P := fun u => u.history = history)
  · intro u u' hother
    rcases hother with hfalse | ⟨j, hj, _⟩
    · exact hfalse.elim
    · exact absurd rfl hj
  · exact hs
  · intro v r v' hv hw
    rcases hw with ⟨rfl, rfl⟩ | ⟨rfl, rfl⟩ | ⟨reply, rfl, rfl⟩
    · exact ⟨keeps_record (hidle.failed _ _), trivial⟩
    · refine ⟨keeps_refl, ?_⟩
      show Q none v'.history
      rw [hv]
      exact hnone
    · refine ⟨keeps_record (hended _ _), ?_⟩
      show Q _ (v.history ++ [ended reply])
      rw [hv]
      exact hsome reply

theorem Meets.awaitTask {ended : Reply α → GatewayEvent} (hended : ∀ h reply, P h (ended reply))
    (h : ∀ a, Q a (history ++ [ended (.returned a)])) :
    Meets P (awaitTask ended context) history Q := by
  apply Meets.bind (Meets.waitFor hidle hended (Q := fun done h =>
    done = none ∨ ∃ reply, done = some reply.result ∧ h = history ++ [ended reply])
    (.inl rfl) fun reply => .inr ⟨reply, rfl, rfl⟩)
  intro done h₁ hdone
  rcases hdone with rfl | ⟨reply, rfl, rfl⟩
  · exact Meets.fail hidle
  · apply Meets.bind (Meets.requireTime hidle (Q := fun _ h => h = _) rfl)
    intro _ h₂ hh₂
    subst hh₂
    cases reply with
    | returned a =>
      apply Meets.bind (Meets.pure (Q := fun b h => b = a ∧ h = _) ⟨rfl, rfl⟩)
      intro b h₃ hh₃
      obtain ⟨rfl, rfl⟩ := hh₃
      apply Meets.bind (Meets.requireActive hidle (Q := fun _ h => h = _) rfl)
      intro _ h₄ hh₄
      subst hh₄
      exact Meets.pure (h b)
    | raised e => exact fun _ _ => trivial
    | baseException => exact fun _ _ => trivial

/-- What a collaborator that returned has added. -/
theorem Meets.awaitCollaborator {begun : Except PyError (List GatewayEvent)}
    {ended : Reply α → GatewayEvent} (hended : ∀ h reply, P h (ended reply))
    (hbegun : ∀ events, begun = .ok events → Justified P history → Justified P (history ++ events))
    (h : ∀ events a, begun = .ok events → Q a (history ++ events ++ [ended (.returned a)])) :
    Meets P (awaitCollaborator begun ended context) history Q := by
  apply Meets.bind (Meets.requireActive hidle (Q := fun _ h => h = history) rfl)
  intro _ h₁ hh₁
  subst hh₁
  apply Meets.bind (Meets.requireTime hidle (Q := fun _ h => h = h₁) rfl)
  intro _ h₂ hh₂
  subst hh₂
  apply Meets.bind (Meets.check hidle (Q := fun events h => begun = .ok events ∧ h = h₂)
    fun _ hb => ⟨hb, rfl⟩)
  intro events h₃ hh₃
  obtain ⟨hb, rfl⟩ := hh₃
  apply Meets.bind (Meets.invoke hended (hbegun events hb) (Q := fun _ h => h = _) rfl)
  intro _ h₄ hh₄
  subst hh₄
  exact Meets.awaitTask hidle hended fun a => h events a hb

/-- The `except` clauses never make a value of an exception. -/
theorem Meets.handle {stable : List ErrorClass} {Q : Collaborated α → List GatewayEvent → Prop}
    (hfailed : ∀ h, Q .failed h) (hstable : ∀ cls h, Q (.stable cls) h) (e : Raised) :
    Meets P (handle stable context e) history Q := by
  cases e with
  | exit => exact Meets.throw
  | cancelledError =>
    apply Meets.bind (Meets.callerIsCancelling (Q := fun _ _ => True) fun _ => trivial)
    intro b h _
    cases b with
    | true => exact Meets.throw
    | false => exact Meets.pure (hfailed h)
  | error e =>
    dsimp only [Gateway.handle]
    by_cases hcancelled : e.cls = .outboundHttpCancelled
    · rw [if_pos hcancelled]
      apply Meets.bind (Meets.cancellationIsActive hidle (Q := fun _ _ => True) fun _ => trivial)
      intro b h _
      cases b with
      | true => exact Meets.pure (hstable _ h)
      | false => exact Meets.pure (hfailed h)
    · rw [if_neg hcancelled]
      by_cases hcls : e.cls ∈ stable
      · rw [if_pos hcls]
        exact Meets.pure (hstable _ _)
      · rw [if_neg hcls]
        exact Meets.pure (hfailed _)

/-- The caller of a collaborator has a value only where the collaborator has
    returned one. -/
theorem Meets.collaborate {stable : List ErrorClass} {x : Gateway α}
    {Q : Collaborated α → List GatewayEvent → Prop}
    (hx : Meets P x history fun a h => Q (.returned a) h) (hfailed : ∀ h, Q .failed h)
    (hstable : ∀ cls h, Q (.stable cls) h) :
    Meets P (collaborate stable context x) history Q := by
  intro s hs
  apply Coroutine.wp_mono (hx s hs)
  apply Coroutine.ends_mono
  · exact fun a u ha => ha
  · exact fun e u _ => Meets.handle hidle hfailed hstable e u rfl

/-- Where the caller has a value, the history has what the call has added. -/
theorem Meets.returned {stable : List ErrorClass} {x : Gateway α} {added : α → List GatewayEvent}
    (hx : Meets P x history fun a h => h = history ++ added a) :
    Meets P (Gateway.collaborate stable context x) history
      fun c h => ∀ a, c = .returned a → h = history ++ added a := by
  apply Meets.collaborate hidle
  · apply hx.mono
    intro a h hh a' ha'
    rw [hh, Collaborated.returned.inj ha']
  · intro h a ha
    exact nomatch ha
  · intro cls h a ha
    exact nomatch ha

/-- The call of a collaborator that is not recorded before its reply. -/
theorem Meets.awaitReply {ended : Reply α → GatewayEvent} (hended : ∀ h reply, P h (ended reply)) :
    Meets P (Gateway.awaitCollaborator (.ok []) ended context) history
      fun a h => h = history ++ [ended (.returned a)] := by
  apply Meets.awaitCollaborator hidle hended
  · intro events hevents hjustified
    obtain rfl := Except.ok.inj hevents
    rw [List.append_nil]
    exact hjustified
  · intro events a hevents
    obtain rfl := Except.ok.inj hevents
    rw [List.append_nil]

end Rules
end Gateway
