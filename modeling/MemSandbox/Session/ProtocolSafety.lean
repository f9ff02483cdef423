import MemSandbox.Session.Protocol

/-! # Safety of a session

    Every call keeps the protocol of the session, whatever the others do while
    it is suspended.

    * **Section 1** what a call knows, with the gate and without it;
    * **Section 2** the steps;
    * **Section 3** the gate and the phase;
    * **Section 4** `start`;
    * **Section 5** `close` and the closing task;
    * **Section 6** the operations;
    * **Section 7** runs of a session. -/

open Coroutine (wp ends pre Stable Other)

namespace SandboxSession

variable {ι ω α β : Type} {call : ι} {s s' : SessionState ι ω}

/-! ## Section 1: Holding the gate -/

/-- What a call knows of the session besides its own turn. -/
inductive Knows where
  | nothing
  | notClosed
  | closeRequested
  deriving DecidableEq

def Knows.holds : Knows → SessionState ι ω → Prop
  | nothing, _ => True
  | notClosed, s => s.state ≠ .closed
  | closeRequested, s => CloseRequested s.history

/-- The call has the gate, and its turn has come so far. -/
structure Holds (call : ι) (knows : Knows) (P : Turn ι → Prop) (s : SessionState ι ω) : Prop where
  invariant : SessionInvariant s
  knows : knows.holds s
  hasTurn : HasTurn s.history call P

/-- The call does not have the gate. -/
structure Outside (call : ι) (knows : Knows) (s : SessionState ι ω) : Prop where
  invariant : SessionInvariant s
  knows : knows.holds s
  notIts : ∀ t, turn s.history = some t → t.call ≠ call

variable {knows : Knows} {P P' : Turn ι → Prop}

theorem Holds.mono (h : Holds call knows P s) (himp : ∀ t, P t → P' t) :
    Holds call knows P' s := by
  obtain ⟨t, ht, hcall, hP⟩ := h.hasTurn
  exact ⟨h.invariant, h.knows, t, ht, hcall, himp t hP⟩

theorem Holds.forget (h : Holds call knows P s) : Holds call .nothing P s :=
  ⟨h.invariant, trivial, h.hasTurn⟩

theorem CloseRequested.grow {history history' : List (Entry ι)} (h : CloseRequested history)
    (hgrow : history <+: history') : CloseRequested history' := by
  obtain ⟨call, hcall⟩ := h
  exact ⟨call, hgrow.subset hcall⟩

/-- What a call knows survives the steps of the others while it holds the gate
    or knows nothing of the phase. -/
theorem Knows.other (h : knows.holds s) (hgrow : s.history <+: s'.history)
    (hphase : knows = .notClosed → s'.state = s.state ∨ s'.state = .closing) : knows.holds s' := by
  cases knows with
  | nothing => trivial
  | closeRequested => exact CloseRequested.grow h hgrow
  | notClosed =>
    show s'.state ≠ .closed
    rcases hphase rfl with hsame | hclosing
    · rw [hsame]
      exact h
    · rw [hclosing]
      exact nofun

theorem SessionInvariant.of_work (h : SessionInvariant s) (work : ω) :
    SessionInvariant { s with work } := h.congr rfl rfl rfl rfl h.requested

theorem holds_stable : Stable Environment Guarantee call (Holds (ω := ω) call knows P) := by
  rintro s s' (⟨work, rfl⟩ | ⟨other, hne, hother⟩) h
  · refine ⟨h.invariant.of_work work, ?_, h.hasTurn⟩
    exact Knows.other h.knows (List.prefix_refl _) fun _ => .inl rfl
  · have hstep := hother h.invariant
    obtain ⟨t, ht, hcall, hP⟩ := h.hasTurn
    have hnot : t.call ≠ other := by
      rw [hcall]
      exact hne.symm
    refine ⟨hstep.invariant, ?_, t, (hstep.turns t hnot).mpr ht, hcall, hP⟩
    exact Knows.other h.knows hstep.grows fun _ => hstep.phase t hnot ht

theorem outside_stable (hknows : knows ≠ .notClosed) :
    Stable Environment Guarantee call (Outside (ω := ω) call knows) := by
  rintro s s' (⟨work, rfl⟩ | ⟨other, hne, hother⟩) h
  · refine ⟨h.invariant.of_work work, ?_, h.notIts⟩
    exact Knows.other h.knows (List.prefix_refl _) fun heq => absurd heq hknows
  · have hstep := hother h.invariant
    refine ⟨hstep.invariant, Knows.other h.knows hstep.grows fun heq => absurd heq hknows, ?_⟩
    intro t ht hcall
    have hnot : t.call ≠ other := by
      rw [hcall]
      exact hne.symm
    exact h.notIts t ((hstep.turns t hnot).mp ht) hcall

/-! ## Section 2: Steps -/

theorem Turn.note_call {t : Turn ι} {entry : Entry ι} : (t.note entry).call = t.call := by
  cases entry <;> rfl

/-- While the call has the gate, the others see none of its steps. -/
theorem Holds.guarantee (h : Holds call knows P s) (hinvariant : SessionInvariant s')
    (hgrow : s.history <+: s'.history) (hown : ∀ t, turn s'.history = some t → t.call = call) :
    Guarantee call s s' := by
  obtain ⟨t, ht, hcall, -⟩ := h.hasTurn
  have hits : ∀ u : Turn ι, u.call ≠ call → turn s.history ≠ some u := by
    intro u hu hu'
    rw [ht] at hu'
    exact absurd (Option.some.inj hu' ▸ hcall) hu
  intro _
  refine ⟨hinvariant, hgrow, fun u hu => ⟨?_, ?_⟩, ?_, fun hnot => absurd hcall (hnot t ht)⟩
  · exact fun hu' => absurd (hown u hu') hu
  · exact fun hu' => absurd hu' (hits u hu)
  · exact fun u hu hu' => absurd hu' (hits u hu)

/-- Entries that leave the gate, the phase and the closing of the session alone. -/
def Entry.plain : Entry ι → Bool
  | .admitted _ | .worked _ | .created _ _ | .delivered _ _ | .finished _ _ => true
  | _ => false

theorem turnAfter_plain {entry : Entry ι} (h : entry.plain = true) {t : Turn ι} :
    turnAfter (some t) entry = some (t.note entry) := by
  cases entry <;> first | rfl | exact absurd h Bool.false_ne_true

theorem phaseAfter_plain {entry : Entry ι} (h : entry.plain = true) {phase : Phase} :
    phaseAfter phase entry = phase := by
  cases entry <;> first | rfl | exact absurd h Bool.false_ne_true

/-- One more plain entry of the turn. -/
theorem Holds.plain (h : Holds call knows P s) (entry : Entry ι) (P' : Turn ι → Prop)
    (s' : SessionState ι ω) (hplain : entry.plain = true) (hlifecycle : LifecycleRule s.history entry) (hevents : EventRule s.history entry)
    (hP : ∀ t, P t → P' (t.note entry)) (hhistory : s'.history = s.history ++ [entry])
    (hlocked : s'.locked = s.locked)
    (hsequence : s'.eventSequence = s.eventSequence + if entry.isCreated then 1 else 0)
    (hstate : s'.state = s.state) (htask : s'.closeTask = s.closeTask) :
    Guarantee call s s' ∧ Holds call knows P' s' := by
  obtain ⟨t, ht, hcall, hPt⟩ := h.hasTurn
  have hgrow : s.history <+: s'.history := by
    rw [hhistory]
    exact List.prefix_append _ _
  have hturn : turn s'.history = some (t.note entry) := by
    rw [hhistory, turn_concat, ht, turnAfter_plain hplain]
  have hinvariant : SessionInvariant s' := by
    refine h.invariant.concat entry hlifecycle hevents hhistory ?_ hsequence ?_ htask ?_
    · rw [hlocked, h.invariant.locked, ht, turnAfter_plain hplain]
      rfl
    · rw [hstate, phaseAfter_plain hplain]
    · rintro c rfl
      exact Bool.false_ne_true hplain
  refine ⟨h.guarantee hinvariant hgrow ?_, hinvariant, ?_, t.note entry, hturn, ?_, hP t hPt⟩
  · intro u hu
    rw [hturn] at hu
    rw [← Option.some.inj hu, Turn.note_call, hcall]
  · exact Knows.other h.knows hgrow fun _ => .inl hstate
  · rw [Turn.note_call, hcall]

section Steps

variable {Q : Except Raised α → SessionState ι ω → Prop}

/-- A check changes nothing, whatever it finds. -/
theorem pre_check {w : SessionState ι ω → Except Raised α → SessionState ι ω → Prop}
    (hcheck : ∀ r s', w s r s' → s' = s) (hQ : ∀ r, Q r s) :
    pre Environment Guarantee call (.step w) Q s := by
  intro r s' hw
  obtain rfl := hcheck r s' hw
  exact ⟨.refl call _, hQ r⟩

theorem pre_readState {Q : Except Raised Phase → SessionState ι ω → Prop} (hQ : Q (.ok s.state) s) :
    pre Environment Guarantee call readState Q s := by
  rintro r s' ⟨rfl, rfl⟩
  exact ⟨.refl call _, hQ⟩

/-- A wait that changes nothing. -/
theorem pre_wait {w : SessionState ι ω → Except Raised α → SessionState ι ω → Prop}
    {I : SessionState ι ω → Prop} (hstable : Stable Environment Guarantee call I)
    (hwait : ∀ v r v', w v r v' → v' = v) (hs : I s) (hQ : ∀ r v, I v → Q r v) :
    pre Environment Guarantee call (.await w) Q s := by
  apply Coroutine.pre_await hstable hs
  intro v r v' hv hw
  obtain rfl := hwait v r v' hw
  exact ⟨.refl call _, hQ r _ hv⟩

theorem pre_note {Q : Except Raised Unit → SessionState ι ω → Prop} {entry : Entry ι}
    (P' : Turn ι → Prop) (h : Holds call knows P s) (hplain : entry.plain = true) (hcreated : entry.isCreated = false)
    (hlifecycle : LifecycleRule s.history entry) (hevents : EventRule s.history entry)
    (hP : ∀ t, P t → P' (t.note entry)) (hQ : ∀ s', Holds call knows P' s' → Q (.ok ()) s') :
    pre Environment Guarantee call (note entry) Q s := by
  rintro r s' ⟨rfl, rfl⟩
  obtain ⟨hguarantee, hholds⟩ := h.plain entry P' (s.record entry) hplain hlifecycle hevents hP
    rfl rfl (by rw [hcreated]; rfl) rfl rfl
  exact ⟨hguarantee, hQ _ hholds⟩

theorem pre_newEvent {Q : Except Raised SessionEvent → SessionState ι ω → Prop}
    {eventType : SandboxEventType} {operationId : Option OperationId}
    {operationKind : Option OperationKind} {attributes : List EventAttribute}
    (h : Holds call knows P s)
    (hdue : ∀ t event, P t → event.eventType = eventType → event.operationId = operationId →
      Due t event)
    (hQ : ∀ event s', event.eventType = eventType → event.operationId = operationId →
      Holds call knows (fun t => ∃ t', P t' ∧ t = t'.note (.created call event)) s' →
      Q (.ok event) s') :
    pre Environment Guarantee call
      (newEvent call eventType operationId operationKind attributes) Q s := by
  rintro r s' ⟨now, event, hevent, rfl, rfl⟩
  have htype : event.eventType = eventType := by rw [hevent]
  have hid : event.operationId = operationId := by rw [hevent]
  have hsequence : event.sequence = createdCount s.history + 1 := by
    rw [hevent, ← h.invariant.sequence]
  obtain ⟨t, ht, hcall, hPt⟩ := h.hasTurn
  obtain ⟨hguarantee, hholds⟩ := h.plain (.created call event)
    (fun t => ∃ t', P t' ∧ t = t'.note (.created call event))
    { s.record (.created call event) with eventSequence := s.eventSequence + 1 } rfl trivial
    ⟨hsequence, t, ht, hcall, hdue t event hPt htype hid⟩ (fun t ht => ⟨t, ht, rfl⟩)
    rfl rfl rfl rfl rfl
  exact ⟨hguarantee, hQ _ _ htype hid hholds⟩

theorem pre_emitEvent {Q : Except Raised Unit → SessionState ι ω → Prop} {event : SessionEvent}
    {closeTimeout : Bool} (P' : Turn ι → Prop) (h : Holds call knows P s)
    (hpending : ∀ t, P t → t.pending = some event.sequence)
    (hP : ∀ t, P t → P' (t.note (.delivered call event.sequence)))
    (hok : ∀ s', Holds call knows P' s' → Q (.ok ()) s')
    (herror : ∀ e s', Holds call knows P s' → Q (.error e) s') :
    pre Environment Guarantee call (emitEvent call event closeTimeout) Q s := by
  apply pre_check (w := fun s r s' => (∃ b, r = .ok b) ∧ s' = s) (fun _ _ hw => hw.2)
  intro r
  match r with
  | .error e => exact herror e s h
  | .ok true => exact herror _ s h
  | .ok false =>
    show pre Environment Guarantee call
      (tryCatch (deliver call event) (emitFailed event closeTimeout)) Q s
    apply Coroutine.pre_await holds_stable h
    rintro v r v' hv (⟨rfl, rfl⟩ | ⟨⟨e, rfl⟩, rfl⟩)
    · obtain ⟨t, ht, hcall, hPt⟩ := hv.hasTurn
      obtain ⟨hguarantee, hholds⟩ := hv.plain (.delivered call event.sequence) P'
        (v.record (.delivered call event.sequence)) rfl trivial
        ⟨t, ht, hcall, hpending t hPt⟩ hP rfl rfl rfl rfl rfl
      exact ⟨hguarantee, hok _ hholds⟩
    · refine ⟨.refl call _, ?_⟩
      -- whatever the sink raised, an exception leaves
      show pre Environment Guarantee call (emitFailed event closeTimeout e) Q _
      cases e with
      | cancelledError => exact herror _ _ hv
      | exit => exact herror _ _ hv
      | error e =>
        show pre Environment Guarantee call (if e.cls = .timeoutError then _ else _) Q _
        by_cases htimeout : e.cls = .timeoutError
        · rw [if_pos htimeout]
          exact herror _ _ hv
        · rw [if_neg htimeout]
          exact herror _ _ hv

end Steps

/-! ## Section 3: The gate and the phase -/

/-- `_state` is assigned by the call that has the gate. -/
theorem pre_setPhase {Q : Except Raised Unit → SessionState ι ω → Prop} {phase : Phase}
    (knows' : Knows) (h : Holds call knows P s) (hmove : MoveRule s.history call phase)
    (hknows : ∀ s', s'.state = phase → s.history <+: s'.history → knows'.holds (ω := ω) s')
    (hQ : ∀ s', Holds call knows' P s' → Q (.ok ()) s') :
    pre Environment Guarantee call (setPhase call phase) Q s := by
  rintro r s' ⟨rfl, rfl⟩
  obtain ⟨t, ht, hcall, hPt⟩ := h.hasTurn
  have hturn : turn (s.history ++ [Entry.moved call phase]) = some t := by
    rw [turn_concat, ht]
    rfl
  have hinvariant : SessionInvariant { s.record (.moved call phase) with state := phase } := by
    refine h.invariant.concat (.moved call phase) hmove trivial rfl ?_ rfl rfl rfl nofun
    rw [ht]
    exact h.invariant.locked.trans (congrArg Option.isSome ht)
  refine ⟨h.guarantee hinvariant (List.prefix_append _ _) ?_, hQ _ ⟨hinvariant, ?_, t, hturn, hcall, hPt⟩⟩
  · intro u hu
    rw [← Option.some.inj (hturn.symm.trans hu), hcall]
  · exact hknows _ rfl (List.prefix_append _ _)

theorem outside_of_free (hinvariant : SessionInvariant s) (hknows : knows.holds s)
    (hfree : turn s.history = none) : Outside call knows s := by
  refine ⟨hinvariant, hknows, ?_⟩
  intro t ht
  rw [hfree] at ht
  exact nomatch ht

theorem pre_acquireGate {Q : Except Raised Unit → SessionState ι ω → Prop} {timed : Bool}
    (hne : knows ≠ .notClosed) (h : Outside call knows s)
    (hok : ∀ s', Holds call knows (fun t => t = .start call) s' → Q (.ok ()) s')
    (herror : ∀ e s', Outside call knows s' → Q (.error e) s') :
    pre Environment Guarantee call (acquireGate call timed) Q s := by
  apply Coroutine.pre_await (outside_stable hne) h
  rintro v r v' hv (⟨rfl, hfree, rfl⟩ | ⟨hr, rfl⟩)
  · have hnone : turn v.history = none := by
      rw [hv.invariant.locked] at hfree
      exact Option.not_isSome_iff_eq_none.mp (Bool.not_eq_true _ ▸ hfree)
    have hturn : turn (v.history ++ [Entry.acquired call]) = some (.start call) := by
      rw [turn_concat]
      rfl
    have hinvariant : SessionInvariant { v.record (.acquired call) with locked := true } :=
      hv.invariant.concat (.acquired call) hnone trivial rfl rfl rfl rfl rfl nofun
    have hgrow : v.history <+: v.history ++ [Entry.acquired call] := List.prefix_append _ _
    refine ⟨fun _ => ⟨hinvariant, hgrow, fun t ht => ⟨?_, ?_⟩, fun _ _ _ => .inl rfl, fun _ => rfl⟩,
      hok _ ⟨hinvariant, Knows.other hv.knows hgrow fun _ => .inl rfl, _, hturn, rfl, rfl⟩⟩
    · intro hu
      exact absurd (Option.some.inj (hturn.symm.trans hu) ▸ rfl) ht
    · intro hu
      rw [hnone] at hu
      exact nomatch hu
  · refine ⟨.refl call _, ?_⟩
    rcases hr with rfl | ⟨-, rfl⟩
    · exact herror _ _ hv
    · exact herror _ _ hv

/-- The gate is given back once the turn is complete. -/
theorem pre_releaseGate {Q : Except Raised Unit → SessionState ι ω → Prop}
    (h : Holds call knows Complete s) (hQ : ∀ s', Outside call knows s' → Q (.ok ()) s') :
    pre Environment Guarantee call (releaseGate call) Q s := by
  obtain ⟨t, ht, hcall, hPt⟩ := h.hasTurn
  have hlocked : s.locked = true := by
    rw [h.invariant.locked, ht]
    rfl
  rintro r s' (⟨-, rfl, rfl⟩ | ⟨hfree, -⟩)
  · have hturn : turn (s.history ++ [Entry.released call]) = none := by
      rw [turn_concat]
      rfl
    have hinvariant : SessionInvariant { s.record (.released call) with locked := false } :=
      h.invariant.concat (.released call) ⟨t, ht, hcall, trivial⟩ ⟨t, ht, hcall, hPt⟩
        rfl rfl rfl rfl rfl nofun
    have hgrow : s.history <+: s.history ++ [Entry.released call] := List.prefix_append _ _
    refine ⟨h.guarantee hinvariant hgrow ?_, hQ _ (outside_of_free hinvariant ?_ hturn)⟩
    · intro u hu
      exact nomatch hturn.symm.trans hu
    · exact Knows.other h.knows hgrow fun _ => .inl rfl
  · exact absurd (hlocked.symm.trans hfree) nofun

/-! ## Section 4: Start -/

theorem pre_requireCreated {Q : Except Raised Unit → SessionState ι ω → Prop}
    (hraise : ∀ e, Q (.error e) s) (hok : s.state = .created → Q (.ok ()) s) :
    pre Environment Guarantee call requireCreated Q s := by
  unfold requireCreated
  apply Coroutine.wp_bind.mpr
  apply pre_readState
  show pre Environment Guarantee call (if s.state ≠ .created then _ else _) Q s
  by_cases hstate : s.state = .created
  · rw [if_neg (not_not_intro hstate)]
    exact hok hstate
  · rw [if_pos hstate]
    exact hraise _

/-- A turn that an event of the session has opened. -/
def Starting (event : SessionEvent) (delivered : Bool) (t : Turn ι) : Prop :=
  t.opening = some event ∧ event.eventType = .sandboxStarted ∧ event.operationId = none ∧
    t.delivered = delivered

theorem Starting.complete {event : SessionEvent} {delivered : Bool} {t : Turn ι}
    (h : Starting event delivered t) : Complete t := by
  rintro operationId ⟨event', hopening, htype, -⟩
  rw [h.1] at hopening
  obtain rfl := Option.some.inj hopening
  rw [h.2.1] at htype
  exact nomatch htype

/-- However the delivery of the event failed, the turn is complete. -/
theorem pre_startFailed {Q : Except Raised Unit → SessionState ι ω → Prop} {e : Raised}
    (h : Holds call .notClosed P s) (hP : ∀ t, P t → Complete t)
    (hQ : ∀ e s', Holds call .nothing Complete s' → Q (.error e) s') :
    pre Environment Guarantee call (startFailed call e) Q s := by
  have hleft : Holds call .nothing Complete s := h.forget.mono hP
  obtain ⟨t, ht, hcall, -⟩ := h.hasTurn
  have hmove : MoveRule s.history call .failed :=
    ⟨h.invariant.phase ▸ h.knows, t, ht, hcall, trivial⟩
  cases e with
  | cancelledError =>
    apply Coroutine.wp_bind.mpr
    exact pre_setPhase .nothing h hmove (fun _ _ _ => trivial) fun s' hs' => hQ _ s' (hs'.mono hP)
  | exit => exact hQ _ s hleft
  | error e =>
    show pre Environment Guarantee call (if e.cls = .sessionEventDeliveryFailed ∨
      e.cls = .sessionOperationTimeout then _ else _) _ s
    by_cases hcls : e.cls = .sessionEventDeliveryFailed ∨ e.cls = .sessionOperationTimeout
    · rw [if_pos hcls]
      apply Coroutine.wp_bind.mpr
      exact pre_setPhase .nothing h hmove (fun _ _ _ => trivial) fun s' hs' => hQ _ s' (hs'.mono hP)
    · rw [if_neg hcls]
      exact hQ _ s hleft

/-- The first event of `start`, and its delivery. -/
theorem pre_startHolding (h : Holds call .nothing (fun t => t = .start call) s) :
    pre Environment Guarantee call (startHolding call)
      (fun _ s' => Holds call .nothing Complete s') s := by
  have hcomplete : ∀ t : Turn ι, t = .start call → Complete t := by
    rintro t rfl operationId ⟨event, hopening, -⟩
    exact nomatch hopening
  apply pre_requireCreated
  · exact fun e => h.mono hcomplete
  intro hcreated
  have hopen : Holds call .notClosed (fun t => t = .start call) s := by
    refine ⟨h.invariant, ?_, h.hasTurn⟩
    show s.state ≠ .closed
    rw [hcreated]
    exact nofun
  apply pre_newEvent hopen
  · rintro t event rfl htype hid
    unfold Due
    rw [htype]
    exact ⟨rfl, hid⟩
  intro event s₁ htype hid hs₁
  -- the event opens the turn, and is not accepted yet
  have hstarting : Holds call .notClosed
      (fun t => Starting event false t ∧ t.pending = some event.sequence) s₁ := by
    apply hs₁.mono
    rintro t ⟨-, rfl, rfl⟩
    refine ⟨⟨?_, htype, hid, rfl⟩, rfl⟩
    show (if event.eventType.opens then some event else none) = some event
    rw [htype]
    rfl
  apply Coroutine.wp_bind.mpr
  apply Coroutine.wp_tryCatch.mpr
  apply pre_emitEvent (fun t => Starting event true t) hstarting
  · exact fun t ht => ht.2
  · rintro t ⟨⟨hopening, htype, hid, -⟩, -⟩
    refine ⟨hopening, htype, hid, ?_⟩
    show (t.delivered || t.opening.any (·.sequence = event.sequence)) = true
    rw [hopening]
    simp
  · intro s₂ hs₂
    apply Coroutine.wp_bind.mpr
    apply pre_readState
    show pre Environment Guarantee call (if s₂.state = .created then _ else _) _ s₂
    by_cases hstill : s₂.state = .created
    · rw [if_pos hstill]
      obtain ⟨t, ht, hcall, hopening, htype, hid, hdelivered⟩ := hs₂.hasTurn
      apply pre_setPhase .nothing hs₂
      · refine ⟨hs₂.invariant.phase ▸ hstill, ?_, t, ht, hcall, event, hopening, htype, hid, hdelivered⟩
        exact fun hclose => (hs₂.invariant.ending hclose).1 hstill
      · exact fun _ _ _ => trivial
      · exact fun s₃ hs₃ => hs₃.mono fun t ht => ht.complete
    · rw [if_neg hstill]
      exact hs₂.forget.mono fun t ht => ht.complete
  · intro e s₂ hs₂
    exact pre_startFailed hs₂ (fun t ht => ht.1.complete) fun e s₃ hs₃ => hs₃

theorem pre_start (h : Outside call .nothing s) :
    pre Environment Guarantee call (start call) (fun _ s' => Outside call .nothing s') s := by
  apply pre_requireCreated
  · exact fun e => h
  intro _
  apply Coroutine.wp_bind.mpr
  apply Coroutine.wp_tryCatch.mpr
  apply pre_acquireGate (by decide) h
  · intro s₁ hs₁
    apply Coroutine.wp_finallyDo (pre_startHolding hs₁)
    intro s₂ hs₂
    exact pre_releaseGate hs₂ fun s₃ hs₃ => hs₃
  · intro e s₁ hs₁
    cases e with
    | cancelledError => exact hs₁
    | exit => exact hs₁
    | error e =>
      show pre Environment Guarantee call (if e.cls = .timeoutError then _ else _) _ s₁
      by_cases hcls : e.cls = .timeoutError
      · rw [if_pos hcls]
        exact hs₁
      · rw [if_neg hcls]
        exact hs₁

/-! ## Section 5: Close -/

theorem turn_closeRequested {history : List (Entry ι)} :
    turn (history ++ [Entry.closeRequested call]) = turn history := by
  rw [turn_concat]
  cases turn history <;> rfl

theorem turn_moved {history : List (Entry ι)} {phase : Phase} :
    turn (history ++ [Entry.moved call phase]) = turn history := by
  rw [turn_concat]
  cases turn history <;> rfl

/-- Asking for the end of a session that has not begun to end. -/
theorem SessionInvariant.beginClose (h : SessionInvariant s) (hstate : s.state ≠ .closed) :
    SessionInvariant { (s.setCloseRequested call).record (.moved call .closing) with
      state := .closing, closeTask := some none } where
  lifecycle := by
    have hrequested : Justified LifecycleRule (s.history ++ [Entry.closeRequested call]) :=
      justified_concat.mpr ⟨h.lifecycle, trivial⟩
    refine justified_concat.mpr ⟨hrequested, ?_, List.mem_append_right _ List.mem_cons_self⟩
    show phaseOf (s.history ++ [Entry.closeRequested call]) ≠ .closed
    rw [phaseOf_concat]
    exact h.phase ▸ hstate
  events := justified_concat.mpr ⟨justified_concat.mpr ⟨h.events, trivial⟩, trivial⟩
  locked := by
    show s.locked = (turn (s.history ++ [Entry.closeRequested call] ++ [Entry.moved call .closing])).isSome
    rw [turn_moved, turn_closeRequested]
    exact h.locked
  sequence := by
    show s.eventSequence =
      createdCount (s.history ++ [Entry.closeRequested call] ++ [Entry.moved call .closing])
    rw [createdCount_concat, createdCount_concat]
    exact h.sequence
  phase := by
    show Phase.closing = phaseOf (s.history ++ [Entry.closeRequested call] ++ [Entry.moved call .closing])
    rw [phaseOf_concat]
    rfl
  requested := fun _ => ⟨call, List.mem_append_left _ (List.mem_append_right _ List.mem_cons_self)⟩
  ending := fun _ => ⟨nofun, nofun⟩

/-- Asking for the end of a session again. -/
theorem SessionInvariant.closeAgain (h : SessionInvariant s)
    (hending : s.state ≠ .created ∧ s.state ≠ .running) :
    SessionInvariant (s.setCloseRequested call) where
  lifecycle := justified_concat.mpr ⟨h.lifecycle, trivial⟩
  events := justified_concat.mpr ⟨h.events, trivial⟩
  locked := h.locked.trans (congrArg Option.isSome turn_closeRequested.symm)
  sequence := by
    show s.eventSequence = createdCount (s.history ++ [Entry.closeRequested call])
    rw [createdCount_concat]
    exact h.sequence
  phase := by
    show s.state = phaseOf (s.history ++ [Entry.closeRequested call])
    rw [phaseOf_concat]
    exact h.phase
  requested := fun _ => ⟨call, List.mem_append_right _ List.mem_cons_self⟩
  ending := fun _ => hending

/-- What `close` does at once keeps the invariant, and only begins the end. -/
theorem requestClose_spec (call : ι) (h : SessionInvariant s) :
    SessionInvariant (s.requestClose call).2 ∧ s.history <+: (s.requestClose call).2.history ∧
      turn (s.requestClose call).2.history = turn s.history ∧
      ((s.requestClose call).2.state = s.state ∨ (s.requestClose call).2.state = .closing) ∧
      (s.requestClose call).2.work = s.work := by
  have hgrow : s.history <+: s.history ++ [Entry.closeRequested call] := List.prefix_append _ _
  unfold SessionState.requestClose
  split
  · rename_i outcome hclosed
    have hending := h.ending (h.requested (hclosed ▸ Option.some_ne_none _))
    exact ⟨h.closeAgain hending, hgrow, turn_closeRequested, .inl rfl, rfl⟩
  · rename_i hclosing
    have hending := h.ending (h.requested (hclosing ▸ Option.some_ne_none _))
    exact ⟨h.closeAgain hending, hgrow, turn_closeRequested, .inl rfl, rfl⟩
  · by_cases hstate : s.state = .closed
    · have hending : s.state ≠ .created ∧ s.state ≠ .running := by
        rw [hstate]
        exact ⟨nofun, nofun⟩
      rw [if_pos hstate]
      exact ⟨h.closeAgain hending, hgrow, turn_closeRequested, .inl rfl, rfl⟩
    · rw [if_neg hstate]
      refine ⟨h.beginClose hstate, hgrow.trans (List.prefix_append _ _), ?_, .inr rfl, rfl⟩
      exact turn_moved.trans turn_closeRequested

theorem pre_requestClose {Q : Except Raised Bool → SessionState ι ω → Prop}
    (h : Outside call .nothing s) (hQ : ∀ b s', Outside call .nothing s' → Q (.ok b) s') :
    pre Environment Guarantee call (requestClose call) Q s := by
  rintro r s' ⟨rfl, rfl⟩
  obtain ⟨hinvariant, hgrow, hturn, hstate, hwork⟩ := requestClose_spec call h.invariant
  refine ⟨fun _ => ⟨hinvariant, hgrow, fun t _ => by rw [hturn], fun _ _ _ => hstate, fun _ => hwork⟩,
    hQ _ _ ?_⟩
  refine ⟨hinvariant, trivial, ?_⟩
  rw [hturn]
  exact h.notIts

theorem pre_awaitCloseTask {Q : Except Raised Unit → SessionState ι ω → Prop}
    (h : Outside call .nothing s) (hQ : ∀ r s', Outside call .nothing s' → Q r s') :
    pre Environment Guarantee call awaitCloseTask Q s := by
  apply pre_wait (outside_stable (by decide)) _ h hQ
  rintro v r v' ⟨-, rfl⟩
  rfl

theorem pre_close (h : Outside call .nothing s) :
    pre Environment Guarantee call (close call) (fun _ s' => Outside call .nothing s') s := by
  apply Coroutine.wp_bind.mpr
  apply pre_requestClose h
  intro b s₁ hs₁
  cases b with
  | false => exact hs₁
  | true =>
    apply Coroutine.wp_tryCatch.mpr
    apply pre_awaitCloseTask hs₁
    intro r s₂ hs₂
    match r with
    | .ok () => exact hs₂
    | .error .exit => exact hs₂
    | .error (.error e) => exact hs₂
    | .error .cancelledError =>
      apply Coroutine.wp_bind.mpr
      apply Coroutine.wp_attempt
      apply pre_awaitCloseTask hs₂
      intro r s₃ hs₃
      cases r with
      | ok => exact hs₃
      | error e => exact hs₃

theorem Holds.of_work (h : Holds call knows P s) (work : ω) :
    Guarantee call s { s with work } ∧ Holds call knows P { s with work } := by
  obtain ⟨t, ht, hcall, -⟩ := h.hasTurn
  refine ⟨h.guarantee (h.invariant.of_work work) (List.prefix_refl _) ?_,
    h.invariant.of_work work, ?_, h.hasTurn⟩
  · intro u hu
    rw [← Option.some.inj (ht.symm.trans hu), hcall]
  · exact Knows.other h.knows (List.prefix_refl _) fun _ => .inl rfl

/-- Whatever happens to the work of the collaborators, the turn goes on. -/
theorem pre_quietly {x : Coroutine ω Raised α} (h : Holds call knows P s) :
    pre Environment Guarantee call (quietly x) (fun _ s' => Holds call knows P s') s := by
  refine Coroutine.wp_lift (P := Holds call knows P)
    (fun u v hrely hu => holds_stable.rely hrely hu) ?_ x h
  exact fun u work hu => hu.of_work work

theorem pre_catchSandboxError {Q : Except Raised (Option Raised) → SessionState ι ω → Prop}
    {x : SessionCode ι ω Unit} {I : SessionState ι ω → Prop}
    (h : pre Environment Guarantee call x (fun _ s' => I s') s) (hQ : ∀ r s', I s' → Q r s') :
    pre Environment Guarantee call (catchSandboxError x) Q s := by
  apply Coroutine.wp_mono h
  intro r u hu
  match r with
  | .ok () => exact hQ _ u hu
  | .error .cancelledError => exact hQ _ u hu
  | .error .exit => exact hQ _ u hu
  | .error (.error e) =>
    show pre Environment Guarantee call (if e.cls.isSandboxError = true then _ else _) Q u
    by_cases hsandbox : e.cls.isSandboxError = true
    · rw [if_pos hsandbox]
      exact hQ _ u hu
    · rw [if_neg hsandbox]
      exact hQ _ u hu

/-- The turn of the closing task opens with no event. -/
def Unopened (t : Turn ι) : Prop := t.opening = none

theorem Unopened.complete {t : Turn ι} (h : Unopened t) : Complete t := by
  rintro operationId ⟨event, hopening, -⟩
  rw [h] at hopening
  exact nomatch hopening

/-- An event of the closing task, whether the sink accepts it or not. -/
theorem pre_closeEvent {Q : Except Raised β → SessionState ι ω → Prop}
    {eventType : SandboxEventType} {next : Option Raised → SessionCode ι ω β}
    (htype : eventType = .sandboxClosing ∨ eventType = .sandboxClosed)
    (h : Holds call .closeRequested Unopened s)
    (hraise : ∀ e s', Holds call .closeRequested Unopened s' → Q (.error e) s')
    (hnext : ∀ r s', Holds call .closeRequested Unopened s' →
      pre Environment Guarantee call (next r) Q s') :
    pre Environment Guarantee call (newEvent call eventType none none [] >>= fun event =>
      catchSandboxError (emitEvent call event true) >>= next) Q s := by
  apply Coroutine.wp_bind.mpr
  apply pre_newEvent h
  · intro t event hopening heq hid
    unfold Due
    rcases htype with rfl | rfl
    · rw [heq]
      exact ⟨hopening, hid⟩
    · rw [heq]
      exact ⟨hopening, hid⟩
  intro event s₁ heq hid hs₁
  have hcreated : Holds call .closeRequested
      (fun t => Unopened t ∧ t.pending = some event.sequence) s₁ := by
    apply hs₁.mono
    rintro t ⟨t', hopening, rfl⟩
    refine ⟨?_, rfl⟩
    show (if event.eventType.opens then some event else t'.opening) = none
    rw [heq]
    rcases htype with rfl | rfl
    · exact hopening
    · exact hopening
  have hemitted : pre Environment Guarantee call (emitEvent call event true)
      (fun _ s' => Holds call .closeRequested Unopened s') s₁ := by
    apply pre_emitEvent Unopened hcreated
    · exact fun t ht => ht.2
    · exact fun t ht => ht.1
    · exact fun s₂ hs₂ => hs₂
    · exact fun e s₂ hs₂ => hs₂.mono fun t ht => ht.1
  apply Coroutine.wp_bind.mpr
  apply pre_catchSandboxError hemitted
  intro r s₂ hs₂
  cases r with
  | ok r => exact hnext r s₂ hs₂
  | error e => exact hraise e s₂ hs₂

theorem pre_closePhase {Q : Except Raised Unit → SessionState ι ω → Prop}
    (h : Holds call .closeRequested P s)
    (hQ : ∀ s', Holds call .closeRequested P s' → Q (.ok ()) s') :
    pre Environment Guarantee call (setPhase call .closed) Q s := by
  obtain ⟨t, ht, hcall, -⟩ := h.hasTurn
  refine pre_setPhase .closeRequested h ⟨h.knows, t, ht, hcall, trivial⟩ ?_ hQ
  exact fun s' _ hgrow => CloseRequested.grow h.knows hgrow

theorem pre_closeHolding {ports : ClosePorts ω} (h : Holds call .closeRequested Unopened s) :
    pre Environment Guarantee call (closeHolding call ports)
      (fun _ s' => Holds call .closeRequested Unopened s') s := by
  apply pre_closeEvent (.inl rfl) h (fun e s₁ hs₁ => hs₁)
  intro first s₁ hs₁
  apply Coroutine.wp_bind.mpr
  apply pre_catchSandboxError (pre_quietly hs₁)
  intro second s₂ hs₂
  cases second with
  | error e => exact hs₂
  | ok second =>
    apply Coroutine.wp_bind.mpr
    apply pre_closePhase hs₂
    intro s₃ hs₃
    apply pre_closeEvent (.inr rfl) hs₃ (fun e s₄ hs₄ => hs₄)
    intro third s₄ hs₄
    cases first.or (second.or third) with
    | none => exact hs₄
    | some primary => exact hs₄

theorem pre_closeReleasing (h : Holds call .closeRequested Complete s) :
    pre Environment Guarantee call (closeReleasing call)
      (fun _ s' => Outside call .closeRequested s') s := by
  apply Coroutine.wp_bind.mpr
  apply pre_readState
  show pre Environment Guarantee call (if s.state ≠ .closed then _ else _) _ s
  by_cases hstate : s.state ≠ .closed
  · rw [if_pos hstate]
    apply Coroutine.wp_bind.mpr
    apply pre_closePhase h
    exact fun s₁ hs₁ => pre_releaseGate hs₁ fun s₂ hs₂ => hs₂
  · rw [if_neg hstate]
    exact pre_releaseGate h fun s₁ hs₁ => hs₁

theorem pre_closeOnce {ports : ClosePorts ω} (h : Outside call .closeRequested s) :
    pre Environment Guarantee call (closeOnce call ports)
      (fun _ s' => Outside call .closeRequested s') s := by
  apply Coroutine.wp_bind.mpr
  apply pre_acquireGate (by decide) h
  · intro s₁ hs₁
    have hopen : Holds call .closeRequested Unopened s₁ := by
      apply hs₁.mono
      rintro t rfl
      rfl
    apply Coroutine.wp_bind.mpr
    rintro r s₂ ⟨rfl, rfl⟩
    obtain ⟨hguarantee, hs₂⟩ := hopen.of_work (ports.cancelUnsettled s₁.work)
    refine ⟨hguarantee, ?_⟩
    apply Coroutine.wp_finallyDo (pre_closeHolding hs₂)
    exact fun s₃ hs₃ => pre_closeReleasing (hs₃.mono fun t ht => ht.complete)
  · exact fun e s₁ hs₁ => hs₁

theorem pre_closeTask {ports : ClosePorts ω} (h : Outside call .nothing s) :
    pre Environment Guarantee call (closeTask call ports)
      (fun _ s' => Outside call .nothing s') s := by
  apply Coroutine.wp_bind.mpr
  apply Coroutine.pre_await (outside_stable (by decide)) h
  rintro v r v' hv ⟨htask, rfl, rfl⟩
  refine ⟨.refl call _, ?_⟩
  -- the task exists, so somebody has asked for it
  have hrequested : CloseRequested v'.history :=
    hv.invariant.requested (htask ▸ Option.some_ne_none _)
  apply Coroutine.wp_bind.mpr
  apply Coroutine.wp_attempt
  apply Coroutine.wp_mono (pre_closeOnce ⟨hv.invariant, hrequested, hv.notIts⟩)
  rintro outcome s₁ hs₁ r s₂ ⟨rfl, rfl⟩
  have hinvariant : SessionInvariant { s₁ with closeTask := some (some outcome) } :=
    hs₁.invariant.congr rfl rfl rfl rfl fun _ => hs₁.knows
  refine ⟨fun _ => ⟨hinvariant, List.prefix_refl _, ?_, ?_, fun _ => rfl⟩,
    hinvariant, trivial, hs₁.notIts⟩
  · exact fun _ _ => Iff.rfl
  · exact fun _ _ _ => .inl rfl

/-! ## Section 6: Operations -/

/-- An operation that has reported its start and nothing of its end. -/
def Active (operationId : OperationId) (t : Turn ι) : Prop :=
  t.admitted = true ∧ Opened t .operationStarted (some operationId) ∧ t.finished = none ∧
    t.terminal = false

/-- An operation whose end is to be reported. -/
def Ending (operationId : OperationId) (failure : Option Raised) (t : Turn ι) : Prop :=
  Opened t .operationStarted (some operationId) ∧ t.finished = some failure ∧ t.terminal = false

/-- An action that leaves its turn as it finds it. -/
def Orderly (action : ι → OperationId → SessionCode ι ω α) : Prop :=
  ∀ call operationId s, Holds call .notClosed (Active operationId) s →
    pre Environment Guarantee call (action call operationId)
      (fun _ s' => Holds call .notClosed (Active operationId) s') s

/-- An operation with an orderly action; what it reports of its value is a
    snapshot. -/
structure OrderlyOperation (ι ω α : Type) extends Operation ι ω α where
  orderly : Orderly action
  snapshots : ∀ describe, postCommitEvent = some describe → ∀ value revision,
    (describe value revision).1 = .snapshotCreated ∨ (describe value revision).1 = .snapshotRestored

theorem terminal_of_report {failure : Option Raised} {eventType : SandboxEventType}
    (h : terminalFor failure = some eventType) : eventType.isTerminal = true := by
  match failure with
  | none =>
    obtain rfl := Option.some.inj h
    rfl
  | some .cancelledError =>
    obtain rfl := Option.some.inj h
    rfl
  | some .exit => exact nomatch h
  | some (.error e) =>
    simp only [terminalFor] at h
    split at h
    · obtain rfl := Option.some.inj h
      rfl
    · split at h
      · obtain rfl := Option.some.inj h
        rfl
      · obtain rfl := Option.some.inj h
        rfl

/-- Code of the collaborators keeps what is known of an admitted turn. -/
theorem pre_working {x : Coroutine ω Raised α} (h : Holds call knows P s)
    (hP : ∀ t, P t → t.admitted = true) :
    pre Environment Guarantee call (working call x) (fun _ s' => Holds call knows P s') s := by
  refine Coroutine.wp_lift (P := Holds call knows P)
    (fun u v hrely hu => holds_stable.rely hrely hu) ?_ x h
  intro u work hu
  obtain ⟨t, ht, hcall, hPt⟩ := hu.hasTurn
  exact hu.plain (.worked call) P _ rfl ⟨t, ht, hcall, hP t hPt⟩ trivial (fun t ht => ht)
    rfl rfl rfl rfl rfl

theorem Opened.of_created {t : Turn ι} {eventType : SandboxEventType} {event : SessionEvent}
    {operationId : Option OperationId} (h : Opened t eventType operationId)
    (hopens : event.eventType.opens = false) :
    Opened (t.note (.created call event)) eventType operationId := by
  obtain ⟨first, hopening, hrest⟩ := h
  refine ⟨first, ?_, hrest⟩
  show (if event.eventType.opens then some event else t.opening) = some first
  rw [hopens]
  exact hopening

theorem Opened.of_delivered {t : Turn ι} {eventType : SandboxEventType} {sequence : Nat}
    {operationId : Option OperationId} (h : Opened t eventType operationId) :
    Opened (t.note (.delivered call sequence)) eventType operationId := by
  obtain ⟨first, hopening, htype, hid, hdelivered⟩ := h
  refine ⟨first, hopening, htype, hid, ?_⟩
  show (t.delivered || _) = true
  rw [hdelivered]
  rfl

theorem Ending.complete_of_exit {operationId : OperationId} {t : Turn ι}
    (h : Ending operationId (some .exit) t) : Complete t :=
  fun _ _ => ⟨_, h.2.1, .inl rfl⟩

/-- An event within an operation, which neither opens nor ends it. -/
theorem pre_reportEvent {Q : Except Raised Unit → SessionState ι ω → Prop} {eventType : SandboxEventType}
    {operationId : OperationId} {eventId : Option OperationId} {operationKind : Option OperationKind}
    {attributes : List EventAttribute} {handler : SessionEvent → Raised → SessionCode ι ω Unit}
    (h : Holds call knows (Active operationId) s)
    (hopens : eventType.opens = false) (hterminal : eventType.isTerminal = false)
    (hdue : ∀ (t : Turn ι) event, Active operationId t → event.eventType = eventType →
      event.operationId = eventId → Due t event)
    (hok : ∀ s', Holds call knows (Active operationId) s' → Q (.ok ()) s')
    (hhandler : ∀ event e s', Holds call knows (Active operationId) s' →
      pre Environment Guarantee call (handler event e) Q s') :
    pre Environment Guarantee call (newEvent call eventType eventId operationKind attributes >>=
      fun event => tryCatch (emitEvent call event false) (handler event)) Q s := by
  apply Coroutine.wp_bind.mpr
  apply pre_newEvent h hdue
  intro event s₁ htype hid hs₁
  have hcreated : Holds call knows
      (fun t => Active operationId t ∧ t.pending = some event.sequence) s₁ := by
    apply hs₁.mono
    rintro t ⟨t', ⟨hadmitted, hopened, hfinished, hopen⟩, rfl⟩
    refine ⟨⟨hadmitted, hopened.of_created (htype ▸ hopens), hfinished, ?_⟩, rfl⟩
    show (t'.terminal || event.eventType.isTerminal) = false
    rw [hopen, htype, hterminal]
    rfl
  apply Coroutine.wp_tryCatch.mpr
  apply pre_emitEvent (Active operationId) hcreated
  · exact fun t ht => ht.2
  · rintro t ⟨⟨hadmitted, hopened, hfinished, hopen⟩, -⟩
    exact ⟨hadmitted, hopened.of_delivered, hfinished, hopen⟩
  · exact hok
  · exact fun e s₂ hs₂ => hhandler event e s₂ (hs₂.mono fun t ht => ht.1)

/-- An operation waits at the gate. -/
theorem pre_acquireOperationGate {Q : Except Raised Unit → SessionState ι ω → Prop}
    (h : Outside call .nothing s)
    (hok : ∀ s', Holds call .nothing (fun t => t = .start call) s' → Q (.ok ()) s')
    (herror : ∀ e s', Outside call .nothing s' → Q (.error e) s') :
    pre Environment Guarantee call (acquireOperationGate call) Q s := by
  apply Coroutine.wp_forever h
  intro s₁ hs₁
  apply Coroutine.wp_bind.mpr
  apply pre_check (fun _ _ hw => hw.2)
  intro r
  cases r with
  | error e => exact herror e s₁ hs₁
  | ok =>
    apply Coroutine.wp_bind.mpr
    apply pre_check (fun _ _ hw => hw.2)
    intro r
    match r with
    | .error e => exact herror e s₁ hs₁
    | .ok true => exact herror _ s₁ hs₁
    | .ok false =>
      apply Coroutine.wp_tryCatch.mpr
      apply Coroutine.wp_bind.mpr
      apply pre_acquireGate (by decide) hs₁
      · exact hok
      · intro e s₂ hs₂
        cases e with
        | cancelledError => exact herror _ s₂ hs₂
        | exit => exact herror _ s₂ hs₂
        | error e =>
          show pre Environment Guarantee call (if e.cls = .timeoutError then _ else _) _ s₂
          by_cases hcls : e.cls = .timeoutError
          · rw [if_pos hcls]
            apply Coroutine.wp_bind.mpr
            apply pre_check (fun _ _ hw => hw.2)
            intro r
            match r with
            | .error e => exact herror e s₂ hs₂
            | .ok true => exact herror _ s₂ hs₂
            | .ok false => exact hs₂
          · rw [if_neg hcls]
            exact herror _ s₂ hs₂

theorem pre_rejectNonRunning {Q : Except Raised Unit → SessionState ι ω → Prop}
    (hok : s.state = .running → Q (.ok ()) s) (herror : ∀ e, Q (.error e) s) :
    pre Environment Guarantee call rejectNonRunning Q s := by
  apply Coroutine.wp_bind.mpr
  apply pre_readState
  cases hstate : s.state with
  | running => exact hok hstate
  | created => exact herror _
  | closing => exact herror _
  | closed => exact herror _
  | failed => exact herror _

/-- The turn of an operation that has been admitted. -/
def Turn.entered (call : ι) : Turn ι := (Turn.start call).note (.admitted call)

/-- A turn without an accepted start. -/
def Unstarted (t : Turn ι) : Prop := Complete t ∧ t.finished = none

theorem Turn.entered_unstarted {t : Turn ι} (h : t = Turn.entered call) : Unstarted t := by
  subst h
  exact ⟨Unopened.complete rfl, rfl⟩

/-- The report of the start of an operation: it is accepted, or the turn is
    complete. -/
theorem pre_reportStart {Q : Except Raised Unit → SessionState ι ω → Prop} {event : SessionEvent}
    {operationId : OperationId} (htype : event.eventType = .operationStarted)
    (hid : event.operationId = some operationId)
    (h : Holds call .notClosed (fun t => t = (Turn.entered call).note (.created call event)) s)
    (hok : ∀ s', Holds call .notClosed (Active operationId) s' → Q (.ok ()) s')
    (herror : ∀ e s', Holds call .nothing Unstarted s' → Q (.error e) s') :
    pre Environment Guarantee call (emitEvent call event false) Q s := by
  have hopening : ((Turn.entered call).note (.created call event)).opening = some event := by
    show (if event.eventType.opens then some event else none) = some event
    rw [htype]
    rfl
  have hterminal : ((Turn.entered call).note (.created call event)).terminal = false := by
    show (false || event.eventType.isTerminal) = false
    rw [htype]
    rfl
  apply pre_emitEvent (Active operationId) h
  · rintro t rfl
    rfl
  · rintro t rfl
    refine ⟨rfl, ⟨event, hopening, htype, hid, ?_⟩, rfl, hterminal⟩
    show (false || ((Turn.entered call).note (.created call event)).opening.any
      (·.sequence = event.sequence)) = true
    rw [hopening]
    simp
  · exact hok
  · intro e s' hs'
    apply herror e s' (hs'.forget.mono _)
    rintro t rfl
    refine ⟨?_, rfl⟩
    rintro operationId ⟨_, _, _, _, hdelivered⟩
    exact nomatch hdelivered

/-- An operation that has got the gate reports its start, or does not start. -/
theorem pre_beginOperation {op : Operation ι ω α}
    (h : Holds call .nothing (fun t => t = .start call) s) :
    pre Environment Guarantee call (beginOperation call op)
      (ends (fun begun s' => Holds call .notClosed (Active begun.1) s')
        fun _ s' => Holds call .nothing Unstarted s') s := by
  have hfailed : ∀ s', Holds call .notClosed (fun t => t = Turn.entered call) s' →
      Holds call .nothing Unstarted (ω := ω) s' :=
    fun s' hs' => hs'.forget.mono fun t ht => Turn.entered_unstarted ht
  apply Coroutine.wp_bind.mpr
  apply pre_rejectNonRunning
  · intro hrunning
    have hopen : Holds call .notClosed (fun t => t = .start call) s := by
      refine ⟨h.invariant, ?_, h.hasTurn⟩
      show s.state ≠ .closed
      rw [hrunning]
      exact nofun
    obtain ⟨t, ht, hcall, -⟩ := h.hasTurn
    have hadmit : LifecycleRule s.history (.admitted call) :=
      ⟨h.invariant.phase ▸ hrunning, t, ht, hcall, trivial⟩
    apply Coroutine.wp_bind.mpr
    apply pre_note (fun t => t = Turn.entered call) hopen rfl rfl hadmit trivial
    · rintro t rfl
      rfl
    intro s₁ hs₁
    apply Coroutine.wp_bind.mpr
    apply Coroutine.wp_mono (pre_working hs₁ fun t ht => ht ▸ rfl)
    intro r s₂ hs₂
    cases r with
    | error e => exact hfailed s₂ hs₂
    | ok =>
      apply Coroutine.wp_bind.mpr
      apply pre_check (fun _ _ hw => hw.2)
      intro r
      cases r with
      | error e => exact hfailed s₂ hs₂
      | ok =>
        apply Coroutine.wp_bind.mpr
        apply pre_check (fun _ _ hw => hw.1)
        intro r
        cases r with
        | error e => exact hfailed s₂ hs₂
        | ok operationId =>
          apply Coroutine.wp_bind.mpr
          apply pre_check (fun _ _ hw => hw.2)
          intro r
          cases r with
          | error e => exact hfailed s₂ hs₂
          | ok startedAt =>
            apply Coroutine.wp_bind.mpr
            apply pre_newEvent hs₂
            · rintro t event rfl htype hid
              unfold Due
              rw [htype]
              exact ⟨rfl, rfl, hid ▸ Option.some_ne_none _⟩
            intro event s₃ htype hid hs₃
            apply Coroutine.wp_bind.mpr
            apply pre_reportStart htype hid
            · apply hs₃.mono
              rintro t ⟨_, rfl, rfl⟩
              rfl
            · exact fun s₄ hs₄ => hs₄
            · exact fun e s₄ hs₄ => hs₄
  · intro e
    apply h.mono
    rintro t rfl
    exact ⟨Unopened.complete rfl, rfl⟩

/-- The report of a committed value. -/
theorem pre_emitPostCommit {op : OrderlyOperation ι ω α} {operationId : OperationId} {value : α}
    {revision : Revision} (h : Holds call .notClosed (Active operationId) s) :
    pre Environment Guarantee call (emitPostCommit call op.toOperation operationId value revision)
      (fun _ s' => Holds call .notClosed (Active operationId) s') s := by
  unfold emitPostCommit
  cases hdescribe : op.postCommitEvent with
  | none => exact h
  | some describe =>
    have hsnapshot := op.snapshots describe hdescribe value revision
    show pre Environment Guarantee call (newEvent call (describe value revision).1
      (some operationId) (some op.kind) (describe value revision).2 >>= _) _ s
    apply pre_reportEvent h
    · rcases hsnapshot with heq | heq
      · rw [heq]
        rfl
      · rw [heq]
        rfl
    · rcases hsnapshot with heq | heq
      · rw [heq]
        rfl
      · rw [heq]
        rfl
    · rintro t event ⟨-, hopened, hfinished, -⟩ htype hid
      unfold Due
      rcases hsnapshot with heq | heq
      · rw [htype, heq, hid]
        exact ⟨Option.some_ne_none _, hfinished, hopened⟩
      · rw [htype, heq, hid]
        exact ⟨Option.some_ne_none _, hfinished, hopened⟩
    · exact fun s' hs' => hs'
    · intro event e s' hs'
      cases e with
      | error e => exact hs'
      | cancelledError => exact hs'
      | exit => exact hs'

/-- What an operation does leaves its turn active, however it ends. -/
theorem pre_performOperation {op : OrderlyOperation ι ω α} {operationId : OperationId}
    {startedAt : Int} (h : Holds call .notClosed (Active operationId) s) :
    pre Environment Guarantee call (performOperation call op.toOperation operationId startedAt)
      (fun _ s' => Holds call .notClosed (Active operationId) s') s := by
  apply Coroutine.wp_bind.mpr
  apply pre_check (fun _ _ hw => hw.2)
  intro r
  cases r with
  | error e => exact h
  | ok =>
    apply Coroutine.wp_bind.mpr
    apply Coroutine.wp_mono (pre_working h fun t ht => ht.1)
    intro r s₁ hs₁
    cases r with
    | error e => exact hs₁
    | ok decision =>
      apply Coroutine.wp_bind.mpr
      apply Coroutine.wp_ofExcept
      cases validatePolicyDecision decision op.limits with
      | error e => exact hs₁
      | ok decision =>
        show pre Environment Guarantee call (if decision.allowed = false then _ else _) _ s₁
        by_cases hdenied : decision.allowed = false
        · rw [if_pos hdenied]
          exact hs₁
        · rw [if_neg hdenied]
          apply Coroutine.wp_bind.mpr
          apply pre_check (fun _ _ hw => hw.2)
          intro r
          cases r with
          | error e => exact hs₁
          | ok =>
            apply Coroutine.wp_bind.mpr
            apply Coroutine.wp_mono (op.orderly call operationId s₁ hs₁)
            intro r s₂ hs₂
            cases r with
            | error e => exact hs₂
            | ok value =>
              apply Coroutine.wp_bind.mpr
              apply pre_check (fun _ _ hw => hw.2)
              intro r
              cases r with
              | error e => exact hs₂
              | ok completedAt =>
                apply Coroutine.wp_bind.mpr
                apply Coroutine.wp_ofExcept
                cases resultMetadata operationId value.2 startedAt completedAt with
                | error e => exact hs₂
                | ok metadata =>
                  apply Coroutine.wp_bind.mpr
                  apply Coroutine.wp_mono (pre_emitPostCommit hs₂)
                  intro r s₃ hs₃
                  cases r with
                  | error e => exact hs₃
                  | ok => exact hs₃

/-- What an operation does has ended. -/
theorem pre_noteFinished {Q : Except Raised Unit → SessionState ι ω → Prop}
    {operationId : OperationId} {failure : Option Raised}
    (h : Holds call .notClosed (Active operationId) s)
    (hQ : ∀ s', Holds call .notClosed (Ending operationId failure) s' → Q (.ok ()) s') :
    pre Environment Guarantee call (note (.finished call failure)) Q s := by
  obtain ⟨t, ht, hcall, -, hopened, hfinished, -⟩ := h.hasTurn
  have hgate : LifecycleRule s.history (.finished call failure) := trivial
  have hevents : EventRule s.history (.finished call failure) := ⟨t, ht, hcall, hfinished, _, hopened⟩
  apply pre_note (Ending operationId failure) h rfl rfl hgate hevents
  · rintro t ⟨-, hopened, -, hopen⟩
    exact ⟨hopened, rfl, hopen⟩
  · exact hQ

/-- An operation whose end has been reported. -/
def Over (failure : Option Raised) (t : Turn ι) : Prop :=
  t.finished = some failure ∧ t.terminal = true

theorem Over.complete {failure : Option Raised} {t : Turn ι} (h : Over failure t) : Complete t :=
  fun _ _ => ⟨failure, h.1, .inr h.2⟩

/-- The report of the end of an operation completes its turn; if it fails, the
    sink has not accepted it. -/
theorem pre_emitTerminal {Q : Except Raised Unit → SessionState ι ω → Prop} {op : Operation ι ω α}
    {operationId : OperationId} {failure : Option Raised} {eventType : SandboxEventType}
    {attributes : List EventAttribute} (hreport : terminalFor failure = some eventType)
    (h : Holds call .notClosed (Ending operationId failure) s)
    (hok : ∀ s', Holds call .nothing (Over failure) s' → Q (.ok ()) s')
    (herror : ∀ e s', Holds call .nothing (fun t => Over failure t ∧ t.pending ≠ none) s' →
      Q (.error e) s') :
    pre Environment Guarantee call (emitTerminal call op operationId eventType attributes) Q s := by
  have hterminal : eventType.isTerminal = true := terminal_of_report hreport
  apply Coroutine.wp_bind.mpr
  apply pre_newEvent h
  · rintro t event ⟨hopened, hfinished, hopen⟩ htype hid
    have hdue : event.operationId ≠ none ∧ Opened t .operationStarted event.operationId ∧
        t.terminal = false ∧ ∃ failure, t.finished = some failure ∧
          terminalFor failure = some event.eventType := by
      rw [hid, htype]
      exact ⟨Option.some_ne_none _, hopened, hopen, failure, hfinished, hreport⟩
    unfold Due
    cases heq : event.eventType with
    | operationCompleted | operationFailed | operationCancelled | operationTimedOut =>
      rw [heq] at hdue
      exact hdue
    | sandboxStarted | sandboxClosing | sandboxClosed | sandboxFailed | operationStarted
    | snapshotCreated | snapshotRestored =>
      rw [← htype, heq] at hterminal
      exact nomatch hterminal
  intro event s₁ htype hid hs₁
  have hended : Holds call .notClosed (fun t => Over failure t ∧ t.pending = some event.sequence) s₁ := by
    apply hs₁.mono
    rintro t ⟨t', ⟨-, hfinished, -⟩, rfl⟩
    refine ⟨⟨hfinished, ?_⟩, rfl⟩
    show (t'.terminal || event.eventType.isTerminal) = true
    rw [htype, hterminal, Bool.or_true]
  apply pre_emitEvent (Over failure) hended
  · exact fun t ht => ht.2
  · exact fun t ht => ht.1
  · exact fun s₂ hs₂ => hok s₂ hs₂.forget
  · intro e s₂ hs₂
    apply herror e s₂ (hs₂.forget.mono _)
    rintro t ⟨hover, hpending⟩
    rw [hpending]
    exact ⟨hover, Option.some_ne_none _⟩

/-- The end of an operation that did not fail: if it raises, the sink has not
    accepted the report. -/
def Concluded (r : Except Raised α) (t : Turn ι) : Prop :=
  Over none t ∧ ∀ e, r = .error e → t.pending ≠ none

theorem pre_completeOperation {op : Operation ι ω α} {operationId : OperationId}
    {outcome : OperationOutcome α} (h : Holds call .notClosed (Ending operationId none) s) :
    pre Environment Guarantee call (completeOperation call op operationId outcome)
      (fun r s' => Holds call .nothing (Concluded r) s') s := by
  have hreturned : ∀ s' : SessionState ι ω, Holds call .nothing (Over none) s' →
      Holds call .nothing (Concluded (.ok outcome)) s' :=
    fun s' hs' => hs'.mono fun t ht => ⟨ht, nofun⟩
  have hraised : ∀ e (s' : SessionState ι ω),
      Holds call .nothing (fun t => Over none t ∧ t.pending ≠ none) s' →
      Holds call .nothing (Concluded (.error e : Except Raised (OperationOutcome α))) s' :=
    fun e s' hs' => hs'.mono fun t ht => ⟨ht.1, fun _ _ => ht.2⟩
  show pre Environment Guarantee call (if op.completedResultIsAuthoritative = true then _ else _) _ s
  by_cases hauthoritative : op.completedResultIsAuthoritative = true
  · rw [if_pos hauthoritative]
    apply Coroutine.wp_bind.mpr
    apply Coroutine.wp_bind.mpr
    apply Coroutine.pre_await holds_stable h
    rintro v r v' hv ⟨rfl, rfl⟩
    exact ⟨.refl call _, pre_emitTerminal rfl hv hreturned hraised⟩
  · rw [if_neg hauthoritative]
    apply Coroutine.wp_bind.mpr
    exact pre_emitTerminal rfl h hreturned hraised

/-- The end of an operation that failed. -/
def Failed (e : Raised) (t : Turn ι) : Prop := Complete t ∧ t.finished = some (some e)

theorem pre_failOperation {op : Operation ι ω α} {operationId : OperationId} {e : Raised}
    (h : Holds call .notClosed (Ending operationId (some e)) s) :
    pre Environment Guarantee call (failOperation call op operationId e : SessionCode ι ω β)
      (fun _ s' => Holds call .nothing (Failed e) s') s := by
  unfold failOperation
  cases hreport : terminalFor (some e) with
  | none =>
    obtain rfl : e = .exit := by
      match e with
      | .exit => rfl
      | .cancelledError => exact nomatch hreport
      | .error e =>
        simp only [terminalFor] at hreport
        split at hreport
        · exact nomatch hreport
        · split at hreport
          · exact nomatch hreport
          · exact nomatch hreport
    exact h.forget.mono fun t ht => ⟨ht.complete_of_exit, ht.2.1⟩
  | some eventType =>
    apply Coroutine.wp_bind.mpr
    apply Coroutine.wp_attempt
    apply pre_emitTerminal hreport h
    · exact fun s₁ hs₁ => hs₁.mono fun t ht => ⟨ht.complete, ht.1⟩
    · intro terminalError s₁ hs₁
      have hfailed : Holds call .nothing (Failed e) s₁ :=
        hs₁.mono fun t ht => ⟨ht.1.complete, ht.1.1⟩
      match terminalError with
      | .cancelledError => exact hfailed
      | .exit => exact hfailed
      | .error terminalError =>
        show pre Environment Guarantee call
          (if e = .cancelledError ∧ terminalError.cls.isSandboxError = true then _ else _) _ s₁
        by_cases hcancelled : e = .cancelledError ∧ terminalError.cls.isSandboxError = true
        · rw [if_pos hcancelled]
          exact hfailed
        · rw [if_neg hcancelled]
          exact hfailed

theorem pre_operationHolding {op : OrderlyOperation ι ω α}
    (h : Holds call .nothing (fun t => t = .start call) s) :
    pre Environment Guarantee call (operationHolding call op.toOperation)
      (fun _ s' => Holds call .nothing Complete s') s := by
  apply Coroutine.wp_bind.mpr
  apply Coroutine.wp_tryCatch.mpr
  apply Coroutine.wp_mono (pre_beginOperation h)
  intro r s₁ hs₁
  cases r with
  | error e => exact Holds.mono hs₁ fun t ht => ht.1
  | ok begun =>
    apply Coroutine.wp_bind.mpr
    apply Coroutine.wp_attempt
    apply Coroutine.wp_mono (pre_performOperation hs₁)
    intro result s₂ hs₂
    apply Coroutine.wp_bind.mpr
    apply pre_noteFinished hs₂
    intro s₃ hs₃
    cases result with
    | ok outcome =>
      apply Coroutine.wp_mono (pre_completeOperation hs₃)
      exact fun r s₄ hs₄ => hs₄.mono fun t ht => ht.1.complete
    | error e =>
      apply Coroutine.wp_mono (pre_failOperation hs₃)
      exact fun r s₄ hs₄ => hs₄.mono fun t ht => ht.1

/-- An operation keeps the protocol, and leaves the gate however it ends. -/
theorem pre_runOperation (op : OrderlyOperation ι ω α) (h : Outside call .nothing s) :
    pre Environment Guarantee call (runOperation call op.toOperation)
      (fun _ s' => Outside call .nothing s') s := by
  apply Coroutine.wp_bind.mpr
  apply pre_rejectNonRunning
  · intro _
    apply Coroutine.wp_bind.mpr
    apply pre_acquireOperationGate h
    · intro s₁ hs₁
      apply Coroutine.wp_finallyDo (pre_operationHolding hs₁)
      exact fun s₂ hs₂ => pre_releaseGate hs₂ fun s₃ hs₃ => hs₃
    · exact fun e s₁ hs₁ => hs₁
  · exact fun e => h

end SandboxSession
