import MemSandbox.Service.LifecycleRuns

/-! # Safety of the sandbox service

    `lifecycle_safe`: identifiers are never shared; a reservation ends with its
    call; a runtime that the factory returned is published once or closed; a
    published runtime is closed at most once; and nothing is left behind
    `close`. -/

open Python

namespace Lifecycle

/-! ## Section 1: The invariant -/

/-- An operation is pending as long as its call is in progress; a service with a
    closing task at work is not open; and that task knows the operations and the
    deletions that it waits for. -/
structure Closing (W : World) : Prop where
  operations : ∀ call, call ∈ W.service.pendingOperations ↔ W.calls call ≠ none
  calls : ∀ call, W.nextCall ≤ call → W.calls call = none
  ended : ∀ call result, .ended call result ∈ W.history → W.calls call = none ∧ call < W.nextCall
  opened : W.service.state = .opened ↔ W.closeTask = .none ∨ W.closeTask = .created
  finishing : ∀ operations runtimes, W.closeTask = .finishing operations runtimes →
    (∀ call ∈ W.service.pendingOperations, call ∈ operations) ∧
      ∀ entry ∈ W.service.records, entry.2.runtime ∈ runtimes
  deleting : ∀ runtimes, W.closeTask = .deleting runtimes →
    W.service.pendingOperations = [] ∧ ∀ entry ∈ W.service.records, entry.2.runtime ∈ runtimes
  done : ∀ failed, W.closeTask = .done failed →
    W.service.state = .closed ∧ W.service.pendingOperations = [] ∧ W.service.records = []

/-- The identifiers are reserved, the runtimes cared for, and the closing task
    waits for what is left. -/
structure Safe (W : World) : Prop where
  identified : Identified W.service W.held
  cared : Cared W
  closing : Closing W

theorem safe_new : Safe .new where
  identified := Identified.new
  cared := Cared.new
  closing := {
    operations := fun _ => ⟨nofun, fun h => absurd rfl h⟩
    calls := fun _ _ => rfl
    ended := nofun
    opened := ⟨fun _ => .inl rfl, fun _ => rfl⟩
    finishing := nofun
    deleting := nofun
    done := nofun }

variable {W : World} {call : Nat}

/-- A call in progress has a number, and its operation is pending. -/
theorem Safe.known (h : Safe W) {pending : Pending} (hcall : W.calls call = some pending) :
    call < W.nextCall ∧ call ∈ W.service.pendingOperations := by
  constructor
  · by_contra hge
    rw [h.closing.calls call (not_lt.mp hge)] at hcall
    exact nomatch hcall
  · refine (h.closing.operations call).mpr ?_
    rw [hcall]
    exact nofun

theorem World.held_update (W : World) (call : Nat) (o : Option Pending) :
    World.held { W with calls := Function.update W.calls call o } =
      Function.update W.held call (o.bind Pending.reservation) := by
  funext c
  show (Function.update W.calls call o c).bind Pending.reservation = _
  by_cases hc : c = call
  · rw [hc, Function.update_self, Function.update_self]
  · rw [Function.update_of_ne hc, Function.update_of_ne hc]
    rfl

/-- A call that gives back what it holds ends. -/
theorem Safe.finish (h : Safe W) {pending : Pending} (hcall : W.calls call = some pending)
    {reservation : Option Reservation} (hheld : pending.reservation = reservation)
    (hsettled : ∀ runtime, pending.runtime = some runtime → runtime ∈ closings W.history)
    (result : Except Raised SandboxHandle) : Safe (W.finish call reservation result) := by
  have hholds : W.held call = reservation := by
    unfold World.held
    rw [hcall]
    exact hheld
  have hpending : ∀ c, c ∈ (W.service.finishLifecycle call reservation).pendingOperations ↔
      c ∈ W.service.pendingOperations ∧ c ≠ call := by
    intro c
    cases reservation with
    | none => exact mem_setDiscard
    | some r => exact mem_setDiscard
  have hstate : (W.service.finishLifecycle call reservation).state = W.service.state := by
    cases reservation with
    | none => rfl
    | some r => rfl
  constructor
  · show Identified _ (World.held { W with calls := Function.update W.calls call none })
    rw [World.held_update]
    cases reservation with
    | none =>
      have hsame : Function.update W.held call (Option.bind none Pending.reservation) = W.held := by
        show Function.update W.held call none = _
        rw [← hholds, Function.update_eq_self]
      rw [hsame]
      exact { h.identified with }
    | some r => exact { h.identified.release hholds with }
  · refine h.cared.finish ?_
    intro runtime hreturned
    rcases h.cared.settled call runtime hreturned with ⟨p, hp, hr⟩ | hor
    · rw [hcall] at hp
      obtain rfl := Option.some.inj hp
      exact .inr (hsettled runtime hr)
    · exact hor
  · have hclosing := h.closing
    constructor
    · intro c
      refine (hpending c).trans ?_
      show _ ↔ Function.update W.calls call none c ≠ none
      by_cases hc : c = call
      · rw [hc, Function.update_self]
        simp
      · rw [Function.update_of_ne hc, ← hclosing.operations]
        simp [hc]
    · intro c hc
      show Function.update W.calls call none c = none
      by_cases heq : c = call
      · rw [heq, Function.update_self]
      · rw [Function.update_of_ne heq]
        exact hclosing.calls c hc
    · intro c r hended
      show Function.update W.calls call none c = none ∧ c < W.nextCall
      rcases Cared.mem_concat.mp hended with hended | hended
      · obtain ⟨hnone, hlt⟩ := hclosing.ended c r hended
        have hne : c ≠ call := by
          intro heq
          rw [heq, hcall] at hnone
          exact nomatch hnone
        rw [Function.update_of_ne hne]
        exact ⟨hnone, hlt⟩
      · cases hended
        exact ⟨Function.update_self .., (h.known hcall).1⟩
    · show (W.service.finishLifecycle call reservation).state = _ ↔ _
      rw [hstate]
      exact hclosing.opened
    · intro operations runtimes htask
      obtain ⟨hops, hruntimes⟩ := hclosing.finishing operations runtimes htask
      refine ⟨fun c hc => hops c ((hpending c).mp hc).1, ?_⟩
      show ∀ entry ∈ (W.service.finishLifecycle call reservation).records, _
      rw [Cared.records_finishLifecycle]
      exact hruntimes
    · intro runtimes htask
      have hempty := (hclosing.deleting runtimes htask).1
      have hmem := (h.known hcall).2
      rw [hempty] at hmem
      exact nomatch hmem
    · intro failed htask
      have hempty := (hclosing.done failed htask).2.1
      have hmem := (h.known hcall).2
      rw [hempty] at hmem
      exact nomatch hmem

/-- A call in progress keeps its number and its operation. -/
theorem Closing.replace (h : Closing W) {old : Pending} (hcall : W.calls call = some old)
    (pending : Pending) :
    Closing { W with calls := Function.update W.calls call (some pending) } := by
  refine { h with operations := ?_, calls := ?_, ended := ?_ }
  · intro c
    show _ ↔ Function.update W.calls call (some pending) c ≠ none
    rw [h.operations]
    by_cases hc : c = call
    · rw [hc, Function.update_self, hcall]
      simp
    · rw [Function.update_of_ne hc]
  · intro c hc
    show Function.update W.calls call (some pending) c = none
    have hne : c ≠ call := by
      intro heq
      rw [← heq, h.calls c hc] at hcall
      exact nomatch hcall
    rw [Function.update_of_ne hne]
    exact h.calls c hc
  · intro c r hended
    obtain ⟨hnone, hlt⟩ := h.ended c r hended
    have hne : c ≠ call := by
      intro heq
      rw [heq, hcall] at hnone
      exact nomatch hnone
    exact ⟨(Function.update_of_ne hne ..).trans hnone, hlt⟩

/-- Only the end of a call is looked up in the history. -/
theorem Closing.note (h : Closing W) (event : Event) (hevent : ∀ c r, event ≠ .ended c r) :
    Closing { W with history := W.history ++ [event] } :=
  { h with
    ended := fun c r hended =>
      h.ended c r ((Cared.mem_concat.mp hended).resolve_right fun heq => hevent c r heq.symm) }

/-- What a call that keeps its reservation holds. -/
theorem World.held_replace (pending : Pending) {old : Pending} (hcall : W.calls call = some old)
    (hreservation : pending.reservation = old.reservation) :
    World.held { W with calls := Function.update W.calls call (some pending) } = W.held := by
  rw [World.held_update]
  have hheld : W.held call = pending.reservation := by
    unfold World.held
    rw [hcall, hreservation]
    rfl
  show Function.update W.held call pending.reservation = _
  rw [← hheld, Function.update_eq_self]

/-- A call in progress is suspended with what it had. -/
theorem Safe.suspend (h : Safe W) {pending old : Pending} (hcall : W.calls call = some old)
    (hreservation : pending.reservation = old.reservation)
    (hruntime : pending.runtime = old.runtime) (hcloses : pending.closes = old.closes) :
    Safe (W.suspend call pending) where
  identified := by
    show Identified _ (World.held { W with calls := Function.update W.calls call (some pending) })
    rw [World.held_replace pending hcall hreservation]
    exact h.identified
  cared := by
    refine h.cared.suspend call pending ?_ ?_
    · rw [hcall]
      exact hruntime
    · intro p hp
      rw [hcall] at hp
      rw [hcloses, Option.some.inj hp]
  closing := h.closing.replace hcall pending

/-- A call in progress calls the `close` of its runtime. -/
theorem Safe.awaitClose (h : Safe W) (pending : Pending) {old : Pending} {runtime : Nat}
    (hcall : W.calls call = some old) (hreservation : pending.reservation = old.reservation)
    (hold : old.runtime = some runtime) (hruntime : pending.runtime = some runtime)
    (hcloses : pending.closes = true) : Safe (W.awaitClose call pending runtime) where
  identified := by
    show Identified _ (World.held { W with calls := Function.update W.calls call (some pending) })
    rw [World.held_replace pending hcall hreservation]
    exact h.identified
  cared := h.cared.awaitClose hcall hold hruntime hcloses
  closing := { (h.closing.replace hcall pending).note (.closeCalled runtime) nofun with }

/-- The `finally` of a call that has a runtime. -/
theorem Safe.cleanup (h : Safe W) {old : Pending} {reservation : Reservation} {runtime : Nat}
    (hcall : W.calls call = some old) (hreservation : old.reservation = some reservation)
    (hruntime : old.runtime = some runtime) (primary : Raised) :
    Safe (W.cleanup call reservation runtime primary) := by
  have hclose := h.awaitClose (.cleaning reservation runtime .waiting primary) hcall
    hreservation.symm hruntime rfl rfl
  unfold World.cleanup
  dsimp only
  split
  · refine hclose.finish (Function.update_self ..) rfl ?_ _
    intro r hr
    obtain rfl := Option.some.inj hr
    show runtime ∈ closings (W.history ++ [Event.closeCalled runtime])
    rw [Cared.closings_concat]
    exact List.mem_append_right _ (List.mem_singleton.mpr rfl)
  · exact hclose

/-! ## Section 2: Every step -/

theorem requireOpen_eq {S : Service} {u : Unit} : S.requireOpen = .ok u ↔ S.state = .opened := by
  unfold Service.requireOpen
  by_cases hopened : S.state = .opened
  · simp [hopened]
  · simp [hopened]

/-- A call begins, or is refused. -/
theorem Safe.begin (h : Safe W) {next : World → World}
    (hnext : ∀ W', Safe W' → W'.calls W.nextCall = some .begun → Safe (next W')) :
    Safe (W.begin next) := by
  have hfresh := h.closing.calls W.nextCall le_rfl
  have hclosing := h.closing
  unfold World.begin Service.beginLifecycle
  cases hopen : W.service.requireOpen with
  | error e =>
    exact {
      identified := h.identified
      cared := h.cared.refuse
      closing := { hclosing with
        calls := fun c hc => hclosing.calls c (Nat.le_of_succ_le hc)
        ended := fun c r hended => by
          rcases Cared.mem_concat.mp hended with hended | hended
          · exact (hclosing.ended c r hended).imp_right Nat.lt_succ_of_lt
          · cases hended
            exact ⟨hfresh, Nat.lt_succ_self _⟩ } }
  | ok u =>
    have hstate := requireOpen_eq.mp hopen
    have htask := hclosing.opened.mp hstate
    refine hnext _ ?_ (Function.update_self ..)
    refine {
      identified := ?_
      cared := ?_
      closing := { hclosing with operations := ?_, calls := ?_, ended := ?_, finishing := ?_,
                                 deleting := ?_, done := ?_ } }
    · show Identified _ (World.held { W with calls := Function.update W.calls W.nextCall _ })
      rw [World.held_update]
      have hsame : Function.update W.held W.nextCall
          (Option.bind (some Pending.begun) Pending.reservation) = W.held := by
        have hheld : W.held W.nextCall = none := by
          unfold World.held
          rw [hfresh]
          rfl
        show Function.update W.held W.nextCall none = _
        rw [← hheld, Function.update_eq_self]
      rw [hsame]
      exact { h.identified with }
    · have hcared := h.cared.suspend W.nextCall .begun (by rw [hfresh]; rfl)
        (by rw [hfresh]; exact nofun)
      exact { hcared with
        fresh := fun c runtime hc =>
          ⟨Nat.lt_succ_of_lt (hcared.fresh c runtime hc).1, (hcared.fresh c runtime hc).2⟩ }
    · intro c
      show c ∈ W.nextCall :: W.service.pendingOperations ↔ Function.update W.calls W.nextCall _ c ≠ _
      rw [List.mem_cons, hclosing.operations]
      by_cases hc : c = W.nextCall
      · rw [hc, Function.update_self]
        simp
      · rw [Function.update_of_ne hc]
        simp [hc]
    · intro c hc
      have hne : c ≠ W.nextCall := (Nat.lt_of_succ_le hc).ne'
      show Function.update W.calls W.nextCall _ c = _
      rw [Function.update_of_ne hne]
      exact hclosing.calls c (Nat.le_of_succ_le hc)
    · intro c r hended
      obtain ⟨hnone, hlt⟩ := hclosing.ended c r hended
      exact ⟨(Function.update_of_ne hlt.ne ..).trans hnone, Nat.lt_succ_of_lt hlt⟩
    · intro operations runtimes hfinishing
      rcases htask with htask | htask
      · exact nomatch htask.symm.trans hfinishing
      · exact nomatch htask.symm.trans hfinishing
    · intro runtimes hdeleting
      rcases htask with htask | htask
      · exact nomatch htask.symm.trans hdeleting
      · exact nomatch htask.symm.trans hdeleting
    · intro failed hdone
      rcases htask with htask | htask
      · exact nomatch htask.symm.trans hdone
      · exact nomatch htask.symm.trans hdone

/-- What a successful reservation does. -/
theorem reserveIdentifiers_eq {first second : GeneratedUuid} {S S' : Service}
    {reservation : Reservation}
    (h : S.reserveIdentifiers first second = .ok (reservation, S')) :
    reservation.handle ∉ S.reservedHandles ∧ reservation.handle ∉ Dict.keys S.records ∧
      reservation.sessionId ∉ S.reservedSessionIds ∧
      (∀ entry ∈ S.records, entry.2.sessionId ≠ reservation.sessionId) ∧
      S' = { S with
        reservedHandles := reservation.handle :: S.reservedHandles
        reservedSessionIds := reservation.sessionId :: S.reservedSessionIds } := by
  unfold Service.reserveIdentifiers at h
  obtain ⟨fresh, -, h⟩ := Except.bind_eq_ok_iff.mp h
  obtain ⟨-, -, h⟩ := Except.bind_eq_ok_iff.mp h
  by_cases hhandle : fresh.handle ∈ S.reservedHandles ∨ fresh.handle ∈ Dict.keys S.records
  · rw [if_pos hhandle] at h
    exact nomatch h
  · rw [if_neg hhandle] at h
    by_cases hsession : fresh.sessionId ∈ S.reservedSessionIds ∨
        ∃ entry ∈ S.records, entry.2.sessionId = fresh.sessionId
    · rw [if_pos hsession] at h
      exact nomatch h
    · rw [if_neg hsession] at h
      cases h
      obtain ⟨hreserved, hkeys⟩ := not_or.mp hhandle
      obtain ⟨hids, hrecords⟩ := not_or.mp hsession
      exact ⟨hreserved, hkeys, hids, fun entry hentry heq => hrecords ⟨entry, hentry, heq⟩, rfl⟩

/-- A call reserves its identifiers and goes to the factory, or ends. -/
theorem Safe.construct (h : Safe W) (hcall : W.calls call = some .begun) (kind : Kind)
    (first second : GeneratedUuid) (store : Except Raised Unit) :
    Safe (W.construct call kind first second store) := by
  unfold World.construct
  split
  · exact h.finish hcall rfl nofun _
  · next reservation service hreserve =>
    obtain ⟨hhandle, hkeys, hsession, hsessions, rfl⟩ := reserveIdentifiers_eq hreserve
    have hheld : W.held call = none := by
      unfold World.held
      rw [hcall]
      rfl
    have hcreating : Safe (World.suspend { W with service := { W.service with
          reservedHandles := reservation.handle :: W.service.reservedHandles
          reservedSessionIds := reservation.sessionId :: W.service.reservedSessionIds } }
        call (.creating kind reservation)) := by
      constructor
      · show Identified _ (World.held { W with calls := Function.update W.calls call _ })
        rw [World.held_update]
        exact h.identified.reserve hheld hhandle hkeys hsession hsessions
      · exact { h.cared.suspend call (.creating kind reservation)
          (by rw [hcall]; rfl) (by rw [hcall]; rintro p ⟨⟩; rfl) with }
      · exact { h.closing.replace hcall (.creating kind reservation) with }
    split
    · next e =>
      have hfinish := hcreating.finish (Function.update_self ..) rfl nofun
        (.error (kind.outerError (kind.factoryError e)))
      unfold World.finish World.suspend at hfinish
      dsimp only at hfinish
      rw [Function.update_idem] at hfinish
      exact hfinish
    · exact hcreating

/-- What a successful publication does. -/
theorem publish_eq {reservation : Reservation} {runtime : Nat} {reading : ClockReading}
    {S S' : Service} (h : S.publish reservation runtime reading = .ok S') :
    S.state = .opened ∧ S' = Service.release reservation
      { S with records :=
          Dict.set reservation.handle ⟨reservation.sessionId, runtime, .active⟩ S.records } := by
  unfold Service.publish at h
  obtain ⟨instant, -, h⟩ := Except.bind_eq_ok_iff.mp h
  obtain ⟨u, hopen, h⟩ := Except.bind_eq_ok_iff.mp h
  cases h
  exact ⟨requireOpen_eq.mp hopen, rfl⟩

/-- A call publishes its runtime and ends. -/
theorem Safe.publish (h : Safe W) {kind : Kind} {reservation : Reservation} {runtime : Nat}
    {reading : ClockReading} {service : Service}
    (hcall : W.calls call = some (.starting kind reservation runtime))
    (hpublish : W.service.publish reservation runtime reading = .ok service)
    (result : Except Raised SandboxHandle) :
    Safe (World.finish
      { W with service, history := W.history ++ [Event.published call runtime] } call
      (some reservation) result) := by
  obtain ⟨hstate, rfl⟩ := publish_eq hpublish
  have hclosing := h.closing
  have htask := hclosing.opened.mp hstate
  have hheld : W.held call = some reservation := by
    unfold World.held
    rw [hcall]
    rfl
  have hids := h.identified
  have hhandle : reservation.handle ∉ Dict.keys W.service.records := by
    intro hmem
    obtain ⟨entry, hentry, hkey⟩ := List.mem_map.mp hmem
    exact hids.freeHandle entry hentry ((hids.handles.mem _).mpr ⟨call, reservation, hheld, hkey.symm⟩)
  constructor
  · show Identified _ (World.held { W with calls := Function.update W.calls call none })
    rw [World.held_update]
    -- giving back once more what was given back changes nothing
    have hagain : ∀ {α : Type} [DecidableEq α] (x : α) (s : List α),
        setDiscard x (setDiscard x s) = setDiscard x s := fun x s =>
      setDiscard_of_not_mem (fun hmem => (mem_setDiscard.mp hmem).2 rfl)
    have hpublished := hids.publish hheld runtime
    exact {
      handles := by
        show Reserves (setDiscard _ (setDiscard _ _)) _ _
        rw [hagain]
        exact hpublished.handles
      sessionIds := by
        show Reserves (setDiscard _ (setDiscard _ _)) _ _
        rw [hagain]
        exact hpublished.sessionIds
      records := hpublished.records
      sessions := hpublished.sessions
      freeHandle := fun entry hentry hmem =>
        hpublished.freeHandle entry hentry (mem_setDiscard.mp hmem).1
      freeSession := fun entry hentry hmem =>
        hpublished.freeSession entry hentry (mem_setDiscard.mp hmem).1 }
  · exact h.cared.publish hcall hhandle rfl result
  · constructor
    · intro c
      show c ∈ setDiscard call W.service.pendingOperations ↔ Function.update W.calls call none c ≠ none
      rw [mem_setDiscard, hclosing.operations]
      by_cases hc : c = call
      · rw [hc, Function.update_self]
        simp
      · rw [Function.update_of_ne hc]
        simp [hc]
    · intro c hc
      show Function.update W.calls call none c = none
      by_cases heq : c = call
      · rw [heq, Function.update_self]
      · rw [Function.update_of_ne heq]
        exact hclosing.calls c hc
    · intro c r hended
      show Function.update W.calls call none c = none ∧ c < W.nextCall
      rcases Cared.mem_concat.mp hended with hended | hended
      · obtain ⟨hnone, hlt⟩ := (hclosing.note (.published call runtime) nofun).ended c r hended
        have hne : c ≠ call := by
          intro heq
          rw [heq] at hnone
          exact nomatch hcall.symm.trans hnone
        rw [Function.update_of_ne hne]
        exact ⟨hnone, hlt⟩
      · cases hended
        exact ⟨Function.update_self .., (h.known hcall).1⟩
    · exact hclosing.opened
    · intro operations runtimes hfinishing
      rcases htask with htask | htask
      · exact nomatch htask.symm.trans hfinishing
      · exact nomatch htask.symm.trans hfinishing
    · intro runtimes hdeleting
      rcases htask with htask | htask
      · exact nomatch htask.symm.trans hdeleting
      · exact nomatch htask.symm.trans hdeleting
    · intro failed hdone
      rcases htask with htask | htask
      · exact nomatch htask.symm.trans hdone
      · exact nomatch htask.symm.trans hdone

theorem Safe.startReturns (h : Safe W) {kind : Kind} {reservation : Reservation} {runtime : Nat}
    (hcall : W.calls call = some (.starting kind reservation runtime)) (reading : ClockReading) :
    Safe (W.startReturns call kind reservation runtime reading) := by
  unfold World.startReturns
  split
  · next service hpublish => exact h.publish hcall hpublish _
  · exact h.cleanup hcall rfl rfl _

theorem Safe.startRaises (h : Safe W) {kind : Kind} {reservation : Reservation} {runtime : Nat}
    (hcall : W.calls call = some (.starting kind reservation runtime)) (e : Raised) :
    Safe (W.startRaises call kind reservation runtime e) := by
  unfold World.startRaises
  split
  · exact h.cleanup hcall rfl rfl _
  · exact h.awaitClose _ hcall rfl rfl rfl rfl
  · exact h.cleanup hcall rfl rfl _

/-- A call that has called the `close` of its runtime may end. -/
theorem Safe.finish_closing (h : Safe W) {pending : Pending} {reservation : Reservation}
    (hcall : W.calls call = some pending) (hheld : pending.reservation = some reservation)
    (hcloses : pending.closes = true) (result : Except Raised SandboxHandle) :
    Safe (W.finish call (some reservation) result) := by
  refine h.finish hcall hheld ?_ result
  intro runtime hruntime
  exact (h.cared.held call pending runtime hcall hruntime).2.2.mp hcloses

theorem Safe.closeAwaited (h : Safe W) {pending : Pending} (hcall : W.calls call = some pending)
    (failure : Option Raised) : Safe (W.closeAwaited call failure pending) := by
  cases pending with
  | failing reservation runtime waiter =>
    unfold World.closeAwaited
    dsimp only
    split
    · exact h.cleanup hcall rfl rfl _
    · exact h.finish_closing hcall rfl rfl _
  | cleaning reservation runtime waiter primary => exact h.finish_closing hcall rfl rfl _
  | _ => exact h

theorem Safe.cancelClose (h : Safe W) {pending : Pending} (hcall : W.calls call = some pending) :
    Safe (W.cancelClose call pending) := by
  cases pending with
  | failing reservation runtime waiter =>
    cases waiter with
    | waiting => exact h.suspend hcall rfl rfl rfl
    | cancelled => exact h.cleanup hcall rfl rfl _
  | cleaning reservation runtime waiter primary =>
    cases waiter with
    | waiting => exact h.suspend hcall rfl rfl rfl
    | cancelled => exact h.finish_closing hcall rfl rfl _
  | _ => exact h

/-- What the closing task waits for does not change with a record's status. -/
theorem Safe.startDeletion (h : Safe W) {handle : SandboxHandle} {record : SessionRecord}
    (hrecord : (handle, record) ∈ W.service.records) : Safe (W.startDeletion handle record) := by
  have hcared := h.cared.startDeletion h.identified.records hrecord
  have hclosing := h.closing
  revert hcared
  unfold World.startDeletion
  split
  case h_2 => exact fun _ => h
  case h_1 hnone =>
    intro hcared
    have hold : ∀ entry ∈ (W.service.markDeleting handle record).records,
        ∃ old ∈ W.service.records, old.2.runtime = entry.2.runtime := by
      intro entry hentry
      rcases Dict.mem_set hentry with rfl | hentry
      · exact ⟨_, hrecord, rfl⟩
      · exact ⟨entry, hentry, rfl⟩
    refine {
      identified := h.identified.mark hrecord
      cared := hcared
      closing := { hclosing with finishing := ?_, deleting := ?_, done := ?_ } }
    · intro operations runtimes htask
      obtain ⟨hops, hruntimes⟩ := hclosing.finishing operations runtimes htask
      refine ⟨hops, fun entry hentry => ?_⟩
      obtain ⟨old, hmem, hruntime⟩ := hold entry hentry
      exact hruntime ▸ hruntimes old hmem
    · intro runtimes htask
      obtain ⟨hops, hruntimes⟩ := hclosing.deleting runtimes htask
      refine ⟨hops, fun entry hentry => ?_⟩
      obtain ⟨old, hmem, hruntime⟩ := hold entry hentry
      exact hruntime ▸ hruntimes old hmem
    · intro failed htask
      rw [(hclosing.done failed htask).2.2] at hrecord
      exact nomatch hrecord

theorem Safe.getSession (h : Safe W) (handle : SandboxHandle) : Safe (W.getSession handle).1 := by
  unfold World.getSession
  split
  · next record hopen hget =>
    split
    · exact h
    · split
      · exact h
      · exact h.startDeletion (Dict.mem_of_get? hget)
  · exact h

theorem Safe.delete (h : Safe W) (handle : SandboxHandle) : Safe (W.delete handle) := by
  unfold World.delete
  split
  · next record hopen hget => exact h.startDeletion (Dict.mem_of_get? hget)
  · exact h

/-- The record of a deletion task that has called `close`. -/
theorem Safe.record_of_closing (h : Safe W) {runtime : Nat} {identifiers : Reservation}
    (hdeletion : W.deletions runtime = .closing identifiers) :
    ∃ record, (identifiers.handle, record) ∈ W.service.records ∧ record.runtime = runtime ∧
      record.sessionId = identifiers.sessionId := by
  have hpublished := h.cared.deleted runtime (by rw [hdeletion]; exact nofun)
  rcases h.cared.removed runtime hpublished with ⟨entry, hentry, rfl⟩ | ⟨failure, hdone⟩
  · have hagrees := (h.cared.records entry hentry).2
    rw [hdeletion] at hagrees
    obtain ⟨-, rfl⟩ := hagrees
    exact ⟨entry.2, hentry, rfl, rfl⟩
  · rw [hdeletion] at hdone
    exact nomatch hdone

theorem Safe.deletionEnd (h : Safe W) {runtime : Nat} {identifiers : Reservation}
    {failure : Option Raised} (hdeletion : W.deletions runtime = .closing identifiers)
    (hclose : (W.runtimes runtime).close = .done failure) :
    Safe (W.deletionEnd runtime identifiers failure) := by
  obtain ⟨record, hrecord, rfl, hsession⟩ := h.record_of_closing hdeletion
  obtain ⟨hdrop, hidentified⟩ := h.identified.drop hrecord hsession
  have hclosing := h.closing
  have hsublist := Dict.erase_sublist identifiers.handle W.service.records
  unfold World.deletionEnd
  rw [hdrop]
  exact {
    identified := hidentified
    cared := h.cared.deletionEnd h.identified.records hrecord rfl rfl hclose (by rw [hdeletion]; rfl)
    closing := { hclosing with
      finishing := fun operations runtimes htask =>
        ⟨(hclosing.finishing operations runtimes htask).1, fun entry hentry =>
          (hclosing.finishing operations runtimes htask).2 entry (hsublist.subset hentry)⟩
      deleting := fun runtimes htask =>
        ⟨(hclosing.deleting runtimes htask).1, fun entry hentry =>
          (hclosing.deleting runtimes htask).2 entry (hsublist.subset hentry)⟩
      done := fun failed htask => by
        rw [(hclosing.done failed htask).2.2] at hrecord
        exact nomatch hrecord } }

/-- The other records stay as they are when a deletion is started. -/
theorem mem_startDeletion (hkeys : Dict.UniqueKeys W.service.records) {handle : SandboxHandle}
    {record : SessionRecord} {entry : SandboxHandle × SessionRecord}
    (hentry : entry ∈ W.service.records) (hne : entry.1 ≠ handle) :
    entry ∈ (W.startDeletion handle record).service.records := by
  unfold World.startDeletion
  split
  · exact (Dict.mem_set_iff hkeys).mpr (.inr ⟨hentry, hne⟩)
  · exact hentry

theorem Safe.startDeletions {entries : List (SandboxHandle × SessionRecord)}
    (h : Safe W) (hentries : ∀ entry ∈ entries, entry ∈ W.service.records)
    (hkeys : (entries.map Prod.fst).Nodup) :
    Safe (entries.foldl (fun W entry => W.startDeletion entry.1 entry.2) W) := by
  induction entries generalizing W with
  | nil => exact h
  | cons entry entries ih =>
    obtain ⟨hnot, hkeys⟩ := List.nodup_cons.mp hkeys
    refine ih (h.startDeletion (hentries entry List.mem_cons_self)) ?_ hkeys
    intro other hother
    refine mem_startDeletion h.identified.records
      (hentries other (List.mem_cons_of_mem _ hother)) ?_
    intro heq
    exact hnot (heq ▸ List.mem_map_of_mem hother)

/-- The closing task stops the service and takes note of what is left. -/
theorem Safe.closeStart (h : Safe W) : Safe W.closeStart := by
  refine Safe.startDeletions (W := { W with
    service := { W.service with state := .closing }
    closeTask := .finishing W.service.pendingOperations
      (W.service.records.map fun entry => entry.2.runtime) }) ?_ (fun _ hentry => hentry)
    h.identified.records
  have hclosing := h.closing
  exact {
    identified := { h.identified with }
    cared := { h.cared with }
    closing := { hclosing with
      opened := ⟨nofun, fun htask => htask.elim nofun nofun⟩
      finishing := fun operations runtimes htask => by
        cases htask
        exact ⟨fun _ hc => hc, fun entry hentry => List.mem_map_of_mem hentry⟩
      deleting := nofun
      done := nofun } }

/-- Behind the last deletion no record is left. -/
theorem Safe.closeDeleted (h : Safe W) {runtimes : List Nat} {failed : Bool}
    (htask : W.closeTask = .deleting runtimes)
    (hdone : ∀ runtime ∈ runtimes, (W.deletions runtime).result.isSome) :
    Safe { W with service := W.service.markClosed, closeTask := .done failed } := by
  have hclosing := h.closing
  obtain ⟨hoperations, hruntimes⟩ := hclosing.deleting runtimes htask
  have hrecords : W.service.records = [] := by
    refine List.eq_nil_iff_forall_not_mem.mpr ?_
    intro entry hentry
    have hagrees := (h.cared.records entry hentry).2
    have hresult := hdone _ (hruntimes entry hentry)
    cases hdeletion : W.deletions entry.2.runtime with
    | done failure =>
      rw [hdeletion] at hagrees
      exact hagrees
    | _ =>
      rw [hdeletion] at hresult
      exact nomatch hresult
  have hcalls : ∀ c, W.held c = none := by
    intro c
    unfold World.held
    have hnot : W.calls c = none := by
      by_contra hne
      have hmem := (hclosing.operations c).mpr hne
      rw [hoperations] at hmem
      exact nomatch hmem
    rw [hnot]
    rfl
  obtain ⟨hhandles, hsessionIds⟩ := h.identified.clear hcalls
  have hidentified := h.identified
  have hreservedHandles := hidentified.handles
  have hreservedSessionIds := hidentified.sessionIds
  rw [hhandles] at hreservedHandles
  rw [hsessionIds] at hreservedSessionIds
  exact {
    identified := { hidentified with
      handles := hreservedHandles
      sessionIds := hreservedSessionIds
      freeHandle := fun _ _ => List.not_mem_nil
      freeSession := fun _ _ => List.not_mem_nil }
    cared := { h.cared with }
    closing := { hclosing with
      opened := ⟨nofun, fun htask => htask.elim nofun nofun⟩
      finishing := nofun
      deleting := nofun
      done := fun _ _ => ⟨rfl, hoperations, hrecords⟩ } }

/-- A runtime changes, but its closing task does not start again. -/
theorem Safe.runtime (h : Safe W) {runtime : Nat} {changed : Runtime}
    (hran : ∀ failure, (W.runtimes runtime).close = .done failure →
      ∃ result, changed.close = .done result) :
    Safe { W with runtimes := Function.update W.runtimes runtime changed } where
  identified := h.identified
  cared := { h.cared with
    ran := fun r failure hdone => by
      obtain ⟨result, hresult⟩ := h.cared.ran r failure hdone
      by_cases heq : r = runtime
      · rw [heq] at hresult ⊢
        obtain ⟨result', hresult'⟩ := hran result hresult
        exact ⟨result', (congrArg Runtime.close (Function.update_self ..)).trans hresult'⟩
      · exact ⟨result, (congrArg Runtime.close (Function.update_of_ne heq ..)).trans hresult⟩ }
  closing := { h.closing with }

/-- Every step keeps the invariant. -/
theorem Safe.after (h : Safe W) (action : Action) : Safe (W.after action) := by
  cases action with
  | create first second store =>
    exact h.begin fun W' hW' hcall => hW'.construct hcall .create first second store
  | resume => exact h.begin fun W' hW' _ => hW'
  | loaded call decoded first second store =>
    simp only [World.after]
    split
    · next hcall => exact h.construct hcall .resume first second store
    · next hcall => exact h.finish hcall rfl nofun _
    · exact h
  | factoryReturns call =>
    simp only [World.after]
    split
    · next kind reservation hcall =>
      have hheld := World.held_replace (.starting kind reservation W.nextRuntime) hcall rfl
      exact {
        identified := hheld.symm ▸ h.identified
        cared := h.cared.factoryReturns hcall (h.known hcall).1
        closing := { (h.closing.replace hcall (.starting kind reservation W.nextRuntime)).note
          (.returned call W.nextRuntime) nofun with } }
    · exact h
  | factoryRaises call e =>
    simp only [World.after]
    split
    · next kind reservation hcall => exact h.finish hcall rfl nofun _
    · exact h
  | startReturns call reading =>
    simp only [World.after]
    split
    · next kind reservation runtime hcall => exact h.startReturns hcall reading
    · exact h
  | startRaises call e =>
    simp only [World.after]
    split
    · next kind reservation runtime hcall => exact h.startRaises hcall e
    · exact h
  | closeAwaited call =>
    simp only [World.after]
    split
    · next pending hcall =>
      split
      · exact h.closeAwaited hcall _
      · exact h
    · exact h
  | cancelClose call =>
    simp only [World.after]
    split
    · next pending hcall => exact h.cancelClose hcall
    · exact h
  | sessionChanges runtime running => exact h.runtime fun failure hdone => ⟨failure, hdone⟩
  | runtimeCloses runtime failure =>
    simp only [World.after]
    split
    · exact h.runtime fun _ _ => ⟨failure, rfl⟩
    · exact h
  | getSession handle => exact h.getSession handle
  | delete handle => exact h.delete handle
  | deletionStart runtime =>
    simp only [World.after]
    split
    · next identifiers hdeletion =>
      exact {
        identified := h.identified
        cared := h.cared.deletionStart hdeletion
        closing := { h.closing.note (.closeCalled runtime) nofun with } }
    · exact h
  | deletionEnd runtime =>
    simp only [World.after]
    split
    · next identifiers failure hdeletion hclose => exact h.deletionEnd hdeletion hclose
    · exact h
  | close =>
    simp only [World.after]
    split
    · next htask =>
      have hstate := h.closing.opened.mpr (.inl htask)
      exact {
        identified := h.identified
        cared := { h.cared with }
        closing := { h.closing with
          opened := ⟨fun _ => .inr rfl, fun _ => hstate⟩
          finishing := nofun
          deleting := nofun
          done := nofun } }
    · exact h
  | closeStart =>
    simp only [World.after]
    split
    · exact h.closeStart
    · exact h
  | closeFinished =>
    simp only [World.after]
    split
    · next operations runtimes htask =>
      split
      · next hall =>
        obtain ⟨hops, hruntimes⟩ := h.closing.finishing operations runtimes htask
        have hempty : W.service.pendingOperations = [] :=
          List.eq_nil_iff_forall_not_mem.mpr fun c hc => hall c (hops c hc) hc
        have hstate : W.service.state ≠ .opened := by
          intro hopened
          rcases h.closing.opened.mp hopened with hnone | hcreated
          · exact nomatch htask.symm.trans hnone
          · exact nomatch htask.symm.trans hcreated
        exact {
          identified := h.identified
          cared := { h.cared with }
          closing := { h.closing with
            opened := ⟨fun hopened => absurd hopened hstate, fun htask => htask.elim nofun nofun⟩
            finishing := nofun
            deleting := fun _ heq => by
              cases heq
              exact ⟨hempty, hruntimes⟩
            done := nofun } }
      · exact h
    · exact h
  | closeDeleted =>
    simp only [World.after]
    split
    · next runtimes htask =>
      split
      · next hdone => exact h.closeDeleted htask hdone
      · exact h
    · exact h

/-! ## Section 3: Every run -/

theorem safe_of_reachable (h : system.Reachable W) : Safe W := by
  refine h.invariant ?_ ?_
  · intro W hW
    rw [show W = .new from hW]
    exact safe_new
  · intro W action W' _ hW hstep
    rw [show W' = W.after action from hstep]
    exact hW.after action

/-- The state after some steps. -/
def World.run (W : World) (actions : List Action) : World := actions.foldl World.after W

theorem reachable_run (h : system.Reachable W) (actions : List Action) :
    system.Reachable (W.run actions) := by
  induction actions generalizing W with
  | nil => exact h
  | cons action actions ih => exact ih (h.step rfl)

/-- Behind the closing task no call is in progress. -/
theorem Safe.idle (h : Safe W) {failed : Bool} (htask : W.closeTask = .done failed) (call : Nat) :
    W.calls call = none := by
  by_contra hne
  have hmem := (h.closing.operations call).mpr hne
  rw [(h.closing.done failed htask).2.1] at hmem
  exact nomatch hmem

/-- Behind the closing task nothing is published. -/
theorem Safe.after_done (h : Safe W) {failed : Bool} (htask : W.closeTask = .done failed)
    (action : Action) : published (W.after action).history = published W.history ∧
      (W.after action).closeTask = .done failed := by
  obtain ⟨hstate, -, hrecords⟩ := h.closing.done failed htask
  have hopen : W.service.requireOpen =
      .error (.of .sandboxServiceClosed (py "sandbox service is closed")) := by
    unfold Service.requireOpen
    rw [if_neg (by rw [hstate]; exact nofun)]
  have hbegin : ∀ next, published (W.begin next).history = published W.history ∧
      (W.begin next).closeTask = .done failed := by
    intro next
    unfold World.begin Service.beginLifecycle
    rw [hopen]
    refine ⟨?_, htask⟩
    show published (W.history ++ [Event.ended W.nextCall _]) = _
    rw [Cared.published_concat]
    exact List.append_nil _
  cases action with
  | create first second store => exact hbegin _
  | resume => exact hbegin _
  | loaded call decoded first second store =>
    simp only [World.after, h.idle htask call]
    exact ⟨trivial, htask⟩
  | factoryReturns call =>
    simp only [World.after, h.idle htask call]
    exact ⟨trivial, htask⟩
  | factoryRaises call e =>
    simp only [World.after, h.idle htask call]
    exact ⟨trivial, htask⟩
  | startReturns call reading =>
    simp only [World.after, h.idle htask call]
    exact ⟨trivial, htask⟩
  | startRaises call e =>
    simp only [World.after, h.idle htask call]
    exact ⟨trivial, htask⟩
  | closeAwaited call =>
    simp only [World.after, h.idle htask call]
    exact ⟨trivial, htask⟩
  | cancelClose call =>
    simp only [World.after, h.idle htask call]
    exact ⟨trivial, htask⟩
  | sessionChanges runtime running => exact ⟨rfl, htask⟩
  | runtimeCloses runtime failure =>
    simp only [World.after]
    split
    · exact ⟨rfl, htask⟩
    · exact ⟨rfl, htask⟩
  | getSession handle =>
    simp only [World.after, World.getSession, hopen]
    exact ⟨trivial, htask⟩
  | delete handle =>
    simp only [World.after, World.delete, hopen]
    exact ⟨trivial, htask⟩
  | deletionStart runtime =>
    simp only [World.after]
    split
    · refine ⟨?_, htask⟩
      show published (W.history ++ [Event.closeCalled runtime]) = _
      rw [Cared.published_concat]
      exact List.append_nil _
    · exact ⟨rfl, htask⟩
  | deletionEnd runtime =>
    simp only [World.after]
    split
    · exact ⟨rfl, htask⟩
    · exact ⟨rfl, htask⟩
  | close =>
    simp only [World.after, htask]
    exact ⟨trivial, trivial⟩
  | closeStart =>
    simp only [World.after, htask]
    exact ⟨trivial, trivial⟩
  | closeFinished =>
    simp only [World.after, htask]
    exact ⟨trivial, trivial⟩
  | closeDeleted =>
    simp only [World.after, htask]
    exact ⟨trivial, trivial⟩

theorem Safe.run_done (h : Safe W) {failed : Bool} (htask : W.closeTask = .done failed)
    (actions : List Action) : published (W.run actions).history = published W.history := by
  induction actions generalizing W with
  | nil => rfl
  | cons action actions ih =>
    obtain ⟨hpublished, htask'⟩ := h.after_done htask action
    exact (ih (h.after action) htask').trans hpublished

/-- What `close` leaves behind. -/
structure ClosedDown (W : World) : Prop where
  /-- No record remains, -/
  records : W.service.records = []
  /-- and no reservation; -/
  reserved : W.service.reservedHandles = [] ∧ W.service.reservedSessionIds = []
  /-- nothing is published any more; -/
  final : ∀ actions, published (W.run actions).history = published W.history
  /-- and every runtime that was published has had its `close` run. -/
  ran : ∀ runtime ∈ published W.history, ∃ failure, (W.runtimes runtime).close = .done failure

/-- The lifecycle of the sandboxes of a service. -/
structure LifecycleSafe (W : World) : Prop where
  /-- Records have distinct handles, -/
  handles : (Dict.keys W.service.records).Nodup
  /-- distinct session ids, -/
  sessionIds : (W.service.records.map fun entry => entry.2.sessionId).Nodup
  /-- and none that is reserved. -/
  free : ∀ entry ∈ W.service.records, entry.1 ∉ W.service.reservedHandles ∧
    entry.2.sessionId ∉ W.service.reservedSessionIds
  /-- What is reserved is what the calls in progress hold, each for itself, -/
  reservedHandles : Reserves W.service.reservedHandles Reservation.handle W.held
  reservedSessionIds : Reserves W.service.reservedSessionIds Reservation.sessionId W.held
  /-- and a call that has ended holds nothing. -/
  dropped : ∀ call result, .ended call result ∈ W.history → W.held call = none
  /-- `get_session` only returns the session of an active record, and a running
      one. -/
  session : ∀ handle runtime, (W.getSession handle).2 = some runtime →
    ∃ record, (handle, record) ∈ W.service.records ∧ record.status = .active ∧
      record.runtime = runtime ∧ (W.runtimes runtime).running = true
  /-- Before a call ended, its runtime was published or its `close` called. -/
  settled : ∀ before after call result, W.history = before ++ .ended call result :: after →
    ∀ runtime, .returned call runtime ∈ before →
      .published call runtime ∈ before ∨ runtime ∈ closings before
  /-- A runtime is published once, -/
  publishedOnce : (published W.history).Nodup
  /-- by the call that the factory returned it to; -/
  publishedReturned : ∀ call runtime, .published call runtime ∈ W.history →
    .returned call runtime ∈ W.history
  /-- the records have distinct runtimes, which were published; -/
  runtimes : (W.service.records.map fun entry => entry.2.runtime).Nodup ∧
    ∀ entry ∈ W.service.records, entry.2.runtime ∈ published W.history
  /-- and the `close` of one that was published is called at most once. -/
  closedOnce : ∀ runtime ∈ published W.history, (closings W.history).count runtime ≤ 1
  /-- A closed service. -/
  closed : ∀ failed, W.closeTask = .done failed → ClosedDown W

/-- Entries with distinct keys differ in whatever determines the key. -/
theorem nodup_map_of_key {α : Type} {records : List (SandboxHandle × SessionRecord)}
    (hkeys : Dict.UniqueKeys records) {f : SandboxHandle × SessionRecord → α}
    (hf : ∀ entry ∈ records, ∀ entry' ∈ records, f entry' = f entry → entry'.1 = entry.1) :
    (records.map f).Nodup := by
  refine List.Nodup.map_on ?_ (List.Nodup.of_map _ hkeys)
  intro entry hentry entry' hentry' heq
  have hkey := hf entry' hentry' entry hentry heq
  have hget := Dict.get?_of_mem hkeys (k := entry.1) (v := entry.2) hentry
  rw [hkey, Dict.get?_of_mem hkeys (v := entry'.2) hentry'] at hget
  exact Prod.ext hkey (Option.some.inj hget).symm

/-- The service is safe whatever its callers, its tasks and its collaborators do,
    and in whatever order. -/
theorem lifecycle_safe (h : system.Reachable W) : LifecycleSafe W := by
  have hsafe := safe_of_reachable h
  have hids := hsafe.identified
  have hcared := hsafe.cared
  refine ⟨hids.records, nodup_map_of_key hids.records hids.sessions,
    fun entry hentry => ⟨hids.freeHandle entry hentry, hids.freeSession entry hentry⟩,
    hids.handles, hids.sessionIds, ?_, ?_, ?_, hcared.publishedOnce, hcared.publishedReturned,
    ⟨nodup_map_of_key hids.records hcared.runtimes, fun entry hentry =>
      (hcared.records entry hentry).1⟩, ?_, ?_⟩
  · intro call result hended
    unfold World.held
    rw [(hsafe.closing.ended call result hended).1]
    rfl
  · intro handle runtime hsession
    unfold World.getSession at hsession
    split at hsession
    · next record hopen hget =>
      by_cases hdeleting : record.status = .deleting
      · rw [if_pos hdeleting] at hsession
        exact nomatch hsession
      · rw [if_neg hdeleting] at hsession
        split at hsession
        · next hrunning =>
          obtain rfl := Option.some.inj hsession
          refine ⟨record, Dict.mem_of_get? hget, ?_, rfl, hrunning⟩
          cases hstatus : record.status with
          | active => rfl
          | deleting => exact absurd hstatus hdeleting
        · exact nomatch hsession
    · exact nomatch hsession
  · intro before after call result heq
    exact hcared.justified before _ after heq
  · intro runtime hruntime
    rw [hcared.closedOnce runtime hruntime]
    cases W.deletions runtime with
    | none => exact Nat.zero_le _
    | created identifiers => exact Nat.zero_le _
    | closing identifiers => exact le_rfl
    | done failure => exact le_rfl
  · intro failed htask
    obtain ⟨-, -, hrecords⟩ := hsafe.closing.done failed htask
    refine ⟨hrecords, hids.clear fun call => ?_, hsafe.run_done htask, ?_⟩
    · unfold World.held
      rw [hsafe.idle htask call]
      rfl
    · intro runtime hruntime
      rcases hcared.removed runtime hruntime with ⟨entry, hentry, -⟩ | ⟨failure, hdone⟩
      · rw [hrecords] at hentry
        exact nomatch hentry
      · exact hcared.ran runtime failure hdone

end Lifecycle

/-! ## Section 4: A run -/

namespace Lifecycle.OneSandbox

/-- One sandbox is created, and the service is closed. -/
def world : World :=
  World.new.run [.create (.uuid 1) (.uuid 2) (.ok ()), .factoryReturns 0, .startReturns 0 (.utc 0),
    .close, .closeStart, .closeFinished, .deletionStart 0, .runtimeCloses 0 none, .deletionEnd 0,
    .closeDeleted]

theorem lifecycle_safe_world : LifecycleSafe world ∧ world.closeTask = .done false :=
  ⟨lifecycle_safe (reachable_run (.init rfl) _), rfl⟩

end Lifecycle.OneSandbox
