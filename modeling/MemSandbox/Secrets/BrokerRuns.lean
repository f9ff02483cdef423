import MemSandbox.Secrets.Broker

/-! # Racing leases

    Any number of `lease` calls suspended in `source.resolve`, and any number
    of leases that are read and closed, in any order and with any readings of
    the clock.

    `leases_safe`: there are never more records than `max_active_leases`; each
    of them belongs to a suspended call or to an open lease; a failed call has
    none; a record is dropped once; and a value is only returned by an open
    lease that the clock has not reached the expiry of. -/

open Python

namespace SecretRaces

/-! ## Section 1: Model -/

/-- What happened to a token, and what was returned for it. -/
inductive Event where
  /-- The call raised before it got a record. -/
  | refused (call : Nat)
  | reserved (call token : Nat) (expiresAt : Int)
  | purged (token : Nat) (now : Int)
  | freed (token : Nat)
  /-- The call raised and has released its record. -/
  | failed (call token : Nat)
  | opened (call token : Nat)
  | closing (token : Nat)
  | revealed (token : Nat) (now : Int)

/-- The token whose record an event drops. -/
def Event.removes : Event → Option Nat
  | .freed token => some token
  | .purged token _ => some token
  | _ => none

/-- The token whose record an event adds. -/
def Event.reserves : Event → Option Nat
  | .reserved _ token _ => some token
  | _ => none

/-- The call that raised before it got a record. -/
def Event.refuses : Event → Option Nat
  | .refused call => some call
  | _ => none

/-- A `lease` call suspended in `source.resolve`. -/
structure PendingLease where
  request : SecretAccessRequest
  token : Nat
  expiresAt : Int

/-- The broker, the suspended calls, the leases by token, and the history. -/
structure World where
  broker : BoundedSecretBroker
  calls : Nat → Option PendingLease
  leases : Nat → Option BoundedSecretLease
  nextCall : Nat
  history : List Event

/-- A new broker. -/
def World.new (limits : SecretBrokerLimits) : World :=
  ⟨.new limits, fun _ => none, fun _ => none, 0, []⟩

/-- A step: a call up to its suspension, the rest of a call, a read of a
    lease's value, or a `close`. -/
inductive Action where
  | lease (request : SecretAccessRequest) (reading : ClockReading)
  | resolve (call : Nat) (resolution : SourceResolution)
  | read (token : Nat) (reading : ClockReading)
  | close (token : Nat)

variable [DateTimes]

namespace World

/-- The records that a purge at the clock's reading drops. -/
def purges (W : World) (reading : ClockReading) : List Event :=
  match BoundedSecretBroker.now reading with
  | .ok now =>
    (BoundedSecretBroker.expired now W.broker.records).map fun token => .purged token now
  | .error _ => []

/-- The record that a release of a token drops. -/
def frees (W : World) (token : Nat) : List Event :=
  if token ∈ Dict.keys W.broker.records then [.freed token] else []

/-- A call of `lease`, up to its suspension. -/
def lease (W : World) (request : SecretAccessRequest) (reading : ClockReading) : World :=
  match BoundedSecretBroker.reserve request reading W.broker with
  | (.ok (token, expiresAt), broker) =>
    { W with
      broker
      calls := Function.update W.calls W.nextCall (some ⟨request, token, expiresAt⟩)
      nextCall := W.nextCall + 1
      history := W.history ++ W.purges reading ++ [.reserved W.nextCall token expiresAt] }
  | (.error _, broker) =>
    { W with
      broker
      nextCall := W.nextCall + 1
      history := W.history ++ W.purges reading ++ [.refused W.nextCall] }

/-- The rest of a call of `lease`. -/
def resolve (W : World) (call : Nat) (pending : PendingLease) (resolution : SourceResolution) : World :=
  match BoundedSecretBroker.settle pending.request pending.token pending.expiresAt resolution
      W.broker with
  | (.ok lease, broker) =>
    { W with
      broker
      calls := Function.update W.calls call none
      leases := Function.update W.leases pending.token (some lease)
      history := W.history ++ [.opened call pending.token] }
  | (.error _, broker) =>
    { W with
      broker
      calls := Function.update W.calls call none
      history := W.history ++ W.frees pending.token ++ [.failed call pending.token] }

/-- A read of `value`. -/
def read (W : World) (token : Nat) (lease : BoundedSecretLease) (reading : ClockReading) : World :=
  match lease.readValue reading, BoundedSecretBroker.now reading with
  | .ok _, .ok now => { W with history := W.history ++ [.revealed token now] }
  | _, _ => W

/-- A call of `close`. -/
def close (W : World) (token : Nat) (lease : BoundedSecretLease) : World :=
  match lease.close W.broker with
  | (.ok lease', broker) =>
    { W with
      broker
      leases := Function.update W.leases token (some lease')
      history := W.history ++ if lease.closed then [] else .closing token :: W.frees token }
  | (.error _, broker) => { W with broker }

/-- One step. -/
def after (W : World) : Action → World
  | .lease request reading => W.lease request reading
  | .resolve call resolution =>
    match W.calls call with
    | some pending => W.resolve call pending resolution
    | none => W
  | .read token reading =>
    match W.leases token with
    | some lease => W.read token lease reading
    | none => W
  | .close token =>
    match W.leases token with
    | some lease => W.close token lease
    | none => W

end World

/-- The runs of a broker with the given limits. -/
def system (limits : SecretBrokerLimits) : System World Action where
  init W := W = .new limits
  step W action W' := W' = W.after action

/-! ## Section 2: Books -/

/-- A record was added for the token. -/
def Reserved (history : List Event) (token : Nat) : Prop :=
  ∃ call expiresAt, .reserved call token expiresAt ∈ history

/-- The record of the token was dropped. -/
def Removed (history : List Event) (token : Nat) : Prop :=
  ∃ event ∈ history, event.removes = some token

/-- What justifies an entry of the history. -/
def Rule (before : List Event) : Event → Prop
  | .refused _ => True
  | .reserved _ token _ => ¬ Reserved before token
  | .purged token now => ¬ Removed before token ∧
      ∃ call expiresAt, .reserved call token expiresAt ∈ before ∧ expiresAt ≤ now
  | .freed token => ¬ Removed before token ∧
      ∃ call expiresAt, .reserved call token expiresAt ∈ before ∧
        (.closing token ∈ before ∨ .opened call token ∉ before)
  | .failed call token => ∃ expiresAt, .reserved call token expiresAt ∈ before
  | .opened call token => ∃ expiresAt, .reserved call token expiresAt ∈ before
  | .closing token => .closing token ∉ before ∧ ∃ call, .opened call token ∈ before
  | .revealed token now => .closing token ∉ before ∧
      ∃ call expiresAt, .reserved call token expiresAt ∈ before ∧ .opened call token ∈ before ∧
        now < expiresAt

/-- The records are those that were added and not dropped. -/
structure Books (records : List (Nat × Int)) (nextToken : Nat) (history : List Event) : Prop where
  unique : Dict.UniqueKeys records
  fresh : ∀ call token expiresAt, .reserved call token expiresAt ∈ history → token < nextToken
  origin : ∀ token call call' expiresAt expiresAt', .reserved call token expiresAt ∈ history →
    .reserved call' token expiresAt' ∈ history → call' = call ∧ expiresAt' = expiresAt
  known : ∀ token expiresAt, (token, expiresAt) ∈ records →
    ∃ call, .reserved call token expiresAt ∈ history
  accounted : ∀ token, token ∈ Dict.keys records ↔ Reserved history token ∧ ¬ Removed history token
  justified : Justified Rule history

omit [DateTimes] in
theorem removed_concat {history : List Event} {event : Event} {token : Nat} :
    Removed (history ++ [event]) token ↔ Removed history token ∨ event.removes = some token := by
  constructor
  · intro h
    obtain ⟨e, he, hremoves⟩ := h
    rcases List.mem_append.mp he with he | he
    · exact .inl ⟨e, he, hremoves⟩
    · rw [List.mem_singleton.mp he] at hremoves
      exact .inr hremoves
  · intro h
    rcases h with ⟨e, he, hremoves⟩ | hremoves
    · exact ⟨e, List.mem_append_left _ he, hremoves⟩
    · exact ⟨event, List.mem_append_right _ (List.mem_singleton.mpr rfl), hremoves⟩

omit [DateTimes] in
theorem reserved_mem_concat {history : List Event} {event : Event} (h : event.reserves = none)
    {call token : Nat} {expiresAt : Int} :
    .reserved call token expiresAt ∈ history ++ [event] ↔
      .reserved call token expiresAt ∈ history := by
  rw [List.mem_append, List.mem_singleton]
  constructor
  · intro hmem
    rcases hmem with hmem | rfl
    · exact hmem
    · exact nomatch h
  · exact .inl

omit [DateTimes] in
theorem reserved_concat {history : List Event} {event : Event} (h : event.reserves = none)
    {token : Nat} : Reserved (history ++ [event]) token ↔ Reserved history token := by
  unfold Reserved
  simp only [reserved_mem_concat h]

variable {records : List (Nat × Int)} {nextToken : Nat} {history : List Event}

omit [DateTimes] in
/-- An entry that adds and drops nothing. -/
theorem Books.note (h : Books records nextToken history) {event : Event}
    (hreserves : event.reserves = none) (hremoves : event.removes = none)
    (hrule : Rule history event) : Books records nextToken (history ++ [event]) where
  unique := h.unique
  fresh call token expiresAt hmem := h.fresh call token expiresAt ((reserved_mem_concat hreserves).mp hmem)
  origin token call call' expiresAt expiresAt' hmem hmem' :=
    h.origin token call call' expiresAt expiresAt' ((reserved_mem_concat hreserves).mp hmem)
      ((reserved_mem_concat hreserves).mp hmem')
  known token expiresAt hmem := by
    obtain ⟨call, hcall⟩ := h.known token expiresAt hmem
    exact ⟨call, (reserved_mem_concat hreserves).mpr hcall⟩
  accounted token := by
    rw [reserved_concat hreserves, removed_concat, hremoves, h.accounted]
    simp
  justified := justified_concat.mpr ⟨h.justified, hrule⟩

omit [DateTimes] in
/-- An entry that drops a record. -/
theorem Books.remove (h : Books records nextToken history) {event : Event} {token : Nat}
    (hreserves : event.reserves = none) (hremoves : event.removes = some token)
    (hrule : Rule history event) :
    Books (Dict.erase token records) nextToken (history ++ [event]) where
  unique := Dict.uniqueKeys_erase h.unique token
  fresh call t expiresAt hmem := h.fresh call t expiresAt ((reserved_mem_concat hreserves).mp hmem)
  origin t call call' expiresAt expiresAt' hmem hmem' :=
    h.origin t call call' expiresAt expiresAt' ((reserved_mem_concat hreserves).mp hmem)
      ((reserved_mem_concat hreserves).mp hmem')
  known t expiresAt hmem := by
    obtain ⟨call, hcall⟩ := h.known t expiresAt ((Dict.erase_sublist token records).subset hmem)
    exact ⟨call, (reserved_mem_concat hreserves).mpr hcall⟩
  accounted t := by
    have herase := Dict.get?_erase h.unique token t
    rw [reserved_concat hreserves, removed_concat, hremoves, ← not_iff_not,
      ← Dict.get?_eq_none_iff, herase]
    by_cases ht : t = token
    · subst ht
      simp
    · rw [if_neg ht, Dict.get?_eq_none_iff, h.accounted, Option.some.injEq]
      simp [Ne.symm ht]
  justified := justified_concat.mpr ⟨h.justified, hrule⟩

omit [DateTimes] in
/-- What is dropped was added before. -/
theorem Books.reserved_of_removed (h : Books records nextToken history) {token : Nat}
    (hremoved : Removed history token) : Reserved history token := by
  obtain ⟨event, hevent, hremoves⟩ := hremoved
  obtain ⟨before, after, rfl⟩ := List.append_of_mem hevent
  have hrule := h.justified before event after rfl
  cases event with
  | purged t now =>
    cases hremoves
    obtain ⟨-, call, expiresAt, hmem, -⟩ := hrule
    exact ⟨call, expiresAt, List.mem_append_left _ hmem⟩
  | freed t =>
    cases hremoves
    obtain ⟨-, call, expiresAt, hmem, -⟩ := hrule
    exact ⟨call, expiresAt, List.mem_append_left _ hmem⟩
  | _ => exact nomatch hremoves

omit [DateTimes] in
/-- The next token gets a record. -/
theorem Books.reserve (h : Books records nextToken history) (call : Nat) (expiresAt : Int) :
    Books (Dict.set nextToken expiresAt records) (nextToken + 1)
      (history ++ [Event.reserved call nextToken expiresAt]) := by
  have hnew : ¬ Reserved history nextToken := by
    intro hreserved
    obtain ⟨c, e, hmem⟩ := hreserved
    exact absurd (h.fresh c nextToken e hmem) (lt_irrefl _)
  have hkeys : nextToken ∉ Dict.keys records := fun hmem => hnew ((h.accounted _).mp hmem).1
  have hmem : ∀ c t e, .reserved c t e ∈ history ++ [Event.reserved call nextToken expiresAt] ↔
      .reserved c t e ∈ history ∨ (c = call ∧ t = nextToken ∧ e = expiresAt) := by
    intro c t e
    rw [List.mem_append, List.mem_singleton, Event.reserved.injEq]
  constructor
  · exact Dict.uniqueKeys_set h.unique _ _
  · intro c t e ht
    rcases (hmem c t e).mp ht with ht | ⟨-, rfl, -⟩
    · exact Nat.lt_succ_of_lt (h.fresh c t e ht)
    · exact Nat.lt_succ_self _
  · intro t c c' e e' ht ht'
    rcases (hmem c t e).mp ht with hold | ⟨rfl, rfl, rfl⟩
    · rcases (hmem c' t e').mp ht' with hold' | ⟨-, rfl, -⟩
      · exact h.origin t c c' e e' hold hold'
      · exact absurd ⟨c, e, hold⟩ hnew
    · rcases (hmem c' _ e').mp ht' with hold' | ⟨rfl, -, rfl⟩
      · exact absurd ⟨c', e', hold'⟩ hnew
      · exact ⟨rfl, rfl⟩
  · intro t e ht
    rcases Dict.mem_set ht with heq | ht
    · cases heq
      exact ⟨call, (hmem _ _ _).mpr (.inr ⟨rfl, rfl, rfl⟩)⟩
    · obtain ⟨c, hc⟩ := h.known t e ht
      exact ⟨c, (hmem _ _ _).mpr (.inl hc)⟩
  · intro t
    rw [Dict.keys_set, if_neg hkeys, List.mem_append, List.mem_singleton, h.accounted,
      removed_concat]
    have hreserved : Reserved (history ++ [Event.reserved call nextToken expiresAt]) t ↔
        Reserved history t ∨ t = nextToken := by
      unfold Reserved
      simp only [hmem]
      constructor
      · intro hex
        obtain ⟨c, e, hold | ⟨-, rfl, -⟩⟩ := hex
        · exact .inl ⟨c, e, hold⟩
        · exact .inr rfl
      · intro hor
        rcases hor with ⟨c, e, hold⟩ | rfl
        · exact ⟨c, e, .inl hold⟩
        · exact ⟨call, expiresAt, .inr ⟨rfl, rfl, rfl⟩⟩
    rw [hreserved]
    constructor
    · intro hor
      rcases hor with ⟨hold, hnot⟩ | rfl
      · exact ⟨.inl hold, fun hremoved => hremoved.elim hnot nofun⟩
      · exact ⟨.inr rfl, fun hremoved => hremoved.elim (fun hr => hnew (h.reserved_of_removed hr)) nofun⟩
    · intro hand
      obtain ⟨hold | rfl, hnot⟩ := hand
      · exact .inl ⟨hold, fun hremoved => hnot (.inl hremoved)⟩
      · exact .inr rfl
  · exact justified_concat.mpr ⟨h.justified, hnew⟩

omit [DateTimes] in
/-- A purge drops records that have expired. -/
theorem Books.purge (h : Books records nextToken history) {now : Int} {tokens : List Nat}
    (htokens : tokens.Nodup)
    (hexpired : ∀ token ∈ tokens, ∃ expiresAt, (token, expiresAt) ∈ records ∧ expiresAt ≤ now) :
    Books (tokens.foldl (fun records token => Dict.erase token records) records) nextToken
      (history ++ tokens.map fun token => Event.purged token now) := by
  induction tokens generalizing records history with
  | nil =>
    rw [List.map_nil, List.append_nil]
    exact h
  | cons token tokens ih =>
    obtain ⟨hnot, hnodup⟩ := List.nodup_cons.mp htokens
    obtain ⟨expiresAt, hrecord, hle⟩ := hexpired token List.mem_cons_self
    obtain ⟨call, hcall⟩ := h.known token expiresAt hrecord
    have hheld := (h.accounted token).mp (Dict.mem_keys_of_mem hrecord)
    have hrule : Rule history (.purged token now) := ⟨hheld.2, call, expiresAt, hcall, hle⟩
    have hnext := @Books.remove _ _ _ h _ token rfl rfl hrule
    rw [List.map_cons, List.append_cons]
    refine ih hnext hnodup ?_
    intro other hother
    obtain ⟨e, hmem, he⟩ := hexpired other (List.mem_cons_of_mem _ hother)
    have hne : other ≠ token := by
      intro heq
      rw [heq] at hother
      exact hnot hother
    refine ⟨e, Dict.mem_of_get? ?_, he⟩
    rw [Dict.get?_erase h.unique, if_neg hne]
    exact Dict.get?_of_mem h.unique hmem

/-! ## Section 3: The invariant -/

/-- The books are kept, within the bound; a suspended call has its token to
    itself; and a record belongs to a suspended call or to an open lease. -/
structure Safe (W : World) : Prop where
  books : Books W.broker.records W.broker.nextToken W.history
  bounded : W.broker.records.length ≤ W.broker.limits.maxActiveLeases
  pending : ∀ call p, W.calls call = some p →
    .reserved call p.token p.expiresAt ∈ W.history ∧ .opened call p.token ∉ W.history ∧
      .closing p.token ∉ W.history
  lease : ∀ token l, W.leases token = some l → l.token = token ∧
    (∃ call, .reserved call token l.expiresAt ∈ W.history ∧ .opened call token ∈ W.history) ∧
    (l.closed = true ↔ .closing token ∈ W.history)
  closed : ∀ token l, W.leases token = some l → l.closed = true → token ∉ Dict.keys W.broker.records
  owner : ∀ token ∈ Dict.keys W.broker.records,
    (∃ call p, W.calls call = some p ∧ p.token = token) ∨
      ∃ l, W.leases token = some l ∧ l.closed = false
  failed : ∀ call token, .failed call token ∈ W.history → token ∉ Dict.keys W.broker.records
  refused : ∀ call, .refused call ∈ W.history →
    ∀ token expiresAt, .reserved call token expiresAt ∉ W.history
  calls : ∀ call, W.nextCall ≤ call → W.calls call = none ∧ .refused call ∉ W.history ∧
    ∀ token expiresAt, .reserved call token expiresAt ∉ W.history

omit [DateTimes] in
theorem safe_new (limits : SecretBrokerLimits) : Safe (.new limits) where
  books := {
    unique := Dict.uniqueKeys_nil
    fresh := nofun
    origin := nofun
    known := nofun
    accounted := by
      intro token
      constructor
      · exact nofun
      · intro h
        obtain ⟨⟨_, _, hmem⟩, -⟩ := h
        exact absurd hmem List.not_mem_nil
    justified := justified_nil }
  bounded := Nat.zero_le _
  pending := nofun
  lease := nofun
  closed := nofun
  owner := nofun
  failed := nofun
  refused := nofun
  calls := fun _ _ => ⟨rfl, List.not_mem_nil, fun _ _ => List.not_mem_nil⟩

omit [DateTimes] in
/-- The records that a purge drops. -/
theorem Safe.purge {W : World} (h : Safe W) (now : Int) :
    Safe { W with
      broker := { W.broker with
        records := BoundedSecretBroker.purgeExpired now W.broker.records }
      history := W.history ++
        (BoundedSecretBroker.expired now W.broker.records).map
          fun token => Event.purged token now } := by
  have hsub : (BoundedSecretBroker.purgeExpired now W.broker.records).Sublist W.broker.records := by
    unfold BoundedSecretBroker.purgeExpired
    generalize BoundedSecretBroker.expired now W.broker.records = tokens
    generalize W.broker.records = records
    induction tokens generalizing records with
    | nil => exact List.Sublist.refl _
    | cons token tokens ih => exact (ih (Dict.erase token records)).trans (Dict.erase_sublist _ _)
  have hkeys : ∀ token ∈ Dict.keys (BoundedSecretBroker.purgeExpired now W.broker.records),
      token ∈ Dict.keys W.broker.records := fun token hmem => (hsub.map Prod.fst).subset hmem
  have hmem : ∀ event, event.removes = none →
      (event ∈ W.history ++ (BoundedSecretBroker.expired now W.broker.records).map
        (fun token => .purged token now) ↔ event ∈ W.history) := by
    intro event hremoves
    rw [List.mem_append]
    constructor
    · intro hor
      rcases hor with hold | hnew
      · exact hold
      · obtain ⟨token, -, rfl⟩ := List.mem_map.mp hnew
        exact nomatch hremoves
    · exact .inl
  constructor
  · apply h.books.purge
    · exact List.Nodup.sublist (List.filter_sublist.map Prod.fst) h.books.unique
    · intro token htoken
      obtain ⟨record, hrecord, rfl⟩ := List.mem_map.mp htoken
      obtain ⟨hrecord, hle⟩ := List.mem_filter.mp hrecord
      exact ⟨record.2, hrecord, of_decide_eq_true hle⟩
  · exact Nat.le_trans hsub.length_le h.bounded
  · intro call p hp
    obtain ⟨hreserved, hopened, hclosing⟩ := h.pending call p hp
    exact ⟨(hmem _ rfl).mpr hreserved, fun hm => hopened ((hmem _ rfl).mp hm),
      fun hm => hclosing ((hmem _ rfl).mp hm)⟩
  · intro token l hl
    obtain ⟨htoken, ⟨call, hreserved, hopened⟩, hclosed⟩ := h.lease token l hl
    exact ⟨htoken, ⟨call, (hmem _ rfl).mpr hreserved, (hmem _ rfl).mpr hopened⟩,
      hclosed.trans (hmem _ rfl).symm⟩
  · intro token l hl hclosed hm
    exact h.closed token l hl hclosed (hkeys token hm)
  · intro token hm
    exact h.owner token (hkeys token hm)
  · intro call token hfailed hm
    exact h.failed call token ((hmem _ rfl).mp hfailed) (hkeys token hm)
  · intro call hrefused token expiresAt hreserved
    exact h.refused call ((hmem _ rfl).mp hrefused) token expiresAt ((hmem _ rfl).mp hreserved)
  · intro call hcall
    obtain ⟨hnone, hrefused, hreserved⟩ := h.calls call hcall
    exact ⟨hnone, fun hm => hrefused ((hmem _ rfl).mp hm),
      fun token expiresAt hm => hreserved token expiresAt ((hmem _ rfl).mp hm)⟩

omit [DateTimes] in
/-- A call that raises before it has a record. -/
theorem Safe.refuse {W : World} (h : Safe W) :
    Safe { W with
      nextCall := W.nextCall + 1
      history := W.history ++ [Event.refused W.nextCall] } := by
  have hmem : ∀ event, event.refuses ≠ some W.nextCall →
      (event ∈ W.history ++ [Event.refused W.nextCall] ↔ event ∈ W.history) := by
    intro event hne
    rw [List.mem_append, List.mem_singleton]
    refine or_iff_left ?_
    intro heq
    rw [heq] at hne
    exact hne rfl
  have hold : ∀ event, event.refuses = none →
      (event ∈ W.history ++ [Event.refused W.nextCall] ↔ event ∈ W.history) := by
    intro event hrefuses
    apply hmem
    rw [hrefuses]
    exact nofun
  obtain ⟨-, -, hnone⟩ := h.calls W.nextCall le_rfl
  constructor
  · exact h.books.note rfl rfl trivial
  · exact h.bounded
  · intro call p hp
    obtain ⟨hreserved, hopened, hclosing⟩ := h.pending call p hp
    exact ⟨(hold _ rfl).mpr hreserved, fun hm => hopened ((hold _ rfl).mp hm),
      fun hm => hclosing ((hold _ rfl).mp hm)⟩
  · intro token l hl
    obtain ⟨htoken, ⟨call, hreserved, hopened⟩, hclosed⟩ := h.lease token l hl
    exact ⟨htoken, ⟨call, (hold _ rfl).mpr hreserved, (hold _ rfl).mpr hopened⟩,
      hclosed.trans (hold _ rfl).symm⟩
  · exact h.closed
  · exact h.owner
  · intro call token hfailed
    exact h.failed call token ((hold _ rfl).mp hfailed)
  · intro call hrefused token expiresAt hreserved
    have hreserved := (hold _ rfl).mp hreserved
    by_cases hcall : call = W.nextCall
    · rw [hcall] at hreserved
      exact hnone token expiresAt hreserved
    · have hne : (Event.refused call).refuses ≠ some W.nextCall :=
        fun heq => hcall (Option.some.inj heq)
      exact h.refused call ((hmem _ hne).mp hrefused) token expiresAt hreserved
  · intro call hcall
    obtain ⟨hcalls, hrefused, hreserved⟩ := h.calls call (Nat.le_of_succ_le hcall)
    refine ⟨hcalls, ?_, fun token expiresAt hm => hreserved token expiresAt ((hold _ rfl).mp hm)⟩
    have hne : (Event.refused call).refuses ≠ some W.nextCall := by
      intro heq
      have hcallEq : call = W.nextCall := Option.some.inj heq
      have hlate : W.nextCall + 1 ≤ call := hcall
      omega
    exact fun hm => hrefused ((hmem _ hne).mp hm)

omit [DateTimes] in
/-- A call that gets a record, below the bound. -/
theorem Safe.reserve {W : World} (h : Safe W) (request : SecretAccessRequest) (expiresAt : Int)
    (hroom : W.broker.records.length < W.broker.limits.maxActiveLeases) :
    Safe { W with
      broker := { W.broker with
        nextToken := W.broker.nextToken + 1
        records := Dict.set W.broker.nextToken expiresAt W.broker.records }
      calls := Function.update W.calls W.nextCall (some ⟨request, W.broker.nextToken, expiresAt⟩)
      nextCall := W.nextCall + 1
      history := W.history ++ [Event.reserved W.nextCall W.broker.nextToken expiresAt] } := by
  have hmem : ∀ event, event.reserves = none →
      (event ∈ W.history ++ [Event.reserved W.nextCall W.broker.nextToken expiresAt] ↔
        event ∈ W.history) := by
    intro event hreserves
    rw [List.mem_append, List.mem_singleton]
    refine or_iff_left ?_
    rintro rfl
    exact nomatch hreserves
  have hfresh : ¬ Reserved W.history W.broker.nextToken := by
    intro hreserved
    obtain ⟨c, e, hm⟩ := hreserved
    exact absurd (h.books.fresh c _ e hm) (lt_irrefl _)
  have hkeysNot : W.broker.nextToken ∉ Dict.keys W.broker.records :=
    fun hm => hfresh ((h.books.accounted _).mp hm).1
  have hkeys : ∀ token, token ∈ Dict.keys (Dict.set W.broker.nextToken expiresAt W.broker.records) ↔
      token ∈ Dict.keys W.broker.records ∨ token = W.broker.nextToken := by
    intro token
    rw [Dict.keys_set, if_neg hkeysNot, List.mem_append, List.mem_singleton]
  -- an entry about a token that was opened, closed or failed names one that was reserved
  have hrule : ∀ event ∈ W.history, (∀ call, event ≠ .opened call W.broker.nextToken) ∧
      event ≠ .closing W.broker.nextToken ∧ ∀ call, event ≠ .failed call W.broker.nextToken := by
    have hopened : ∀ call, .opened call W.broker.nextToken ∉ W.history := by
      intro call hm
      obtain ⟨before, after, heq⟩ := List.append_of_mem hm
      obtain ⟨e, hreserved⟩ := h.books.justified before _ after heq
      apply hfresh
      exact ⟨call, e, by rw [heq]; exact List.mem_append_left _ hreserved⟩
    intro event hevent
    refine ⟨?_, ?_, ?_⟩
    · rintro call rfl
      exact hopened call hevent
    · rintro rfl
      obtain ⟨before, after, heq⟩ := List.append_of_mem hevent
      obtain ⟨-, call, hcall⟩ := h.books.justified before _ after heq
      apply hopened call
      rw [heq]
      exact List.mem_append_left _ hcall
    · rintro call rfl
      obtain ⟨before, after, heq⟩ := List.append_of_mem hevent
      obtain ⟨e, hreserved⟩ := h.books.justified before _ after heq
      apply hfresh
      exact ⟨call, e, by rw [heq]; exact List.mem_append_left _ hreserved⟩
  obtain ⟨-, hrefusedNext, hnone⟩ := h.calls W.nextCall le_rfl
  constructor
  · exact h.books.reserve W.nextCall expiresAt
  · show (Dict.set W.broker.nextToken expiresAt W.broker.records).length ≤ _
    rw [Dict.set_of_not_mem hkeysNot, List.length_append, List.length_singleton]
    exact hroom
  · intro call p hp
    by_cases hcall : call = W.nextCall
    · subst hcall
      simp only [Function.update_self, Option.some.injEq] at hp
      subst hp
      refine ⟨List.mem_append_right _ (List.mem_singleton.mpr rfl), ?_, ?_⟩
      · exact fun hm => (hrule _ ((hmem _ rfl).mp hm)).1 _ rfl
      · exact fun hm => (hrule _ ((hmem _ rfl).mp hm)).2.1 rfl
    · simp only [Function.update_of_ne hcall] at hp
      obtain ⟨hreserved, hopened, hclosing⟩ := h.pending call p hp
      exact ⟨List.mem_append_left _ hreserved, fun hm => hopened ((hmem _ rfl).mp hm),
        fun hm => hclosing ((hmem _ rfl).mp hm)⟩
  · intro token l hl
    obtain ⟨htoken, ⟨call, hreserved, hopened⟩, hclosed⟩ := h.lease token l hl
    exact ⟨htoken, ⟨call, List.mem_append_left _ hreserved, List.mem_append_left _ hopened⟩,
      hclosed.trans (hmem _ rfl).symm⟩
  · intro token l hl hclosed hm
    rcases (hkeys token).mp hm with hold | rfl
    · exact h.closed token l hl hclosed hold
    · obtain ⟨-, ⟨call, hreserved, -⟩, -⟩ := h.lease _ l hl
      exact hfresh ⟨call, _, hreserved⟩
  · intro token hm
    rcases (hkeys token).mp hm with hold | rfl
    · rcases h.owner token hold with ⟨call, p, hp, htoken⟩ | hlease
      · left
        have hne : call ≠ W.nextCall := by
          intro heq
          rw [heq, (h.calls W.nextCall le_rfl).1] at hp
          exact nomatch hp
        exact ⟨call, p, (Function.update_of_ne hne _ _).trans hp, htoken⟩
      · exact .inr hlease
    · exact .inl ⟨W.nextCall, _, Function.update_self .., rfl⟩
  · intro call token hfailed hm
    have hfailed := (hmem _ rfl).mp hfailed
    rcases (hkeys token).mp hm with hold | rfl
    · exact h.failed call token hfailed hold
    · exact (hrule _ hfailed).2.2 call rfl
  · intro call hrefused token e hreserved
    have hrefused := (hmem _ rfl).mp hrefused
    rcases List.mem_append.mp hreserved with hold | hnew
    · exact h.refused call hrefused token e hold
    · obtain ⟨rfl, -, -⟩ := Event.reserved.inj (List.mem_singleton.mp hnew)
      exact hrefusedNext hrefused
  · intro call hcall
    obtain ⟨hcalls, hrefused, hreserved⟩ := h.calls call (Nat.le_of_succ_le hcall)
    have hne : call ≠ W.nextCall := by
      rintro rfl
      exact absurd hcall (Nat.not_succ_le_self _)
    refine ⟨(Function.update_of_ne hne _ _).trans hcalls, fun hm => hrefused ((hmem _ rfl).mp hm), ?_⟩
    intro token e hm
    rcases List.mem_append.mp hm with hold | hnew
    · exact hreserved token e hold
    · exact hne (Event.reserved.inj (List.mem_singleton.mp hnew)).1

omit [DateTimes] in
theorem mem_frees {W : World} {token : Nat} {event : Event} (h : event ∈ W.frees token) :
    event = .freed token ∧ token ∈ Dict.keys W.broker.records := by
  unfold World.frees at h
  by_cases htoken : token ∈ Dict.keys W.broker.records
  · rw [if_pos htoken] at h
    exact ⟨List.mem_singleton.mp h, htoken⟩
  · rw [if_neg htoken] at h
    exact absurd h List.not_mem_nil

omit [DateTimes] in
/-- A release drops the record of its token, if it still has one. -/
theorem Books.release {W : World} {history : List Event}
    (h : Books W.broker.records W.broker.nextToken history) {token call : Nat} {expiresAt : Int}
    (hreserved : .reserved call token expiresAt ∈ history)
    (hcause : .closing token ∈ history ∨ .opened call token ∉ history) :
    Books (Dict.erase token W.broker.records) W.broker.nextToken
      (history ++ W.frees token) := by
  unfold World.frees
  by_cases htoken : token ∈ Dict.keys W.broker.records
  · rw [if_pos htoken]
    have hheld := (h.accounted token).mp htoken
    have hrule : Rule history (.freed token) := ⟨hheld.2, call, expiresAt, hreserved, hcause⟩
    exact h.remove rfl rfl hrule
  · rw [if_neg htoken, List.append_nil, Dict.erase_of_not_mem htoken]
    exact h

omit [DateTimes] in
theorem keys_erase {W : World} (h : Safe W) (token key : Nat) :
    key ∈ Dict.keys (Dict.erase token W.broker.records) ↔
      key ≠ token ∧ key ∈ Dict.keys W.broker.records := by
  have herase := Dict.get?_erase h.books.unique token key
  rw [← not_iff_not, ← Dict.get?_eq_none_iff, herase]
  by_cases hkey : key = token
  · simp [hkey]
  · rw [if_neg hkey, Dict.get?_eq_none_iff]
    simp [hkey]

omit [DateTimes] in
/-- A call that raises after it got a record. -/
theorem Safe.fail {W : World} (h : Safe W) {call : Nat} {p : PendingLease}
    (hp : W.calls call = some p) :
    Safe { W with
      broker := { W.broker with records := Dict.erase p.token W.broker.records }
      calls := Function.update W.calls call none
      history := W.history ++ W.frees p.token ++ [Event.failed call p.token] } := by
  obtain ⟨hreserved, hopened, hclosing⟩ := h.pending call p hp
  have hmem : ∀ event, (∀ token, event ≠ .freed token) → (∀ c token, event ≠ .failed c token) →
      (event ∈ W.history ++ W.frees p.token ++ [Event.failed call p.token] ↔
        event ∈ W.history) := by
    intro event hfreed hfailed
    rw [List.mem_append, List.mem_append, List.mem_singleton]
    constructor
    · intro hor
      rcases hor with (hold | hnew) | hnew
      · exact hold
      · exact absurd (mem_frees hnew).1 (hfreed _)
      · exact absurd hnew (hfailed _ _)
    · exact fun hold => .inl (.inl hold)
  have hreservedIff : ∀ c t e, _ ↔ _ := fun c t e => hmem (.reserved c t e) nofun nofun
  have hopenedIff : ∀ c t, _ ↔ _ := fun c t => hmem (.opened c t) nofun nofun
  have hclosingIff : ∀ t, _ ↔ _ := fun t => hmem (.closing t) nofun nofun
  have hrefusedIff : ∀ c, _ ↔ _ := fun c => hmem (.refused c) nofun nofun
  have hcallsSub : ∀ c q, Function.update W.calls call none c = some q →
      c ≠ call ∧ W.calls c = some q := by
    intro c q hq
    by_cases hc : c = call
    · rw [hc, Function.update_self] at hq
      exact nomatch hq
    · rw [Function.update_of_ne hc] at hq
      exact ⟨hc, hq⟩
  constructor
  · have hreservedNow : .reserved call p.token p.expiresAt ∈ W.history ++ W.frees p.token :=
      List.mem_append_left _ hreserved
    have hrule : Rule (W.history ++ W.frees p.token) (.failed call p.token) := ⟨_, hreservedNow⟩
    exact (h.books.release hreserved (.inr hopened)).note rfl rfl hrule
  · exact Nat.le_trans (Dict.erase_sublist _ _).length_le h.bounded
  · intro c q hq
    obtain ⟨-, hq⟩ := hcallsSub c q hq
    obtain ⟨hr, ho, hc⟩ := h.pending c q hq
    exact ⟨(hreservedIff _ _ _).mpr hr, fun hm => ho ((hopenedIff _ _).mp hm),
      fun hm => hc ((hclosingIff _).mp hm)⟩
  · intro token l hl
    obtain ⟨htoken, ⟨c, hr, ho⟩, hclosed⟩ := h.lease token l hl
    exact ⟨htoken, ⟨c, (hreservedIff _ _ _).mpr hr, (hopenedIff _ _).mpr ho⟩,
      hclosed.trans (hclosingIff _).symm⟩
  · intro token l hl hclosed hm
    exact h.closed token l hl hclosed ((keys_erase h _ _).mp hm).2
  · intro token hm
    obtain ⟨hne, hold⟩ := (keys_erase h _ _).mp hm
    rcases h.owner token hold with ⟨c, q, hq, htoken⟩ | hlease
    · left
      have hc : c ≠ call := by
        intro hc
        rw [hc, hp] at hq
        obtain rfl := Option.some.inj hq
        exact hne htoken.symm
      exact ⟨c, q, (Function.update_of_ne hc _ _).trans hq, htoken⟩
    · exact .inr hlease
  · intro c token hfailed hm
    obtain ⟨hne, hold⟩ := (keys_erase h _ _).mp hm
    rcases List.mem_append.mp hfailed with hfailed | hnew
    · rcases List.mem_append.mp hfailed with hfailed | hnew
      · exact h.failed c token hfailed hold
      · exact nomatch (mem_frees hnew).1
    · exact hne (Event.failed.inj (List.mem_singleton.mp hnew)).2
  · intro c hrefused token e hr
    exact h.refused c ((hrefusedIff _).mp hrefused) token e ((hreservedIff _ _ _).mp hr)
  · intro c hc
    obtain ⟨hnone, hrefused, hr⟩ := h.calls c hc
    refine ⟨?_, fun hm => hrefused ((hrefusedIff _).mp hm),
      fun token e hm => hr token e ((hreservedIff _ _ _).mp hm)⟩
    by_cases heq : c = call
    · rw [heq]
      exact Function.update_self ..
    · exact (Function.update_of_ne heq _ _).trans hnone

omit [DateTimes] in
/-- A call that returns its lease. -/
theorem Safe.open {W : World} (h : Safe W) {call : Nat} {p : PendingLease}
    (hp : W.calls call = some p) {l : BoundedSecretLease} (htoken : l.token = p.token)
    (hexpires : l.expiresAt = p.expiresAt) (hclosed : l.closed = false) :
    Safe { W with
      calls := Function.update W.calls call none
      leases := Function.update W.leases p.token (some l)
      history := W.history ++ [Event.opened call p.token] } := by
  obtain ⟨hreserved, hopened, hclosing⟩ := h.pending call p hp
  have hmem : ∀ event, (∀ c token, event ≠ .opened c token) →
      (event ∈ W.history ++ [Event.opened call p.token] ↔ event ∈ W.history) := by
    intro event hne
    rw [List.mem_append, List.mem_singleton]
    exact or_iff_left (hne _ _)
  have hreservedIff : ∀ c t e, _ ↔ _ := fun c t e => hmem (.reserved c t e) nofun
  have hclosingIff : ∀ t, _ ↔ _ := fun t => hmem (.closing t) nofun
  have hrefusedIff : ∀ c, _ ↔ _ := fun c => hmem (.refused c) nofun
  have hfailedIff : ∀ c t, _ ↔ _ := fun c t => hmem (.failed c t) nofun
  have hleaseCases : ∀ token m, Function.update W.leases p.token (some l) token = some m →
      (token = p.token ∧ m = l) ∨ (token ≠ p.token ∧ W.leases token = some m) := by
    intro token m hm
    by_cases heq : token = p.token
    · rw [heq, Function.update_self] at hm
      exact .inl ⟨heq, (Option.some.inj hm).symm⟩
    · rw [Function.update_of_ne heq] at hm
      exact .inr ⟨heq, hm⟩
  constructor
  · have hrule : Rule W.history (.opened call p.token) := ⟨_, hreserved⟩
    exact h.books.note rfl rfl hrule
  · exact h.bounded
  · intro c q hq
    change Function.update W.calls call none c = some q at hq
    by_cases hc : c = call
    · rw [hc, Function.update_self] at hq
      exact nomatch hq
    · rw [Function.update_of_ne hc] at hq
      obtain ⟨hr, ho, hcl⟩ := h.pending c q hq
      refine ⟨(hreservedIff _ _ _).mpr hr, ?_, fun hm => hcl ((hclosingIff _).mp hm)⟩
      intro hm
      rcases List.mem_append.mp hm with hm | hm
      · exact ho hm
      · exact hc (Event.opened.inj (List.mem_singleton.mp hm)).1
  · intro token m hm
    rcases hleaseCases token m hm with ⟨rfl, rfl⟩ | ⟨-, hm⟩
    · refine ⟨htoken, ⟨call, ?_, List.mem_append_right _ (List.mem_singleton.mpr rfl)⟩, ?_⟩
      · rw [hexpires]
        exact List.mem_append_left _ hreserved
      · rw [hclosed]
        exact ⟨nofun, fun hm => absurd ((hclosingIff _).mp hm) hclosing⟩
    · obtain ⟨ht, ⟨c, hr, ho⟩, hcl⟩ := h.lease token m hm
      exact ⟨ht, ⟨c, (hreservedIff _ _ _).mpr hr, List.mem_append_left _ ho⟩,
        hcl.trans (hclosingIff _).symm⟩
  · intro token m hm hcl
    rcases hleaseCases token m hm with ⟨-, rfl⟩ | ⟨-, hm⟩
    · rw [hclosed] at hcl
      exact nomatch hcl
    · exact h.closed token m hm hcl
  · intro token hm
    by_cases heq : token = p.token
    · right
      rw [heq]
      exact ⟨l, Function.update_self .., hclosed⟩
    · rcases h.owner token hm with ⟨c, q, hq, ht⟩ | ⟨m, hl, hcl⟩
      · left
        have hc : c ≠ call := by
          intro hc
          rw [hc, hp] at hq
          obtain rfl := Option.some.inj hq
          exact heq ht.symm
        exact ⟨c, q, (Function.update_of_ne hc _ _).trans hq, ht⟩
      · exact .inr ⟨m, (Function.update_of_ne heq _ _).trans hl, hcl⟩
  · intro c token hfailed
    exact h.failed c token ((hfailedIff _ _).mp hfailed)
  · intro c hrefused token e hr
    exact h.refused c ((hrefusedIff _).mp hrefused) token e ((hreservedIff _ _ _).mp hr)
  · intro c hc
    obtain ⟨hnone, hrefused, hr⟩ := h.calls c hc
    refine ⟨?_, fun hm => hrefused ((hrefusedIff _).mp hm),
      fun token e hm => hr token e ((hreservedIff _ _ _).mp hm)⟩
    by_cases heq : c = call
    · rw [heq]
      exact Function.update_self ..
    · exact (Function.update_of_ne heq _ _).trans hnone

omit [DateTimes] in
/-- A first `close` of a lease. -/
theorem Safe.close {W : World} (h : Safe W) {token : Nat} {l : BoundedSecretLease}
    (hl : W.leases token = some l) (hopen : l.closed = false) :
    Safe { W with
      broker := { W.broker with records := Dict.erase token W.broker.records }
      leases := Function.update W.leases token (some { l with closed := true })
      history := W.history ++ Event.closing token :: W.frees token } := by
  obtain ⟨htoken, ⟨call, hreserved, hopened⟩, hclosed⟩ := h.lease token l hl
  have hnotClosing : .closing token ∉ W.history := by
    intro hm
    rw [hclosed.mpr hm] at hopen
    exact nomatch hopen
  have hmem : ∀ event, (∀ t, event ≠ .closing t) → (∀ t, event ≠ .freed t) →
      (event ∈ W.history ++ Event.closing token :: W.frees token ↔ event ∈ W.history) := by
    intro event hclosing hfreed
    rw [List.mem_append, List.mem_cons]
    constructor
    · intro hor
      rcases hor with hold | hnew | hnew
      · exact hold
      · exact absurd hnew (hclosing _)
      · exact absurd (mem_frees hnew).1 (hfreed _)
    · exact .inl
  have hreservedIff : ∀ c t e, _ ↔ _ := fun c t e => hmem (.reserved c t e) nofun nofun
  have hopenedIff : ∀ c t, _ ↔ _ := fun c t => hmem (.opened c t) nofun nofun
  have hrefusedIff : ∀ c, _ ↔ _ := fun c => hmem (.refused c) nofun nofun
  have hfailedIff : ∀ c t, _ ↔ _ := fun c t => hmem (.failed c t) nofun nofun
  have hclosingIff : ∀ t, .closing t ∈ W.history ++ Event.closing token :: W.frees token ↔
      .closing t ∈ W.history ∨ t = token := by
    intro t
    rw [List.mem_append, List.mem_cons, Event.closing.injEq]
    constructor
    · intro hor
      rcases hor with hold | hnew | hnew
      · exact .inl hold
      · exact .inr hnew
      · exact nomatch (mem_frees hnew).1
    · intro hor
      rcases hor with hold | hnew
      · exact .inl hold
      · exact .inr (.inl hnew)
  have hleaseCases : ∀ t m,
      Function.update W.leases token (some { l with closed := true }) t = some m →
      (t = token ∧ m = { l with closed := true }) ∨ (t ≠ token ∧ W.leases t = some m) := by
    intro t m hm
    by_cases heq : t = token
    · rw [heq, Function.update_self] at hm
      exact .inl ⟨heq, (Option.some.inj hm).symm⟩
    · rw [Function.update_of_ne heq] at hm
      exact .inr ⟨heq, hm⟩
  constructor
  · have hnote : Books W.broker.records W.broker.nextToken
        (W.history ++ [Event.closing token]) := by
      have hrule : Rule W.history (.closing token) := ⟨hnotClosing, call, hopened⟩
      exact h.books.note rfl rfl hrule
    rw [List.append_cons]
    apply hnote.release (List.mem_append_left _ hreserved)
    exact .inl (List.mem_append_right _ (List.mem_singleton.mpr rfl))
  · exact Nat.le_trans (Dict.erase_sublist _ _).length_le h.bounded
  · intro c q hq
    obtain ⟨hr, ho, hcl⟩ := h.pending c q hq
    refine ⟨(hreservedIff _ _ _).mpr hr, fun hm => ho ((hopenedIff _ _).mp hm), ?_⟩
    intro hm
    rcases (hclosingIff _).mp hm with hold | heq
    · exact hcl hold
    · rw [heq] at hr ho
      obtain ⟨rfl, -⟩ := h.books.origin _ _ _ _ _ hr hreserved
      exact ho hopened
  · intro t m hm
    rcases hleaseCases t m hm with ⟨rfl, rfl⟩ | ⟨hne, hm⟩
    · exact ⟨htoken, ⟨call, (hreservedIff _ _ _).mpr hreserved, (hopenedIff _ _).mpr hopened⟩,
        fun _ => (hclosingIff _).mpr (.inr rfl), fun _ => rfl⟩
    · obtain ⟨ht, ⟨c, hr, ho⟩, hcl⟩ := h.lease t m hm
      refine ⟨ht, ⟨c, (hreservedIff _ _ _).mpr hr, (hopenedIff _ _).mpr ho⟩, ?_⟩
      rw [hcl, hclosingIff]
      exact ⟨.inl, fun hor => hor.resolve_right hne⟩
  · intro t m hm hcl hkey
    obtain ⟨hne, hold⟩ := (keys_erase h _ _).mp hkey
    rcases hleaseCases t m hm with ⟨heq, -⟩ | ⟨-, hm⟩
    · exact hne heq
    · exact h.closed t m hm hcl hold
  · intro t hkey
    obtain ⟨hne, hold⟩ := (keys_erase h _ _).mp hkey
    rcases h.owner t hold with hcall | ⟨m, hm, hcl⟩
    · exact .inl hcall
    · exact .inr ⟨m, (Function.update_of_ne hne _ _).trans hm, hcl⟩
  · intro c t hfailed hkey
    exact h.failed c t ((hfailedIff _ _).mp hfailed) ((keys_erase h _ _).mp hkey).2
  · intro c hrefused t e hr
    exact h.refused c ((hrefusedIff _).mp hrefused) t e ((hreservedIff _ _ _).mp hr)
  · intro c hc
    obtain ⟨hnone, hrefused, hr⟩ := h.calls c hc
    exact ⟨hnone, fun hm => hrefused ((hrefusedIff _).mp hm),
      fun t e hm => hr t e ((hreservedIff _ _ _).mp hm)⟩

omit [DateTimes] in
/-- A read that returns the value. -/
theorem Safe.reveal {W : World} (h : Safe W) {token : Nat} {l : BoundedSecretLease}
    (hl : W.leases token = some l) (hopen : l.closed = false) {now : Int}
    (hnow : now < l.expiresAt) :
    Safe { W with history := W.history ++ [Event.revealed token now] } := by
  obtain ⟨-, ⟨call, hreserved, hopened⟩, hclosed⟩ := h.lease token l hl
  have hnotClosing : .closing token ∉ W.history := by
    intro hm
    rw [hclosed.mpr hm] at hopen
    exact nomatch hopen
  have hmem : ∀ event, (∀ t n, event ≠ .revealed t n) →
      (event ∈ W.history ++ [Event.revealed token now] ↔ event ∈ W.history) := by
    intro event hne
    rw [List.mem_append, List.mem_singleton]
    exact or_iff_left (hne _ _)
  have hreservedIff : ∀ c t e, _ ↔ _ := fun c t e => hmem (.reserved c t e) nofun
  have hopenedIff : ∀ c t, _ ↔ _ := fun c t => hmem (.opened c t) nofun
  have hclosingIff : ∀ t, _ ↔ _ := fun t => hmem (.closing t) nofun
  have hrefusedIff : ∀ c, _ ↔ _ := fun c => hmem (.refused c) nofun
  have hfailedIff : ∀ c t, _ ↔ _ := fun c t => hmem (.failed c t) nofun
  constructor
  · have hrule : Rule W.history (.revealed token now) :=
      ⟨hnotClosing, call, _, hreserved, hopened, hnow⟩
    exact h.books.note rfl rfl hrule
  · exact h.bounded
  · intro c q hq
    obtain ⟨hr, ho, hcl⟩ := h.pending c q hq
    exact ⟨(hreservedIff _ _ _).mpr hr, fun hm => ho ((hopenedIff _ _).mp hm),
      fun hm => hcl ((hclosingIff _).mp hm)⟩
  · intro t m hm
    obtain ⟨ht, ⟨c, hr, ho⟩, hcl⟩ := h.lease t m hm
    exact ⟨ht, ⟨c, (hreservedIff _ _ _).mpr hr, (hopenedIff _ _).mpr ho⟩,
      hcl.trans (hclosingIff _).symm⟩
  · exact h.closed
  · exact h.owner
  · intro c t hfailed
    exact h.failed c t ((hfailedIff _ _).mp hfailed)
  · intro c hrefused t e hr
    exact h.refused c ((hrefusedIff _).mp hrefused) t e ((hreservedIff _ _ _).mp hr)
  · intro c hc
    obtain ⟨hnone, hrefused, hr⟩ := h.calls c hc
    exact ⟨hnone, fun hm => hrefused ((hrefusedIff _).mp hm),
      fun t e hm => hr t e ((hreservedIff _ _ _).mp hm)⟩

/-! ## Section 4: Every step -/

/-- What `lease` does before its suspension. -/
theorem reserve_cases (request : SecretAccessRequest) (reading : ClockReading)
    (broker : BoundedSecretBroker) :
    (∃ e, BoundedSecretBroker.now reading = .error e ∧
      BoundedSecretBroker.reserve request reading broker = (.error e, broker)) ∨
    ∃ now, BoundedSecretBroker.now reading = .ok now ∧
      ((∃ e, BoundedSecretBroker.reserve request reading broker = (.error e, { broker with
          records := BoundedSecretBroker.purgeExpired now broker.records })) ∨
        ∃ expiresAt, (BoundedSecretBroker.purgeExpired now broker.records).length <
            broker.limits.maxActiveLeases ∧
          BoundedSecretBroker.reserve request reading broker =
            (.ok (broker.nextToken, expiresAt), { broker with
              nextToken := broker.nextToken + 1
              records := Dict.set broker.nextToken expiresAt
                (BoundedSecretBroker.purgeExpired now broker.records) })) := by
  cases hnow : BoundedSecretBroker.now reading with
  | error e =>
    left
    refine ⟨e, rfl, ?_⟩
    unfold BoundedSecretBroker.reserve
    rw [hnow]
    rfl
  | ok now =>
    right
    refine ⟨now, rfl, ?_⟩
    unfold BoundedSecretBroker.reserve
    rw [hnow, Call.lift_bind_of_ok rfl]
    by_cases hfull : (BoundedSecretBroker.purgeExpired now broker.records).length ≥
        broker.limits.maxActiveLeases
    · left
      refine ⟨.of .secretLeaseLimitExceeded
        (py "accepting the secret lease would exceed the configured active-lease limit"), ?_⟩
      show (if (BoundedSecretBroker.purgeExpired now broker.records).length ≥
          broker.limits.maxActiveLeases then _ else _ : Call _ _ _) _ = _
      rw [if_pos hfull]
      rfl
    · cases hadd : DateTimes.addSeconds now
          (min request.maxLeaseSeconds broker.limits.maxLeaseSeconds) with
      | none =>
        left
        refine ⟨.of .secretSourceUnavailable
          (py "secret lease expiration exceeds the supported datetime range"), ?_⟩
        show (if (BoundedSecretBroker.purgeExpired now broker.records).length ≥
            broker.limits.maxActiveLeases then _ else _ : Call _ _ _) _ = _
        rw [if_neg hfull]
        dsimp only
        rw [hadd]
        rfl
      | some expiresAt =>
        right
        refine ⟨expiresAt, Nat.lt_of_not_le hfull, ?_⟩
        show (if (BoundedSecretBroker.purgeExpired now broker.records).length ≥
            broker.limits.maxActiveLeases then _ else _ : Call _ _ _) _ = _
        rw [if_neg hfull]
        dsimp only
        rw [hadd]
        rfl

omit [DateTimes] in
/-- What `lease` does behind its suspension: it raises and releases its record,
    or returns an open lease. -/
theorem settle_cases (request : SecretAccessRequest) (token : Nat) (expiresAt : Int)
    (resolution : SourceResolution) (broker : BoundedSecretBroker) :
    (∃ e, BoundedSecretBroker.settle request token expiresAt resolution broker =
      (.error e, { broker with records := Dict.erase token broker.records })) ∨
    ∃ value, BoundedSecretBroker.settle request token expiresAt resolution broker =
      (.ok ⟨value, expiresAt, token, false⟩, broker) := by
  cases hchecked : BoundedSecretBroker.checkedLease broker.limits request token expiresAt
      resolution with
  | error e =>
    left
    refine ⟨e, ?_⟩
    show tryCatch (liftM _ : Call BoundedSecretBroker Raised BoundedSecretLease) _ broker = _
    rw [hchecked]
    rfl
  | ok lease =>
    right
    have hlease : ∃ value, lease = ⟨value, expiresAt, token, false⟩ := by
      unfold BoundedSecretBroker.checkedLease at hchecked
      rw [Except.bind_eq_ok_iff] at hchecked
      obtain ⟨⟨value, failure⟩, -, hchecked⟩ := hchecked
      cases failure with
      | some e => exact nomatch hchecked
      | none =>
        cases value with
        | none => exact nomatch hchecked
        | some value =>
          dsimp only at hchecked
          cases hencode : encodeUtf8 value with
          | none =>
            rw [hencode] at hchecked
            exact nomatch hchecked
          | some bytes =>
            rw [hencode] at hchecked
            dsimp only at hchecked
            by_cases hbounds : bytes = [] ∨ bytes.length > broker.limits.maxValueBytes
            · rw [if_pos hbounds] at hchecked
              exact nomatch hchecked
            · rw [if_neg hbounds] at hchecked
              exact ⟨value, (Except.ok.inj hchecked).symm⟩
    obtain ⟨value, rfl⟩ := hlease
    refine ⟨value, ?_⟩
    show tryCatch (liftM _ : Call BoundedSecretBroker Raised BoundedSecretLease) _ broker = _
    rw [hchecked]
    rfl

omit [DateTimes] in
/-- A value is only returned by an open lease before its expiry. -/
theorem readValue_eq_ok {l : BoundedSecretLease} {reading : ClockReading} {value : Text}
    (h : l.readValue reading = .ok value) :
    l.closed = false ∧ ∃ now, BoundedSecretBroker.now reading = .ok now ∧ now < l.expiresAt := by
  unfold BoundedSecretLease.readValue at h
  by_cases hclosed : l.closed = true
  · rw [if_pos hclosed] at h
    exact nomatch h
  · rw [if_neg hclosed, Except.bind_eq_ok_iff] at h
    obtain ⟨now, hnow, h⟩ := h
    refine ⟨Bool.not_eq_true _ ▸ hclosed, now, hnow, ?_⟩
    by_contra hexpired
    rw [if_pos (le_of_not_gt hexpired)] at h
    exact nomatch h

/-- Every step keeps the invariant. -/
theorem Safe.after {W : World} (h : Safe W) (action : Action) : Safe (W.after action) := by
  cases action with
  | lease request reading =>
    show Safe (W.lease request reading)
    unfold World.lease World.purges
    rcases reserve_cases request reading W.broker with ⟨e, hnow, hreserve⟩ | ⟨now, hnow, hreserve⟩
    · rw [hreserve, hnow, List.append_nil]
      exact h.refuse
    · rw [hnow]
      rcases hreserve with ⟨e, hreserve⟩ | ⟨expiresAt, hroom, hreserve⟩
      · rw [hreserve]
        exact (h.purge now).refuse
      · rw [hreserve]
        exact (h.purge now).reserve request expiresAt hroom
  | resolve call resolution =>
    cases hcall : W.calls call with
    | none =>
      simp only [World.after, hcall]
      exact h
    | some p =>
      simp only [World.after, hcall, World.resolve]
      rcases settle_cases p.request p.token p.expiresAt resolution W.broker with
        ⟨e, hsettle⟩ | ⟨value, hsettle⟩
      · rw [hsettle]
        exact h.fail hcall
      · rw [hsettle]
        exact h.open hcall rfl rfl rfl
  | read token reading =>
    cases hl : W.leases token with
    | none =>
      simp only [World.after, hl]
      exact h
    | some l =>
      simp only [World.after, hl, World.read]
      cases hread : l.readValue reading with
      | error e => exact h
      | ok value =>
        obtain ⟨hopen, now, hnow, hlt⟩ := readValue_eq_ok hread
        rw [hnow]
        exact h.reveal hl hopen hlt
  | close token =>
    cases hl : W.leases token with
    | none =>
      simp only [World.after, hl]
      exact h
    | some l =>
      obtain ⟨htoken, -, -⟩ := h.lease token l hl
      simp only [World.after, hl, World.close, BoundedSecretLease.close]
      cases hclosed : l.closed with
      | true =>
        -- A second `close` changes nothing.
        show Safe { W with
          leases := Function.update W.leases token (some l)
          history := W.history ++ [] }
        rw [List.append_nil, Function.update_eq_self_iff.mpr hl.symm]
        exact h
      | false =>
        show Safe { W with
          broker := { W.broker with records := Dict.erase l.token W.broker.records }
          leases := Function.update W.leases token (some { l with closed := true })
          history := W.history ++ Event.closing token :: W.frees token }
        subst htoken
        exact h.close hl hclosed

/-- A step keeps the limits. -/
theorem limits_after (W : World) (action : Action) :
    (W.after action).broker.limits = W.broker.limits := by
  cases action with
  | lease request reading =>
    simp only [World.after, World.lease]
    rcases reserve_cases request reading W.broker with
      ⟨e, -, hreserve⟩ | ⟨now, -, ⟨e, hreserve⟩ | ⟨expiresAt, -, hreserve⟩⟩ <;> rw [hreserve]
  | resolve call resolution =>
    cases hcall : W.calls call with
    | none => simp only [World.after, hcall]
    | some p =>
      simp only [World.after, hcall, World.resolve]
      rcases settle_cases p.request p.token p.expiresAt resolution W.broker with
        ⟨e, hsettle⟩ | ⟨value, hsettle⟩ <;> rw [hsettle]
  | read token reading =>
    cases hl : W.leases token with
    | none => simp only [World.after, hl]
    | some l =>
      simp only [World.after, hl, World.read]
      split <;> rfl
  | close token =>
    cases hl : W.leases token with
    | none => simp only [World.after, hl]
    | some l =>
      simp only [World.after, hl, World.close, BoundedSecretLease.close]
      cases l.closed <;> rfl

/-- The end of a call and a `close` leave every other record alone. -/
theorem release_frame {W : World} (h : Safe W) {key : Nat} :
    (∀ token, key ≠ token → Dict.get? key (W.after (.close token)).broker.records =
      Dict.get? key W.broker.records) ∧
    ∀ call p resolution, W.calls call = some p → key ≠ p.token →
      Dict.get? key (W.after (.resolve call resolution)).broker.records =
        Dict.get? key W.broker.records := by
  constructor
  · intro token hkey
    cases hl : W.leases token with
    | none => simp only [World.after, hl]
    | some l =>
      obtain ⟨htoken, -, -⟩ := h.lease token l hl
      simp only [World.after, hl, World.close, BoundedSecretLease.close]
      cases l.closed with
      | true => rfl
      | false =>
        show Dict.get? key (Dict.erase l.token W.broker.records) = _
        rw [htoken, Dict.get?_erase h.books.unique, if_neg hkey]
  · intro call p resolution hcall hkey
    simp only [World.after, hcall, World.resolve]
    rcases settle_cases p.request p.token p.expiresAt resolution W.broker with
      ⟨e, hsettle⟩ | ⟨value, hsettle⟩
    · rw [hsettle]
      show Dict.get? key (Dict.erase p.token W.broker.records) = _
      rw [Dict.get?_erase h.books.unique, if_neg hkey]
    · rw [hsettle]

/-! ## Section 5: Every run -/

theorem safe_of_reachable {limits : SecretBrokerLimits} {W : World}
    (h : (system limits).Reachable W) : Safe W ∧ W.broker.limits = limits := by
  refine h.invariant (I := fun W => Safe W ∧ W.broker.limits = limits) ?_ ?_
  · intro W hW
    rw [show W = .new limits from hW]
    exact ⟨safe_new limits, rfl⟩
  · intro W action W' _ hW hstep
    rw [show W' = W.after action from hstep]
    exact ⟨hW.1.after action, (limits_after W action).trans hW.2⟩

omit [DateTimes] in
/-- A record is dropped at most once. -/
theorem removes_nodup {history : List Event} (h : Justified Rule history) :
    (history.filterMap Event.removes).Nodup := by
  induction history using List.reverseRecOn with
  | nil => exact List.nodup_nil
  | append_singleton history event ih =>
    obtain ⟨hhistory, hrule⟩ := justified_concat.mp h
    have hold := ih hhistory
    rw [List.filterMap_append]
    cases hremoves : event.removes with
    | none =>
      rw [List.filterMap_cons_none hremoves, List.filterMap_nil, List.append_nil]
      exact hold
    | some token =>
      rw [List.filterMap_cons_some hremoves, List.filterMap_nil]
      have hnot : ¬ Removed history token := by
        cases event with
        | purged t now =>
          cases hremoves
          exact hrule.1
        | freed t =>
          cases hremoves
          exact hrule.1
        | _ => exact nomatch hremoves
      refine List.nodup_append.mpr ⟨hold, List.nodup_singleton _, ?_⟩
      intro other hother same hsame heq
      rw [List.mem_singleton.mp hsame] at heq
      obtain ⟨e, he, hre⟩ := List.mem_filterMap.mp hother
      exact hnot ⟨e, he, heq ▸ hre⟩

/-- The capacity of the broker, and the safety of its leases. -/
structure LeasesSafe (limits : SecretBrokerLimits) (W : World) : Prop where
  /-- There are never more records than the limit. -/
  bounded : W.broker.records.length ≤ limits.maxActiveLeases
  /-- Each belongs to a suspended call or to an open lease, -/
  owned : ∀ token ∈ Dict.keys W.broker.records,
    (∃ call p, W.calls call = some p ∧ p.token = token) ∨
      ∃ l, W.leases token = some l ∧ l.closed = false
  /-- which share no token. -/
  exclusive : ∀ call p, W.calls call = some p → W.leases p.token = none ∧
    ∀ call' p', W.calls call' = some p' → p'.token = p.token → call' = call
  /-- A `close` drops no other record, -/
  closeFrame : ∀ key token, key ≠ token →
    Dict.get? key (W.after (.close token)).broker.records = Dict.get? key W.broker.records
  /-- nor does the end of a call, -/
  resolveFrame : ∀ key call p resolution, W.calls call = some p → key ≠ p.token →
    Dict.get? key (W.after (.resolve call resolution)).broker.records =
      Dict.get? key W.broker.records
  /-- and none is dropped twice. -/
  droppedOnce : (W.history.filterMap Event.removes).Nodup
  /-- A call that raised has no record, -/
  failed : ∀ call token, .failed call token ∈ W.history → token ∉ Dict.keys W.broker.records
  /-- or never had one. -/
  refused : ∀ call, .refused call ∈ W.history →
    ∀ token expiresAt, .reserved call token expiresAt ∉ W.history
  /-- A value was returned before the `close` of its lease and before its expiry. -/
  revealed : ∀ before after token now, W.history = before ++ .revealed token now :: after →
    .closing token ∉ before ∧
    ∃ call expiresAt, .reserved call token expiresAt ∈ before ∧ .opened call token ∈ before ∧
      now < expiresAt

/-- The broker is safe whatever the calls, the leases and the clock do, and in
    whatever order. -/
theorem leases_safe {limits : SecretBrokerLimits} {W : World} (h : (system limits).Reachable W) :
    LeasesSafe limits W := by
  obtain ⟨hsafe, rfl⟩ := safe_of_reachable h
  refine ⟨hsafe.bounded, hsafe.owner, ?_, fun key token hkey => (release_frame hsafe).1 token hkey,
    fun key call p resolution hcall hkey => (release_frame hsafe).2 call p resolution hcall hkey,
    removes_nodup hsafe.books.justified, hsafe.failed, hsafe.refused, ?_⟩
  · intro call p hp
    obtain ⟨hreserved, hopened, -⟩ := hsafe.pending call p hp
    constructor
    · cases hl : W.leases p.token with
      | none => rfl
      | some l =>
        obtain ⟨-, ⟨c, hr, ho⟩, -⟩ := hsafe.lease p.token l hl
        obtain ⟨rfl, -⟩ := hsafe.books.origin _ _ _ _ _ hreserved hr
        exact absurd ho hopened
    · intro call' p' hp' htoken
      obtain ⟨hreserved', -, -⟩ := hsafe.pending call' p' hp'
      rw [htoken] at hreserved'
      exact (hsafe.books.origin _ _ _ _ _ hreserved hreserved').1
  · intro before after token now heq
    exact hsafe.books.justified before _ after heq

end SecretRaces

/-! ## Section 6: A run -/

namespace SecretRaces.OneLease

/-- Seconds as whole microseconds. -/
scoped instance dateTimes : DateTimes where
  addSeconds instant seconds := some (instant + (seconds * 1000000).floor)

theorem minute_pos : (0 : ℚ) < 60 := by norm_num

/-- One lease at a time, of at most a minute. -/
def limits : SecretBrokerLimits := ⟨1, 60, 1024, Nat.one_pos, minute_pos, Nat.succ_pos 1023⟩

def request : SecretAccessRequest := ⟨py "token", 60, minute_pos⟩

/-- The world in which a lease was opened and its value read. -/
def world : World :=
  (((World.new limits).after (.lease request (.utc 0))).after
    (.resolve 0 (.value (py "x")))).after (.read 1 (.utc 1))

theorem leases_safe_world : LeasesSafe limits world :=
  leases_safe (.step (.step (.step (.init rfl) rfl) rfl) rfl)

end SecretRaces.OneLease
