import MemSandbox.Lib.System
import MemSandbox.Snapshots.Store

/-! # Runs of the snapshot store

    Any sequence of `save`, `load`, `delete`, `purge_expired` and `stats`, with
    any reading of the clock for each of them.

    `store_safe`: the payload counter is the sum of the stored payload lengths,
    both limits hold and identifiers are unique; a failed `save` at most drops
    expired snapshots; and `load` returns a snapshot exactly when it was saved
    under that reference, nothing has removed it since, and it has not expired. -/

open Python

namespace InMemorySnapshotStore

variable {S : InMemorySnapshotStore}

/-! ## Section 1: The invariant of the store -/

/-- The sum of the stored payload lengths. -/
def payloadTotal (snapshots : List (SnapshotRef × StoredSnapshot)) : Nat :=
  (snapshots.map fun entry => entry.2.payload.length).sum

/-- The invariant of the store. -/
structure Coherent (S : InMemorySnapshotStore) : Prop where
  unique : Dict.UniqueKeys S.snapshots
  named : ∀ entry ∈ S.snapshots, entry.1.snapshotId = entry.2.snapshotId
  counted : S.payloadBytes = payloadTotal S.snapshots
  count_le : S.snapshots.length ≤ S.limits.maxSnapshots
  total_le : S.payloadBytes ≤ S.limits.maxTotalPayloadBytes

theorem coherent_new {ttl : Int} {limits : SnapshotStoreLimits} {h : 0 < ttl} :
    Coherent (new ttl limits h) where
  unique := Dict.uniqueKeys_nil
  named := List.forall_mem_nil _
  counted := rfl
  count_le := Nat.zero_le _
  total_le := Int.natCast_nonneg _

@[simp] theorem limits_remove (ref : SnapshotRef) : (S.remove ref).limits = S.limits := by
  unfold remove
  split <;> rfl

@[simp] theorem defaultTtl_remove (ref : SnapshotRef) :
    (S.remove ref).defaultTtl = S.defaultTtl := by
  unfold remove
  split <;> rfl

theorem snapshots_remove (ref : SnapshotRef) :
    (S.remove ref).snapshots = Dict.erase ref S.snapshots := by
  unfold remove
  split
  · rfl
  · next h => exact (Dict.erase_of_not_mem (Dict.get?_eq_none_iff.mp h)).symm

theorem Coherent.mem_remove (h : Coherent S) {ref : SnapshotRef}
    {entry : SnapshotRef × StoredSnapshot} :
    entry ∈ (S.remove ref).snapshots ↔ entry ∈ S.snapshots ∧ entry.1 ≠ ref := by
  rw [snapshots_remove, Dict.mem_erase_iff h.unique]

/-- The counter falls by what the dictionary loses. -/
theorem Coherent.remove (h : Coherent S) (ref : SnapshotRef) : Coherent (S.remove ref) := by
  have hsub : (S.remove ref).snapshots.Sublist S.snapshots := by
    rw [snapshots_remove]
    exact Dict.erase_sublist ref S.snapshots
  have hcounted : (S.remove ref).payloadBytes = payloadTotal (S.remove ref).snapshots := by
    rw [snapshots_remove]
    unfold InMemorySnapshotStore.remove
    split
    · next snapshot hget =>
      have hperm := (Dict.erase_perm hget).map fun entry => entry.2.payload.length
      have htotal : payloadTotal S.snapshots =
          snapshot.payload.length + payloadTotal (Dict.erase ref S.snapshots) := hperm.sum_eq
      show S.payloadBytes - _ = _
      rw [h.counted, htotal]
      omega
    · next hget =>
      rw [Dict.erase_of_not_mem (Dict.get?_eq_none_iff.mp hget)]
      exact h.counted
  have htotal : payloadTotal (S.remove ref).snapshots ≤ payloadTotal S.snapshots :=
    
    (hsub.map fun entry : SnapshotRef × StoredSnapshot => entry.2.payload.length).sum_le_sum
      fun _ _ => Nat.zero_le _
  exact {
    unique := h.unique.sublist (hsub.map Prod.fst)
    named := fun entry hentry => h.named entry (hsub.subset hentry)
    counted := hcounted
    count_le := by
      rw [limits_remove]
      exact hsub.length_le.trans h.count_le
    total_le := by
      have hle := h.total_le
      rw [h.counted] at hle
      rw [limits_remove, hcounted]
      omega }

/-- Removing several references, as `_purge_expired_locked` does. -/
theorem Coherent.removeAll (removed : List (SnapshotRef × StoredSnapshot)) (h : Coherent S) :
    let S' := removed.foldl (fun S entry => S.remove entry.1) S
    Coherent S' ∧ S'.limits = S.limits ∧ S'.defaultTtl = S.defaultTtl ∧
      S'.snapshots.Sublist S.snapshots ∧
      ∀ entry, entry ∈ S'.snapshots ↔ entry ∈ S.snapshots ∧ entry.1 ∉ removed.map Prod.fst := by
  induction removed generalizing S with
  | nil => exact ⟨h, rfl, rfl, List.Sublist.refl _, by simp⟩
  | cons first rest ih =>
    obtain ⟨hcoherent, hlimits, httl, hsub, hmem⟩ := ih (h.remove first.1)
    refine ⟨hcoherent, hlimits.trans (limits_remove _), httl.trans (defaultTtl_remove _), ?_, ?_⟩
    · refine hsub.trans ?_
      rw [snapshots_remove]
      exact Dict.erase_sublist first.1 S.snapshots
    · intro entry
      rw [List.foldl_cons, hmem entry, h.mem_remove, List.map_cons, List.mem_cons, not_or, and_assoc]

/-- What purging the expired snapshots leaves. -/
structure Purged (now : Int) (S S' : InMemorySnapshotStore) : Prop where
  coherent : Coherent S'
  limits : S'.limits = S.limits
  defaultTtl : S'.defaultTtl = S.defaultTtl
  sublist : S'.snapshots.Sublist S.snapshots
  mem_iff : ∀ entry, entry ∈ S'.snapshots ↔ entry ∈ S.snapshots ∧ now < entry.2.expiresAt

theorem Coherent.purge (h : Coherent S) (now : Int) : Purged now S (S.purge now) := by
  obtain ⟨hcoherent, hlimits, httl, hsub, hmem⟩ := h.removeAll (S.expired now)
  refine ⟨hcoherent, hlimits, httl, hsub, ?_⟩
  intro entry
  unfold InMemorySnapshotStore.purge
  rw [hmem entry]
  refine and_congr_right ?_
  intro hentry
  constructor
  · -- an entry that stays is not among the expired ones
    intro hnot
    by_contra hle
    exact hnot (List.mem_map_of_mem (List.mem_filter.mpr ⟨hentry, by simpa using hle⟩))
  · -- an expired entry under the same reference would be the entry itself
    intro hlt hin
    obtain ⟨other, hother, hkey⟩ := List.mem_map.mp hin
    obtain ⟨hmemOther, hexpired⟩ := List.mem_filter.mp hother
    have hsame : other = entry := List.inj_on_of_nodup_map h.unique hmemOther hentry hkey
    rw [hsame, decide_eq_true_iff] at hexpired
    omega

/-- What an accepted draft is stored as. -/
theorem accept_eq_ok {draft : SandboxSnapshotDraft} {now : Int} {S' : InMemorySnapshotStore}
    (h : S.accept draft now = .ok S') :
    ⟨draft.snapshotId⟩ ∉ Dict.keys S.snapshots ∧
      S.snapshots.length + 1 ≤ S.limits.maxSnapshots ∧
      S.payloadBytes + draft.payload.length ≤ S.limits.maxTotalPayloadBytes ∧
      now + S.defaultTtl ≤ datetimeMax ∧
      S' = { S with
        snapshots := S.snapshots ++ [(⟨draft.snapshotId⟩, draft.stored (now + S.defaultTtl))]
        payloadBytes := S.payloadBytes + draft.payload.length } := by
  unfold accept at h
  dsimp only at h
  split at h
  · cases h
  next hnew =>
  split at h
  · cases h
  next hfits =>
  rw [not_or, not_lt, not_lt] at hfits
  unfold addTimedelta at h
  split_ifs at h with hmax
  cases h
  refine ⟨hnew, hfits.1, hfits.2, hmax, ?_⟩
  rw [Dict.set_of_not_mem hnew]

theorem Coherent.accept (h : Coherent S) {draft : SandboxSnapshotDraft} {now : Int}
    {S' : InMemorySnapshotStore} (haccept : S.accept draft now = .ok S') : Coherent S' := by
  obtain ⟨hnew, hcount, htotal, _, rfl⟩ := accept_eq_ok haccept
  have hkeys : Dict.keys (S.snapshots ++ [((⟨draft.snapshotId⟩ : SnapshotRef),
      draft.stored (now + S.defaultTtl))]) = Dict.keys S.snapshots ++ [⟨draft.snapshotId⟩] := by
    simp [Dict.keys]
  refine ⟨?_, ?_, ?_, ?_, htotal⟩
  · unfold Dict.UniqueKeys
    rw [hkeys]
    exact List.nodup_append.mpr ⟨h.unique, List.nodup_singleton _, by
      intro a ha b hb hab
      rw [List.mem_singleton] at hb
      exact hnew (hb ▸ hab ▸ ha)⟩
  · intro entry hentry
    rcases List.mem_append.mp hentry with hentry | hentry
    · exact h.named entry hentry
    · obtain rfl := List.mem_singleton.mp hentry
      rfl
  · show S.payloadBytes + _ = _
    rw [h.counted]
    simp [payloadTotal, SandboxSnapshotDraft.stored]
  · show (S.snapshots ++ _).length ≤ _
    rw [List.length_append]
    exact hcount

/-! ## Section 2: Runs -/

/-- An operation, with what the clock says when it looks. -/
inductive Request where
  | save (draft : SandboxSnapshotDraft) (reading : ClockReading)
  | load (ref : SnapshotRef) (reading : ClockReading)
  | delete (ref : SnapshotRef)
  | purgeExpired (reading : ClockReading)
  | stats (reading : ClockReading)

/-- What an operation returns. -/
inductive Response where
  | saved (ref : SnapshotRef)
  | loaded (snapshot : StoredSnapshot)
  | deleted
  | purged (result : SnapshotPurgeResult)
  | counted (result : SnapshotStoreStats)

/-- The operation that a request asks for. -/
def Request.perform : Request → Call InMemorySnapshotStore Raised Response
  | .save draft reading => fun S => ((S.save draft reading).1.map .saved, (S.save draft reading).2)
  | .load ref reading => fun S => ((S.load ref reading).1.map .loaded, (S.load ref reading).2)
  | .delete ref => fun S => ((S.delete ref).1.map fun _ => .deleted, (S.delete ref).2)
  | .purgeExpired reading => fun S =>
    ((S.purgeExpired reading).1.map .purged, (S.purgeExpired reading).2)
  | .stats reading => fun S => ((S.stats reading).1.map .counted, (S.stats reading).2)

/-- A request and what came of it. -/
structure Entry where
  request : Request
  outcome : Except Raised Response

/-- The store and the requests made of it. -/
structure World where
  store : InMemorySnapshotStore
  history : List Entry

/-- The world after a request. -/
def World.after (W : World) (request : Request) : World where
  store := (request.perform W.store).2
  history := W.history ++ [⟨request, (request.perform W.store).1⟩]

/-- Any requests to a new store. -/
def system (ttl : Int) (limits : SnapshotStoreLimits) (ttl_pos : 0 < ttl) :
    System World Request where
  init W := W = ⟨new ttl limits ttl_pos, []⟩
  step W request W' := W' = W.after request

/-! ## Section 3: What is kept -/

/-- The clock was read, at an instant that the expiry does not exceed. -/
def Passed (reading : ClockReading) (expiresAt : Int) : Prop :=
  ∃ now, reading = .utc now ∧ expiresAt ≤ now

/-- The request drops a snapshot with this reference and expiry, if it is there. -/
def Request.Removes (ref : SnapshotRef) (expiresAt : Int) : Request → Prop
  | .save _ reading | .purgeExpired reading | .stats reading => Passed reading expiresAt
  | .load ref' reading => ref' = ref ∧ Passed reading expiresAt
  | .delete ref' => ref' = ref

/-- The entry is a `save` that succeeded, and stored this snapshot. -/
def Entry.Saves (ttl : Int) (ref : SnapshotRef) (snapshot : StoredSnapshot) (entry : Entry) : Prop :=
  ∃ draft now, entry = ⟨.save draft (.utc now), .ok (.saved ref)⟩ ∧
    ref = ⟨draft.snapshotId⟩ ∧ snapshot = draft.stored (now + ttl)

/-- The snapshot was saved under the reference, and nothing has dropped it since. -/
def Kept (ttl : Int) (history : List Entry) (ref : SnapshotRef) (snapshot : StoredSnapshot) : Prop :=
  ∃ before entry after, history = before ++ entry :: after ∧ entry.Saves ttl ref snapshot ∧
    ∀ later ∈ after, ¬ later.request.Removes ref snapshot.expiresAt

theorem kept_nil {ttl : Int} {ref : SnapshotRef} {snapshot : StoredSnapshot} :
    ¬ Kept ttl [] ref snapshot := by
  rintro ⟨before, entry, after, h, -⟩
  simp at h

theorem kept_concat {ttl : Int} {history : List Entry} {last : Entry} {ref : SnapshotRef}
    {snapshot : StoredSnapshot} :
    Kept ttl (history ++ [last]) ref snapshot ↔
      (Kept ttl history ref snapshot ∧ ¬ last.request.Removes ref snapshot.expiresAt) ∨
        last.Saves ttl ref snapshot := by
  constructor
  · rintro ⟨before, entry, after, h, hsaves, hafter⟩
    rcases List.eq_nil_or_concat after with rfl | ⟨init, final, rfl⟩
    · obtain ⟨-, hlast⟩ := List.append_inj' h rfl
      obtain rfl := List.head_eq_of_cons_eq hlast
      exact .inr hsaves
    · have hsplit : history ++ [last] = (before ++ entry :: init) ++ [final] := by
        rw [h]
        simp
      obtain ⟨rfl, hfinal⟩ := List.append_inj' hsplit rfl
      obtain rfl := List.head_eq_of_cons_eq hfinal
      refine .inl ⟨⟨before, entry, init, rfl, hsaves, ?_⟩, hafter _ (by simp)⟩
      intro later hlater
      exact hafter later (by simp [hlater])
  · rintro (⟨⟨before, entry, after, rfl, hsaves, hafter⟩, hlast⟩ | hsaves)
    · refine ⟨before, entry, after ++ [last], by simp, hsaves, ?_⟩
      intro later hlater
      rcases List.mem_append.mp hlater with hlater | hlater
      · exact hafter later hlater
      · rwa [List.mem_singleton.mp hlater]
    · exact ⟨history, last, [], rfl, hsaves, List.forall_mem_nil _⟩

/-! ## Section 4: Steps -/

/-- What a request does to a coherent store. -/
structure Step (S : InMemorySnapshotStore) (request : Request) (outcome : Except Raised Response)
    (S' : InMemorySnapshotStore) : Prop where
  coherent : Coherent S'
  limits : S'.limits = S.limits
  defaultTtl : S'.defaultTtl = S.defaultTtl
  mem_iff : ∀ ref snapshot, (ref, snapshot) ∈ S'.snapshots ↔
    ((ref, snapshot) ∈ S.snapshots ∧ ¬ request.Removes ref snapshot.expiresAt) ∨
      Entry.Saves S.defaultTtl ref snapshot ⟨request, outcome⟩

/-- A reading that raises is the end of the request. -/
theorem now_cases (errorType : ErrorClass) (reading : ClockReading) :
    (∃ instant, reading = .utc instant ∧ now errorType reading = .ok instant) ∨
      ((∀ expiresAt, ¬ Passed reading expiresAt) ∧ ∃ e, now errorType reading = .error e) := by
  have hnot : (∀ instant, reading ≠ .utc instant) → ∀ expiresAt, ¬ Passed reading expiresAt := by
    rintro hne expiresAt ⟨instant, heq, -⟩
    exact hne instant heq
  cases reading with
  | utc instant => exact .inl ⟨instant, rfl, rfl⟩
  | raised e => exact .inr ⟨hnot (by simp), e, rfl⟩
  | offsetRaised e => exact .inr ⟨hnot (by simp), e, rfl⟩
  | notDatetime => exact .inr ⟨hnot (by simp), _, rfl⟩
  | naive => exact .inr ⟨hnot (by simp), _, rfl⟩
  | offset => exact .inr ⟨hnot (by simp), _, rfl⟩

theorem passed_utc {now expiresAt : Int} : Passed (.utc now) expiresAt ↔ expiresAt ≤ now := by
  simp [Passed]

/-- Only a `save` that succeeds saves. -/
theorem not_saves_error {ttl : Int} {ref : SnapshotRef} {snapshot : StoredSnapshot}
    {request : Request} {e : Raised} : ¬ Entry.Saves ttl ref snapshot ⟨request, .error e⟩ := by
  rintro ⟨draft, now, h, -⟩
  cases h

/-- A request that fails at the clock changes nothing. -/
theorem Coherent.idle (h : Coherent S) {request : Request} {outcome : Except Raised Response}
    (hremoves : ∀ ref expiresAt, ¬ request.Removes ref expiresAt)
    (hsaves : ∀ ref snapshot, ¬ Entry.Saves S.defaultTtl ref snapshot ⟨request, outcome⟩) :
    Step S request outcome S := by
  refine ⟨h, rfl, rfl, ?_⟩
  intro ref snapshot
  simp [hremoves, hsaves]

/-- A request that drops what has expired, and saves nothing. -/
theorem Purged.step {S' : InMemorySnapshotStore} {now : Int} (h : Purged now S S')
    {request : Request} {outcome : Except Raised Response}
    (hremoves : ∀ ref expiresAt, request.Removes ref expiresAt ↔ expiresAt ≤ now)
    (hsaves : ∀ ref snapshot, ¬ Entry.Saves S.defaultTtl ref snapshot ⟨request, outcome⟩) :
    Step S request outcome S' := by
  refine ⟨h.coherent, h.limits, h.defaultTtl, ?_⟩
  intro ref snapshot
  rw [h.mem_iff, hremoves, not_le, or_iff_left (hsaves ref snapshot)]

theorem step_save (h : Coherent S) (draft : SandboxSnapshotDraft) (reading : ClockReading) :
    Step S (.save draft reading) ((Request.save draft reading).perform S).1
      ((Request.save draft reading).perform S).2 := by
  unfold Request.perform save
  rcases now_cases .snapshotSaveFailed reading with ⟨instant, rfl, hnow⟩ | ⟨hnot, e, hnow⟩
  · have hpurged := h.purge instant
    simp only [hnow]
    cases haccept : (S.purge instant).accept draft instant with
    | error e => exact hpurged.step (fun _ _ => passed_utc) fun _ _ => not_saves_error
    | ok S' =>
      obtain ⟨-, -, -, -, rfl⟩ := accept_eq_ok haccept
      refine ⟨hpurged.coherent.accept haccept, hpurged.limits, hpurged.defaultTtl, ?_⟩
      intro ref snapshot
      show _ ∈ (S.purge instant).snapshots ++ _ ↔ _ ∨ Entry.Saves S.defaultTtl ref snapshot
        ⟨.save draft (.utc instant), .ok (.saved ⟨draft.snapshotId⟩)⟩
      rw [List.mem_append, hpurged.mem_iff, List.mem_singleton, hpurged.defaultTtl]
      refine or_congr (by simp only [Request.Removes, passed_utc, not_le]) ?_
      constructor
      · intro heq
        cases heq
        exact ⟨draft, instant, rfl, rfl, rfl⟩
      · rintro ⟨draft', now', hentry, rfl, rfl⟩
        cases hentry
        rfl
  · simp only [hnow]
    exact h.idle (fun _ expiresAt => hnot expiresAt) fun _ _ => not_saves_error

theorem step_load (h : Coherent S) (ref : SnapshotRef) (reading : ClockReading) :
    Step S (.load ref reading) ((Request.load ref reading).perform S).1
      ((Request.load ref reading).perform S).2 := by
  have hsaves : ∀ outcome ref' snapshot,
      ¬ Entry.Saves S.defaultTtl ref' snapshot ⟨.load ref reading, outcome⟩ := by
    rintro outcome ref' snapshot ⟨draft, now, hentry, -⟩
    cases hentry
  unfold Request.perform load
  rcases now_cases .snapshotLoadFailed reading with ⟨instant, rfl, hnow⟩ | ⟨hnot, e, hnow⟩
  · simp only [hnow]
    cases hget : Dict.get? ref S.snapshots with
    | none =>
      refine ⟨h, rfl, rfl, ?_⟩
      intro ref' snapshot
      rw [or_iff_left (hsaves _ _ _), iff_self_and]
      rintro hmem ⟨rfl, -⟩
      exact Dict.get?_eq_none_iff.mp hget (Dict.mem_keys_of_mem hmem)
    | some found =>
      have honly : ∀ snapshot, (ref, snapshot) ∈ S.snapshots → snapshot = found := by
        intro snapshot hmem
        rw [Dict.get?_of_mem h.unique hmem] at hget
        exact Option.some.inj hget
      by_cases hexpired : found.expiresAt ≤ instant
      · simp only [hexpired, if_true]
        refine ⟨h.remove ref, limits_remove ref, defaultTtl_remove ref, ?_⟩
        intro ref' snapshot
        rw [h.mem_remove, or_iff_left (hsaves _ _ _)]
        refine and_congr_right ?_
        intro hmem
        refine not_congr ?_
        show ref' = ref ↔ ref = ref' ∧ Passed (.utc instant) snapshot.expiresAt
        rw [passed_utc]
        constructor
        · rintro rfl
          exact ⟨rfl, honly snapshot hmem ▸ hexpired⟩
        · exact fun hremoves => hremoves.1.symm
      · simp only [hexpired, if_false]
        refine ⟨h, rfl, rfl, ?_⟩
        intro ref' snapshot
        rw [or_iff_left (hsaves _ _ _), iff_self_and]
        rintro hmem ⟨rfl, hpassed⟩
        rw [honly snapshot hmem] at hpassed
        exact hexpired (passed_utc.mp hpassed)
  · simp only [hnow]
    exact h.idle (fun _ expiresAt hremoves => hnot expiresAt hremoves.2) (hsaves _)

theorem step_delete (h : Coherent S) (ref : SnapshotRef) :
    Step S (.delete ref) ((Request.delete ref).perform S).1 ((Request.delete ref).perform S).2 := by
  refine ⟨h.remove ref, limits_remove ref, defaultTtl_remove ref, ?_⟩
  intro ref' snapshot
  rw [or_iff_left (by rintro ⟨draft, now, hentry, -⟩; cases hentry)]
  show _ ∈ (S.remove ref).snapshots ↔ _ ∧ ¬ ref = ref'
  rw [h.mem_remove]
  exact and_congr_right fun _ => not_congr eq_comm

theorem step_purgeExpired (h : Coherent S) (reading : ClockReading) :
    Step S (.purgeExpired reading) ((Request.purgeExpired reading).perform S).1
      ((Request.purgeExpired reading).perform S).2 := by
  have hsaves : ∀ outcome ref' snapshot,
      ¬ Entry.Saves S.defaultTtl ref' snapshot ⟨.purgeExpired reading, outcome⟩ := by
    rintro outcome ref' snapshot ⟨draft, now, hentry, -⟩
    cases hentry
  unfold Request.perform purgeExpired
  rcases now_cases .snapshotLoadFailed reading with ⟨instant, rfl, hnow⟩ | ⟨hnot, e, hnow⟩
  · simp only [hnow]
    exact (h.purge instant).step (fun _ _ => passed_utc) (hsaves _)
  · simp only [hnow]
    exact h.idle (fun _ expiresAt => hnot expiresAt) (hsaves _)

theorem step_stats (h : Coherent S) (reading : ClockReading) :
    Step S (.stats reading) ((Request.stats reading).perform S).1
      ((Request.stats reading).perform S).2 := by
  have hsaves : ∀ outcome ref' snapshot,
      ¬ Entry.Saves S.defaultTtl ref' snapshot ⟨.stats reading, outcome⟩ := by
    rintro outcome ref' snapshot ⟨draft, now, hentry, -⟩
    cases hentry
  unfold Request.perform stats
  rcases now_cases .snapshotLoadFailed reading with ⟨instant, rfl, hnow⟩ | ⟨hnot, e, hnow⟩
  · simp only [hnow]
    exact (h.purge instant).step (fun _ _ => passed_utc) (hsaves _)
  · simp only [hnow]
    exact h.idle (fun _ expiresAt => hnot expiresAt) (hsaves _)

theorem Coherent.perform (h : Coherent S) (request : Request) :
    Step S request (request.perform S).1 (request.perform S).2 := by
  cases request with
  | save draft reading => exact step_save h draft reading
  | load ref reading => exact step_load h ref reading
  | delete ref => exact step_delete h ref
  | purgeExpired reading => exact step_purgeExpired h reading
  | stats reading => exact step_stats h reading

/-! ## Section 5: Every run -/

/-- The invariant of a run: the store is coherent and holds what the history keeps. -/
structure Sound (ttl : Int) (limits : SnapshotStoreLimits) (W : World) : Prop where
  coherent : Coherent W.store
  limits : W.store.limits = limits
  defaultTtl : W.store.defaultTtl = ttl
  mem_iff : ∀ ref snapshot, (ref, snapshot) ∈ W.store.snapshots ↔ Kept ttl W.history ref snapshot

theorem Sound.after {ttl : Int} {limits : SnapshotStoreLimits} {W : World}
    (h : Sound ttl limits W) (request : Request) : Sound ttl limits (W.after request) := by
  have hstep := h.coherent.perform request
  refine ⟨hstep.coherent, hstep.limits.trans h.limits, hstep.defaultTtl.trans h.defaultTtl, ?_⟩
  intro ref snapshot
  show (ref, snapshot) ∈ (request.perform W.store).2.snapshots ↔
    Kept ttl (W.history ++ [⟨request, (request.perform W.store).1⟩]) ref snapshot
  rw [hstep.mem_iff, kept_concat, h.mem_iff, h.defaultTtl]

theorem sound_of_reachable {ttl : Int} {limits : SnapshotStoreLimits} {ttl_pos : 0 < ttl} {W : World}
    (h : (system ttl limits ttl_pos).Reachable W) : Sound ttl limits W := by
  induction h with
  | init h =>
    rw [show _ = _ from h]
    refine ⟨coherent_new, rfl, rfl, ?_⟩
    intro ref snapshot
    exact iff_of_false List.not_mem_nil kept_nil
  | step _ hstep ih =>
    rw [show _ = _ from hstep]
    exact ih.after _

/-- What holds in every state that a run reaches. -/
structure StoreSafe (ttl : Int) (limits : SnapshotStoreLimits) (W : World) : Prop where
  counted : W.store.payloadBytes = payloadTotal W.store.snapshots
  count_le : W.store.snapshots.length ≤ limits.maxSnapshots
  total_le : W.store.payloadBytes ≤ limits.maxTotalPayloadBytes
  unique : (W.store.snapshots.map fun entry => entry.2.snapshotId).Nodup
  /-- A `save` that raises adds nothing and drops only what has expired. -/
  save_fails : ∀ draft reading e S', W.store.save draft reading = (.error e, S') →
    (∀ entry ∈ S'.snapshots, entry ∈ W.store.snapshots) ∧
      ∀ entry ∈ W.store.snapshots, entry ∉ S'.snapshots → Passed reading entry.2.expiresAt
  /-- A `save` that succeeds drops what has expired and adds the draft. -/
  save_succeeds : ∀ draft reading ref S', W.store.save draft reading = (.ok ref, S') →
    ∃ now, reading = .utc now ∧ ref = ⟨draft.snapshotId⟩ ∧
      ∀ entry, entry ∈ S'.snapshots ↔
        (entry ∈ W.store.snapshots ∧ now < entry.2.expiresAt) ∨
          entry = (ref, draft.stored (now + ttl))
  /-- `load` returns what is kept under the reference, until it expires. -/
  load_iff : ∀ ref reading snapshot, (W.store.load ref reading).1 = .ok snapshot ↔
    ∃ now, reading = .utc now ∧ Kept ttl W.history ref snapshot ∧ now < snapshot.expiresAt

theorem Sound.load_iff {ttl : Int} {limits : SnapshotStoreLimits} {W : World}
    (h : Sound ttl limits W) (ref : SnapshotRef) (reading : ClockReading)
    (snapshot : StoredSnapshot) :
    (W.store.load ref reading).1 = .ok snapshot ↔
      ∃ now, reading = .utc now ∧ Kept ttl W.history ref snapshot ∧ now < snapshot.expiresAt := by
  unfold InMemorySnapshotStore.load
  rcases now_cases .snapshotLoadFailed reading with ⟨instant, rfl, hnow⟩ | ⟨hnot, e, hnow⟩
  · simp only [hnow, ← h.mem_iff, ← Dict.get?_eq_some_iff h.coherent.unique]
    cases hget : Dict.get? ref W.store.snapshots with
    | none => simp
    | some found =>
      by_cases hexpired : found.expiresAt ≤ instant
      · simp only [hexpired, if_true, reduceCtorEq, false_iff]
        rintro ⟨now, hread, hfound, hlt⟩
        cases hread
        cases hfound
        omega
      · simp only [hexpired, if_false]
        constructor
        · rintro hsome
          cases hsome
          exact ⟨instant, rfl, rfl, not_le.mp hexpired⟩
        · rintro ⟨now, -, hfound, -⟩
          cases hfound
          rfl
  · simp only [hnow, reduceCtorEq, false_iff]
    rintro ⟨now, rfl, -⟩
    exact hnot now ⟨now, rfl, le_rfl⟩

/-- The store keeps its books in every run. -/
theorem store_safe {ttl : Int} {limits : SnapshotStoreLimits} {ttl_pos : 0 < ttl} {W : World}
    (h : (system ttl limits ttl_pos).Reachable W) : StoreSafe ttl limits W := by
  have hsound := sound_of_reachable h
  have hcoherent := hsound.coherent
  have hstep : ∀ draft reading, Step W.store (.save draft reading)
      ((W.store.save draft reading).1.map .saved) (W.store.save draft reading).2 :=
    fun draft reading => step_save hcoherent draft reading
  refine ⟨hcoherent.counted, hsound.limits ▸ hcoherent.count_le, hsound.limits ▸ hcoherent.total_le,
    ?_, ?_, ?_, hsound.load_iff⟩
  · have hids : (W.store.snapshots.map fun entry => entry.2.snapshotId) =
        (Dict.keys W.store.snapshots).map SnapshotRef.snapshotId := by
      rw [Dict.keys, List.map_map]
      exact List.map_congr_left fun entry hentry => (hcoherent.named entry hentry).symm
    rw [hids]
    refine List.Nodup.map ?_ hcoherent.unique
    rintro ⟨a⟩ ⟨b⟩ rfl
    rfl
  · intro draft reading e S' hsave
    have hmem := (hstep draft reading).mem_iff
    rw [hsave] at hmem
    constructor
    · rintro ⟨ref, snapshot⟩ hentry
      rcases (hmem ref snapshot).mp hentry with hkept | hsaved
      · exact hkept.1
      · exact absurd hsaved not_saves_error
    · rintro ⟨ref, snapshot⟩ hentry hgone
      by_contra hnot
      exact hgone ((hmem ref snapshot).mpr (.inl ⟨hentry, hnot⟩))
  · intro draft reading ref S' hsave
    have hmem := (hstep draft reading).mem_iff
    rw [hsave, hsound.defaultTtl] at hmem
    unfold InMemorySnapshotStore.save at hsave
    rcases now_cases .snapshotSaveFailed reading with ⟨instant, rfl, hnow⟩ | ⟨-, e, hnow⟩
    · have href : ref = ⟨draft.snapshotId⟩ := by
        rw [hnow] at hsave
        dsimp only at hsave
        split at hsave <;> cases hsave
        rfl
      refine ⟨instant, rfl, href, ?_⟩
      rintro ⟨ref', snapshot⟩
      rw [hmem ref' snapshot]
      refine or_congr (by simp only [Request.Removes, passed_utc, not_le]) ?_
      constructor
      · rintro ⟨draft', now', hentry, rfl, rfl⟩
        cases hentry
        rfl
      · intro heq
        cases heq
        exact ⟨draft, instant, rfl, href, rfl⟩
    · rw [hnow] at hsave
      cases hsave

namespace OneSnapshot

/-- A store for one snapshot, kept for a second. -/
def limits : SnapshotStoreLimits := ⟨1, 16, Nat.one_pos, Nat.succ_pos _⟩

def ttl : Int := 1000000

def hash : ContentHash := ⟨List.replicate 64 48, rfl, fun c hc => by
  rw [List.eq_of_mem_replicate hc]
  decide⟩

def draft : SandboxSnapshotDraft where
  schemaVersion := 1
  workspaceRevision := 0
  contentHash := hash
  payload := ascii "x"
  metadata := ⟨py "json", 1⟩
  snapshotId := ⟨1, by decide⟩
  createdAt := 0
  sourceSessionId := ⟨1, by decide⟩
  createdBy := none
  processLocal := false

/-- It was saved at instant 5. -/
def world : World := World.after ⟨new ttl limits (by decide), []⟩ (.save draft (.utc 5))

theorem reachable_world : (system ttl limits (by decide)).Reachable world :=
  .step (.init rfl) rfl

/-- It can be loaded before the second is over, and not any more after that. -/
theorem store_safe_world : StoreSafe ttl limits world ∧
    (world.store.load ⟨draft.snapshotId⟩ (.utc 6)).1 = .ok (draft.stored (5 + ttl)) ∧
    (world.store.load ⟨draft.snapshotId⟩ (.utc 1000005)).1 = .error (missing ⟨draft.snapshotId⟩) :=
  ⟨store_safe reachable_world, rfl, rfl⟩

end OneSnapshot

end InMemorySnapshotStore
