import MemSandbox.Session.RestoreRuns
import MemSandbox.Snapshots.StoreRuns

/-! # Snapshots of a session

    `create_snapshot` leaves the live state alone, however it ends; what it has
    stored is decoded to the state of the session, and can be restored wherever
    the limits are the same exactly if the working directory is a directory.

    * **Section 1** what an export is decoded to;
    * **Section 2** what a snapshot brings back;
    * **Section 3** the runs of `create_snapshot`. -/

open Python EventLoop PortableWorkspaceArchiveCodec Node
open Coroutine (wp wp_bind ends)

namespace SandboxSession

variable {ι : Type} {call : ι}

/-! ## Section 1: Exports -/

section Exports

variable [Sha256] [JsonRuntime] {w other : MemoryWorkspace} {data : WorkspaceSnapshotData}

/-- What an export of a consistent workspace is decoded to. -/
theorem decode_export (hdepth : 4 ≤ JsonRuntime.maxDepth)
    (hconsistent : MemoryWorkspace.Consistent w.limits w.state)
    (hexport : (MemoryWorkspace.export w).1 = .ok data) :
    0 ≤ data.schemaVersion ∧ ∃ entries,
      JsonWorkspaceSnapshotCodec.decode data w.limits
        (fun value => MemoryWorkspace.resolvePath w.limits value none) =
          .ok ⟨sorted (·.path.value) entries, w.state.stats⟩ ∧
      Flattened entries (FileTree.directory w.state.root).view := by
  obtain ⟨entries, hentries, hflat, hcount, hsize⟩ := snapshotEntries_spec hconsistent
  have hencode : JsonWorkspaceSnapshotCodec.encode entries w.state.stats w.limits = .ok data := by
    unfold MemoryWorkspace.export at hexport
    rw [Call.bind_of_ok (Call.get_apply w), Call.lift_bind_of_ok hentries] at hexport
    exact hexport
  have hversion : 0 ≤ data.schemaVersion := by
    simp only [JsonWorkspaceSnapshotCodec.encode, Except.bind_eq_ok_iff, Except.ok.injEq] at hencode
    obtain ⟨_, _, _, _, _, _, rfl⟩ := hencode
    exact Int.one_nonneg
  exact ⟨hversion, entries,
    JsonWorkspaceSnapshotCodec.decode_encode hdepth hconsistent hflat hcount hsize hencode, hflat⟩

/-- An export is prepared and committed where the limits are the same. -/
def Restorable (data : WorkspaceSnapshotData) (cwd : SandboxPath) (w other : MemoryWorkspace) : Prop :=
  ∃ candidate prepared committed,
    MemoryWorkspace.prepareRestore data cwd other = (.ok candidate, prepared) ∧
    MemoryWorkspace.commitRestore candidate prepared = (.ok (), committed) ∧
    MemoryWorkspace.SameState w.state committed.state

theorem restorable_of_directory (hdepth : 4 ≤ JsonRuntime.maxDepth)
    (hconsistent : MemoryWorkspace.Consistent w.limits w.state)
    (hexport : (MemoryWorkspace.export w).1 = .ok data) (hlimits : other.limits = w.limits)
    {cwd : SandboxPath} (hcwd : (FileTree.directory w.state.root).view cwd.parts = some .directory) :
    Restorable data cwd w other := by
  obtain ⟨-, entries, hdecode, hflat⟩ := decode_export hdepth hconsistent hexport
  rw [← hlimits] at hconsistent hdecode
  have hpath : (FileTree.directory w.state.root).view cwd.parts ≠ none := by
    rw [hcwd]
    exact Option.some_ne_none _
  -- a path of the tree is one that the limits allow
  have hvalue : cwd.value ≠ [] := by
    intro hempty
    have hsegments := hconsistent.wellFormed.path hpath
    rw [SandboxPath.parts_empty hempty] at hsegments
    exact absurd rfl (hsegments [] List.mem_cons_self).1
  have hvalid : MemoryWorkspace.validatePath other.limits cwd = .ok () :=
    MemoryWorkspace.validatePath_eq_ok.mpr ⟨hvalue, hconsistent.allows _ hpath⟩
  obtain ⟨state', hsame, hprepare⟩ :=
    MemoryWorkspace.prepareRestoreCandidate_flattened hconsistent hflat hcwd
  let prepared : MemoryWorkspace := { other with
    restoreCandidates := Dict.set other.nextCapability ⟨state', state'.stats⟩ other.restoreCandidates
    nextCapability := other.nextCapability + 1 }
  have hcommit := MemoryWorkspace.commitRestore_issued (w := prepared) (hconsistent.of_same hsame)
    (Dict.get?_set_self other.nextCapability ⟨state', state'.stats⟩ other.restoreCandidates)
  refine ⟨_, prepared, _, ?_, hcommit, hsame⟩
  unfold MemoryWorkspace.prepareRestore
  rw [Call.bind_of_ok (Call.get_apply other), Call.lift_bind_of_ok hvalid,
    Call.lift_bind_of_ok hdecode]
  exact hprepare

variable [TarReader] [GzipReader]

/-- What a preparation validates of an export is the exported state. -/
theorem sameState_of_validates (hdepth : 4 ≤ JsonRuntime.maxDepth)
    (hconsistent : MemoryWorkspace.Consistent w.limits w.state)
    (hexport : (MemoryWorkspace.export w).1 = .ok data) {cwd : SandboxPath} {state : WorkspaceState}
    (h : (RestoreRaces.Preparation.snapshot data cwd).Validates w.limits state) :
    MemoryWorkspace.SameState w.state state := by
  obtain ⟨-, entries, hdecode, hflat⟩ := decode_export hdepth hconsistent hexport
  obtain ⟨decoded, hdecoded, hroot, hstats⟩ := h
  obtain rfl := Except.ok.inj (hdecode.symm.trans hdecoded)
  obtain ⟨root', hroot', -, hview, hwell⟩ := build_sorted hconsistent.wellFormed hflat
  obtain rfl : root' = state.root := Except.ok.inj (hroot'.symm.trans hroot)
  exact ⟨hview, hwell, hstats⟩

theorem directory_of_restorable (hdepth : 4 ≤ JsonRuntime.maxDepth)
    (hconsistent : MemoryWorkspace.Consistent w.limits w.state)
    (hexport : (MemoryWorkspace.export w).1 = .ok data) (hlimits : other.limits = w.limits)
    {cwd : SandboxPath} (h : Restorable data cwd w other) :
    (FileTree.directory w.state.root).view cwd.parts = some .directory := by
  obtain ⟨candidate, prepared, committed, hprepare, -, -⟩ := h
  have hcall : (RestoreRaces.Preparation.snapshot data cwd).call other = (.ok candidate, prepared) :=
    hprepare
  obtain ⟨-, hprepared, state, hissued⟩ := issued_of_prepare hcall
  have hvalidates := hissued.validates
  rw [hprepared, hlimits] at hvalidates
  obtain ⟨children, hchildren⟩ := hissued.directory
  rw [← (sameState_of_validates hdepth hconsistent hexport hvalidates).view]
  exact FileTree.view_eq_directory_iff.mpr ⟨children, getNode_eq_ok_iff.mp hchildren⟩

end Exports

/-! ## Section 2: Snapshots -/

section Snapshots

variable [Sha256] [UnicodeData] [JsonRuntime] [TarReader] [GzipReader]

/-- The state that `create_snapshot` encodes. -/
def snapshotState (data : WorkspaceSnapshotData) (cwd : SandboxPath)
    (environment : CommandEnvironment) : SessionSnapshotState where
  workspace := data
  cwd
  approvedEnvironment := environment
  schemaVersion := 1
  capabilityProfileVersion := 1

end Snapshots

section New

open NewWorkspace RestoreRaces.OneWorkspace JsonSessionSnapshotCodec.OneVariable

/-- A workspace that holds a file. -/
def withFile : MemoryWorkspace := ⟨.default, ⟨[(py "a", .file [])], ⟨0, 2, 7, emptyHash⟩⟩, 3, [], 5⟩

end New

/-! ## Section 3: Runs -/

section Runs

/-- The operation, for `_run_operation`. -/
abbrev CreateSnapshot.runs [Sha256] (request : CreateSnapshot) (limits : OperationLimits) :
    OrderlyOperation ι (SessionWork Sandbox SessionJob SessionValue) SessionValue :=
  (request.operationRequest limits).orderly

variable [Sha256] [UnicodeData] [JsonRuntime] [TarReader] [GzipReader] {request : CreateSnapshot}
  {u₀ : Sandbox} {limits : OperationLimits} {s₀ : SandboxState ι}
  {l : EventLoop Sandbox SessionJob SessionValue Raised}

/-- The store holds what the session has exported and encoded. -/
structure SnapshotSaved (request : CreateSnapshot) (u₀ : Sandbox) (value : SessionValue) (u : Sandbox) :
    Prop where
  live : Untouched u₀ u
  saved : ∃ data payload ref stored, (MemoryWorkspace.export u₀.workspace).1 = .ok data ∧
    request.codec.encode (snapshotState data u₀.cwd u₀.environment) = .ok payload ∧
    value = .snapshot ref payload.contentHash ∧ Dict.get? ref u.store.snapshots = some stored ∧
    JsonSessionSnapshotCodec.BuiltFrom payload stored.toSandboxSnapshot

/-- The snapshot is saved, and the tasks are done. -/
structure SnapshotDone (request : CreateSnapshot) (u₀ : Sandbox) (value : SessionValue)
    (l : EventLoop Sandbox SessionJob SessionValue Raised) : Prop where
  done : AllDone l.tasks
  saved : SnapshotSaved request u₀ value l.shared

/-- So the caller finds it, with the result that it got. -/
structure SnapshotReturned (request : CreateSnapshot) (u₀ : Sandbox) (value : SessionValue)
    (l : EventLoop Sandbox SessionJob SessionValue Raised) : Prop
    extends SnapshotDone request u₀ value l where
  returned : l.shared.returned = some value

omit [Sha256] [UnicodeData] [JsonRuntime] [TarReader] [GzipReader] in
/-- A draft that the store accepts is held under its own identifier. -/
theorem get_of_save {store : InMemorySnapshotStore} {draft : SandboxSnapshotDraft}
    {reading : ClockReading} {ref : SnapshotRef}
    (h : (store.save draft reading).1 = .ok ref) :
    ref = ⟨draft.snapshotId⟩ ∧ ∃ expiresAt,
      Dict.get? ref (store.save draft reading).2.snapshots = some (draft.stored expiresAt) := by
  unfold InMemorySnapshotStore.save at h ⊢
  cases hnow : InMemorySnapshotStore.now .snapshotSaveFailed reading with
  | error e =>
    simp only [hnow] at h
    exact nomatch h
  | ok instant =>
    simp only [hnow] at h ⊢
    cases haccept : (store.purge instant).accept draft instant with
    | error e =>
      simp only [haccept] at h
      exact nomatch h
    | ok accepted =>
      simp only [haccept] at h ⊢
      obtain rfl := Except.ok.inj h
      obtain ⟨hnew, -, -, -, rfl⟩ := InMemorySnapshotStore.accept_eq_ok haccept
      refine ⟨rfl, instant + (store.purge instant).defaultTtl, ?_⟩
      rw [← Dict.set_of_not_mem hnew]
      exact Dict.get?_set_self _ _ _

omit [Sha256] [UnicodeData] [JsonRuntime] [TarReader] [GzipReader] in
theorem Fresh.resting (h : Fresh u₀ l) : Resting u₀ l := by
  refine ⟨h.1, ?_⟩
  rw [h.2]
  exact ⟨rfl, rfl, rfl⟩

/-- The call that exports the workspace. -/
theorem wp_export (h : Fresh u₀ l) :
    wp (Awaiting SessionJob.act) Unguarded (awaitValue SessionValue.exported? .export)
      (ends (fun data l' => Fresh u₀ l' ∧ (MemoryWorkspace.export u₀.workspace).1 = .ok data)
        fun _ => Fresh u₀) l := by
  obtain ⟨u, tasks⟩ := l
  obtain ⟨hdone, rfl⟩ := h
  have hact : ∀ cancelling r u', SessionJob.act .export cancelling u r u' →
      u' = u ∧ ∀ v, r = .ok v → ∀ data, v.exported? = some data →
        (MemoryWorkspace.export u.workspace).1 = .ok data := by
    intro cancelling r u' h
    cases cancelling with
    | true =>
      obtain ⟨rfl, rfl⟩ := h
      exact ⟨rfl, fun v hv => nomatch hv⟩
    | false =>
      obtain ⟨rfl, rfl⟩ := h
      refine ⟨rfl, fun v hv data hdata => ?_⟩
      cases hexport : (MemoryWorkspace.export u'.workspace).1 with
      | error e =>
        rw [hexport] at hv
        exact nomatch hv
      | ok found =>
        rw [hexport] at hv
        obtain rfl := Except.ok.inj hv
        exact congrArg Except.ok (Option.some.inj hdata)
  apply Coroutine.wp_mono (wp_awaitValue (I := fun u' => u' = u)
    (P := fun data _ => (MemoryWorkspace.export u.workspace).1 = .ok data) hdone rfl hact)
  intro r l' hl'
  cases r with
  | ok data => exact ⟨⟨hl'.1, hl'.2.1⟩, hl'.2.2⟩
  | error e => exact hl'

/-- The call that saves the draft. -/
theorem wp_save {draft : SandboxSnapshotDraft} (h : Fresh u₀ l) :
    wp (Awaiting SessionJob.act) Unguarded (awaitValue SessionValue.saved? (.save draft))
      (ends (fun ref l' => Resting u₀ l' ∧ ref = ⟨draft.snapshotId⟩ ∧ ∃ expiresAt,
          Dict.get? ref l'.shared.store.snapshots = some (draft.stored expiresAt))
        fun _ => Resting u₀) l := by
  obtain ⟨u, tasks⟩ := l
  obtain ⟨hdone, rfl⟩ := h
  have hact : ∀ cancelling r u', SessionJob.act (.save draft) cancelling u r u' →
      Untouched u u' ∧ ∀ v, r = .ok v → ∀ ref, v.saved? = some ref →
        ref = ⟨draft.snapshotId⟩ ∧ ∃ expiresAt,
          Dict.get? ref u'.store.snapshots = some (draft.stored expiresAt) := by
    intro cancelling r u' h
    cases cancelling with
    | true =>
      obtain ⟨rfl, rfl⟩ := h
      exact ⟨⟨rfl, rfl, rfl⟩, fun v hv => nomatch hv⟩
    | false =>
      obtain ⟨reading, rfl, rfl⟩ := h
      refine ⟨⟨rfl, rfl, rfl⟩, fun v hv ref href => ?_⟩
      cases hsave : (u.store.save draft reading).1 with
      | error e =>
        rw [hsave] at hv
        exact nomatch hv
      | ok found =>
        rw [hsave] at hv
        obtain rfl := Except.ok.inj hv
        obtain rfl : found = ref := Option.some.inj href
        exact get_of_save hsave
  apply Coroutine.wp_mono (wp_awaitValue (I := Untouched u)
    (P := fun ref u' => ref = ⟨draft.snapshotId⟩ ∧ ∃ expiresAt,
      Dict.get? ref u'.store.snapshots = some (draft.stored expiresAt)) hdone ⟨rfl, rfl, rfl⟩ hact)
  intro r l' hl'
  cases r with
  | ok ref => exact ⟨⟨hl'.1, hl'.2.1⟩, hl'.2.2⟩
  | error e => exact ⟨hl'.1, hl'.2⟩

/-- The action saves the live state, and changes nothing. -/
theorem wp_createSnapshot (operationId : OperationId) (h : Fresh u₀ l) :
    wp (Awaiting SessionJob.act) Unguarded (request.action operationId)
      (ends (fun result => SnapshotDone request u₀ result.1) fun _ => Resting u₀) l := by
  apply wp_bind.mpr
  apply Coroutine.wp_mono (wp_export h)
  intro r l₁ hl₁
  cases r with
  | error e => exact Fresh.resting hl₁
  | ok data =>
    obtain ⟨hfresh, hexport⟩ := hl₁
    apply wp_bind.mpr
    rintro r l₂ ⟨rfl, rfl⟩
    refine ⟨trivial, ?_⟩
    apply wp_bind.mpr
    rintro r l₃ ⟨hr, rfl⟩
    refine ⟨trivial, ?_⟩
    rcases hr with rfl | rfl
    · apply wp_bind.mpr
      apply Coroutine.wp_ofExcept
      generalize hencode : request.codec.encode _ = encoded
      have hencode : request.codec.encode (snapshotState data u₀.cwd u₀.environment) = encoded := by
        rw [← hencode, hfresh.2]
        rfl
      cases encoded with
      | error e => exact hfresh.resting
      | ok payload =>
        apply wp_bind.mpr
        rintro r l₄ ⟨rfl, -⟩
        refine ⟨trivial, ?_⟩
        cases r with
        | error e => exact hfresh.resting
        | ok snapshotId =>
          apply wp_bind.mpr
          rintro r l₅ ⟨rfl, ⟨createdAt, rfl⟩ | ⟨e, rfl⟩⟩
          · refine ⟨trivial, ?_⟩
            apply wp_bind.mpr
            apply Coroutine.wp_mono (wp_save hfresh)
            intro r l₆ hl₆
            cases r with
            | error e => exact hl₆
            | ok ref =>
              obtain ⟨hsaved, rfl, expiresAt, hget⟩ := hl₆
              show wp _ _ (if snapshotId ≠ snapshotId then _ else _) _ l₆
              rw [if_neg (not_not.mpr rfl)]
              exact ⟨hsaved.done, hsaved.untouched, data, payload, _, _, hexport, hencode, rfl, hget,
                rfl, rfl, rfl, rfl, rfl, rfl⟩
          · exact ⟨trivial, hfresh.resting⟩
    · exact hfresh.resting

theorem createSnapshot_contract :
    WorkContract SessionJob.act call (request.runs limits).toOperation (Fresh u₀) (Fresh u₀)
      (Resting u₀) (SnapshotDone request u₀) where
  steady_idle := steady_of_done fun _ h => h.1
  steady_ready := steady_of_done fun _ h => h.1
  steady_intact := steady_of_done fun _ h => h.done
  steady_done := fun _ => steady_of_done fun _ h => h.done
  intact_of_idle := fun _ h => h.resting
  intact_of_ready := fun _ h => h.resting
  normalize := fun s h => h
  evaluate := fun operationId s h => by
    apply wp_tasks
    exact wp_evaluate operationId (I := fun u => u = u₀) h.1 h.2
  action := fun operationId s h => by
    apply Coroutine.wp_mono (wp_tasks (wp_createSnapshot operationId h))
    intro r s' hs'
    cases r with
    | ok result => exact hs'
    | error e => exact hs'

/-- The runs of `create_snapshot` in its turn. -/
def createSnapshotSystem (call : ι) (request : CreateSnapshot) (limits : OperationLimits)
    (s₀ : SandboxState ι) :=
  turnSystem SessionJob.act call (request.runs limits).toOperation keepResult s₀

/-- How its turn ends. -/
abbrev CreateSnapshotEnd (call : ι) (request : CreateSnapshot) (limits : OperationLimits)
    (u₀ : Sandbox) : Except Raised Unit → SandboxState ι → Prop :=
  TurnEnd call (FailsLate (request.runs (ι := ι) limits).toOperation) (Resting u₀)
    (SnapshotDone request u₀) (SnapshotReturned request u₀)

end Runs

section Cancelled

open NewWorkspace RestoreRaces.OneWorkspace

/-- A snapshot of session 1. -/
def firstSnapshot : CreateSnapshot := ⟨JsonSessionSnapshotCodec.OneVariable.codec, ⟨1, Nat.one_ne_zero⟩⟩

end Cancelled

end SandboxSession
