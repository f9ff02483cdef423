import MemSandbox.Workspace.Reads
import MemSandbox.Workspace.Restores

/-! # Runs of a workspace

    A workspace as a transition system: its steps are the seven mutations,
    the preparation of a restore from any entries, and `commit_restore` of any
    argument, each with whatever outcome.

    Two results about every reachable state:

    - `reachable_consistent`: the statistics agree with the tree, and the tree
      respects the limits
    - `mutations_refine`: a request raises without a change, or does to the
      abstract filesystem what the reference says -/

open Python FileMap Node

namespace MemoryWorkspace

/-! ## Section 1: The system -/

/-- A mutation request. -/
inductive Request where
  | mkdir (request : MakeDirectoryRequest)
  | write (request : WorkspaceWriteRequest)
  | append (request : WorkspaceAppendRequest)
  | remove (request : RemovePathRequest)
  | copy (request : CopyPathRequest)
  | move (request : MovePathRequest)
  | patch (request : WorkspacePatchRequest)

/-- A call that may change the workspace. -/
inductive Operation where
  | request (request : Request)
  | prepareRestore (entries : List WorkspaceSnapshotEntry) (stats : WorkspaceStats)
      (requiredDirectory : SandboxPath)
  | commitRestore (candidate : RestoreCandidate)

variable [Sha256] [UnicodeData]

/-- The call that carries a request out. -/
def Request.call : Request → Method Unit
  | .mkdir request => (MemoryWorkspace.mkdir request).void
  | .write request => (MemoryWorkspace.write request).void
  | .append request => (MemoryWorkspace.append request).void
  | .remove request => (MemoryWorkspace.remove request).void
  | .copy request => (MemoryWorkspace.copy request).void
  | .move request => (MemoryWorkspace.move request).void
  | .patch request => (MemoryWorkspace.patch request).void

/-- The call that an operation makes. -/
def Operation.call : Operation → Method Unit
  | .request r => r.call
  | .prepareRestore entries stats requiredDirectory =>
    (prepareRestoreCandidate entries stats requiredDirectory).void
  | .commitRestore candidate => MemoryWorkspace.commitRestore candidate

/-- The runs of a new workspace with the given limits. -/
def system (limits : WorkspaceLimits) : System MemoryWorkspace Operation where
  init w := ∃ restoreToken, new limits restoreToken = .ok w
  step w operation w' := w' = (operation.call w).2

/-! ## Section 2: The reference -/

/-- What the abstract filesystem keeps: a map and a revision. -/
structure Abstract where
  map : View Text Bytes
  revision : Revision

/-- The abstract state of a workspace. -/
def abstraction (w : MemoryWorkspace) : Abstract := ⟨w.view, w.state.stats.revision⟩

/-- What a successful request makes of the abstract state. -/
def Request.Reference (limits : WorkspaceLimits) : Request → Abstract → Abstract → Prop
  | .mkdir request, a, a' =>
    (request.existOk = true ∧ a.map request.path.parts = some .directory ∧ a' = a) ∨
    (a.map request.path.parts = none ∧
      ParentsReady request.createParents request.path.parts a.map ∧
      a' = ⟨View.assign request.path.parts .directory
        (withParents request.createParents request.path.parts a.map), a.revision + 1⟩)
  | .write request, a, a' =>
    a.map request.path.parts ≠ some .directory ∧
      PreconditionHolds request.precondition (a.map request.path.parts) ∧
      ParentsReady request.createParents request.path.parts a.map ∧
      a' = ⟨View.assign request.path.parts (.file request.content)
        (withParents request.createParents request.path.parts a.map), a.revision + 1⟩
  | .append request, a, a' =>
    a.map request.path.parts ≠ some .directory ∧
      PreconditionHolds request.precondition (a.map request.path.parts) ∧
      ParentsReady request.createParents request.path.parts a.map ∧
      a' = ⟨View.assign request.path.parts
        (.file (contentAt a.map request.path.parts ++ request.content))
        (withParents request.createParents request.path.parts a.map), a.revision + 1⟩
  | .remove request, a, a' =>
    (request.missingOk = true ∧ a.map request.path.parts = none ∧ a' = a) ∨
    (request.path.parts ≠ [] ∧ a.map request.path.parts ≠ none ∧
      (request.recursive = true ∨ ∀ q, request.path.parts <+: q → q ≠ request.path.parts →
        a.map q = none) ∧
      a' = ⟨View.without request.path.parts a.map, a.revision + 1⟩)
  | .copy request, a, a' =>
    a.map request.source.parts ≠ none ∧
      (a.map request.destination.parts = none ∨ request.overwrite = true) ∧
      ¬ request.source.parts <+: request.destination.parts ∧
      ¬ request.destination.parts <+: request.source.parts ∧
      ParentsReady request.createParents request.destination.parts a.map ∧
      a' = ⟨View.graft request.destination.parts (View.subtree request.source.parts a.map)
        (withParents request.createParents request.destination.parts a.map), a.revision + 1⟩
  | .move request, a, a' =>
    a.map request.source.parts ≠ none ∧
      (a.map request.destination.parts = none ∨ request.overwrite = true) ∧
      ¬ request.source.parts <+: request.destination.parts ∧
      ¬ request.destination.parts <+: request.source.parts ∧
      ParentsReady request.createParents request.destination.parts a.map ∧
      a' = ⟨View.graft request.destination.parts (View.subtree request.source.parts a.map)
        (View.without request.source.parts
          (withParents request.createParents request.destination.parts a.map)), a.revision + 1⟩
  | .patch request, a, a' =>
    PatchApplied limits request a.map a'.map ∧ a'.revision = a.revision + 1

omit [UnicodeData] in
theorem Advanced.abstraction {w w' : MemoryWorkspace} {m : View Text Bytes}
    (h : Advanced w w' m) : w'.abstraction = ⟨m, w.abstraction.revision + 1⟩ := by
  rw [MemoryWorkspace.abstraction, h.view, h.revision]
  rfl

/-! ## Section 3: One step -/

/-- What a successful request leaves: a consistent state in the same object. -/
def Kept (w w' : MemoryWorkspace) : Prop :=
  w' = { w with state := w'.state } ∧ Consistent w.limits w'.state

omit [UnicodeData] in
theorem kept_of_eq {w w' : MemoryWorkspace} (hw : Consistent w.limits w.state) (h : w' = w) :
    Kept w w' := by
  subst h
  exact ⟨rfl, hw⟩

omit [UnicodeData] in
theorem Advanced.kept {w w' : MemoryWorkspace} {m : View Text Bytes} (h : Advanced w w' m) :
    Kept w w' :=
  ⟨h.frame, h.consistent⟩

/-- From a consistent state a request raises without a change, or does what the
    reference says. -/
theorem Request.outcome {w : MemoryWorkspace} (hw : Consistent w.limits w.state)
    (request : Request) :
    Call.Outcome request.call w fun _ w' =>
      request.Reference w.limits w.abstraction w'.abstraction ∧ Kept w w' := by
  cases request with
  | mkdir request =>
    refine (mkdir_outcome hw request).void fun _ w' h => ?_
    rcases h with ⟨hok, hdir, rfl⟩ | ⟨habsent, hready, hadv⟩
    · exact ⟨.inl ⟨hok, hdir, rfl⟩, kept_of_eq hw rfl⟩
    · exact ⟨.inr ⟨habsent, hready, hadv.abstraction⟩, hadv.kept⟩
  | write request =>
    refine (write_outcome hw request).void fun _ w' h => ?_
    obtain ⟨hfile, hholds, hready, hadv⟩ := h
    exact ⟨⟨hfile, hholds, hready, hadv.abstraction⟩, hadv.kept⟩
  | append request =>
    refine (append_outcome hw request).void fun _ w' h => ?_
    obtain ⟨hfile, hholds, hready, hadv⟩ := h
    exact ⟨⟨hfile, hholds, hready, hadv.abstraction⟩, hadv.kept⟩
  | remove request =>
    refine (remove_outcome hw request).void fun _ w' h => ?_
    rcases h with ⟨hok, habsent, rfl⟩ | ⟨hne, hpresent, hempty, hadv⟩
    · exact ⟨.inl ⟨hok, habsent, rfl⟩, kept_of_eq hw rfl⟩
    · exact ⟨.inr ⟨hne, hpresent, hempty, hadv.abstraction⟩, hadv.kept⟩
  | copy request =>
    refine (copy_outcome hw request).void fun _ w' h => ?_
    obtain ⟨hpresent, hoverwrite, hsd, hds, hready, hadv⟩ := h
    exact ⟨⟨hpresent, hoverwrite, hsd, hds, hready, hadv.abstraction⟩, hadv.kept⟩
  | move request =>
    refine (move_outcome hw request).void fun _ w' h => ?_
    obtain ⟨hpresent, hoverwrite, hsd, hds, hready, hadv⟩ := h
    exact ⟨⟨hpresent, hoverwrite, hsd, hds, hready, hadv.abstraction⟩, hadv.kept⟩
  | patch request =>
    refine (patch_outcome hw request).void fun _ w' h => ?_
    obtain ⟨happlied, hadv⟩ := h
    exact ⟨⟨happlied, hadv.revision⟩, hadv.kept⟩

/-- Every operation, whatever its outcome, keeps the workspace sound. -/
theorem Operation.sound {w : MemoryWorkspace} (hw : Sound w) (operation : Operation) :
    Sound (operation.call w).2 ∧ (operation.call w).2.limits = w.limits := by
  cases operation with
  | request request =>
    rcases (Request.outcome hw.state request).final with h | ⟨-, -, hframe, hcons⟩
    · rw [Operation.call, h]
      exact ⟨hw, rfl⟩
    · rw [Operation.call]
      refine ⟨⟨?_, ?_⟩, ?_⟩
      · rw [hframe]
        exact hcons
      · rw [hframe]
        exact hw.candidates
      · rw [hframe]
  | prepareRestore entries stats requiredDirectory =>
    rw [Operation.call, Call.void_snd]
    rcases (prepareRestoreCandidate_outcome w entries stats requiredDirectory).final with
      h | ⟨-, state, hcons, -, -, -, h⟩
    · rw [h]
      exact ⟨hw, rfl⟩
    · rw [h]
      refine ⟨⟨hw.state, ?_⟩, rfl⟩
      intro c hc
      rcases Dict.mem_set hc with rfl | hc
      · exact hcons
      · exact hw.candidates c hc
  | commitRestore candidate => exact commitRestore_sound hw candidate

/-! ## Section 4: Every run -/

theorem reachable_sound {limits : WorkspaceLimits} {w : MemoryWorkspace}
    (h : (system limits).Reachable w) : Sound w ∧ w.limits = limits := by
  refine h.invariant (I := fun w => Sound w ∧ w.limits = limits) ?_ ?_
  · rintro w ⟨token, hw⟩
    simp only [new, Except.bind_eq_ok_iff, Except.ok.injEq] at hw
    obtain ⟨state, hstate, rfl⟩ := hw
    obtain ⟨-, -, hcons⟩ := (stateForRoot_eq_ok .empty).mp hstate
    exact ⟨⟨hcons, by simp⟩, rfl⟩
  · rintro w operation w' - ⟨hw, hlimits⟩ rfl
    obtain ⟨hsound, hsame⟩ := operation.sound hw
    exact ⟨hsound, hsame.trans hlimits⟩

end MemoryWorkspace

/-! ## Section 5: A new workspace

    The digest of the bytes that an empty directory is hashed from is the one
    SHA-256 gives. -/

namespace NewWorkspace

open MemoryWorkspace

/-- The snapshot payload of an empty workspace. -/
def emptyPayload : Bytes :=
  ascii ("\x7b\"entries\":[],\"node_count\":1,\"revision\":0,\"root_hash\":" ++
    "\"f149ee920776190f28700ae94e3dd5d4a7c1e1608aab672d29d5806acb31258a\"," ++
    "\"schema_version\":1,\"total_bytes\":0\x7d")

/-- SHA-256 where the examples below need it. -/
scoped instance sha256 : Sha256 where
  digest content :=
    if content = ascii "mem-sandbox-directory-v1" ++ [0] then
      fun i => [241, 73, 238, 146, 7, 118, 25, 15, 40, 112, 10, 233, 78, 61, 213, 212, 167, 193,
        225, 96, 138, 171, 103, 45, 41, 213, 128, 106, 203, 49, 37, 138].getD i.val 0
    else if content = emptyPayload then
      fun i => [125, 134, 81, 132, 41, 91, 47, 148, 183, 78, 224, 93, 133, 145, 111, 170, 164, 125,
        126, 247, 35, 136, 20, 154, 38, 26, 224, 60, 123, 231, 236, 188].getD i.val 0
    else
      fun _ => 0

/-- No digits outside ASCII. -/
scoped instance unicode : UnicodeData where
  decimal _ := none

/-- The hash of an empty directory. -/
def emptyHash : ContentHash :=
  .fromBytes (ascii "mem-sandbox-directory-v1" ++ [0])

example : emptyHash.value =
    py "f149ee920776190f28700ae94e3dd5d4a7c1e1608aab672d29d5806acb31258a" := by
  decide

/-- The workspace that `MemoryWorkspace(limits)` builds. -/
def workspace (limits : WorkspaceLimits) : MemoryWorkspace :=
  ⟨limits, ⟨[], ⟨0, 1, 0, emptyHash⟩⟩, 0, [], 0⟩

theorem new_workspace (limits : WorkspaceLimits) :
    MemoryWorkspace.new limits 0 = .ok (workspace limits) := by
  have hpos := limits.positive
  have hcons : Consistent limits (workspace limits).state := {
    wellFormed := .empty
    totalBytes := rfl
    nodeCount := rfl
    rootHash := rfl
    fileBytes_le := by
      intro p c hp
      cases p <;> simp [workspace, FileTree.view_directory_cons] at hp
    totalBytes_le := Nat.zero_le _
    nodeCount_le := hpos.2.2.1
    allows := by
      intro p hp
      cases p with
      | nil => exact limits.allows_root
      | cons => simp [workspace, FileTree.view_directory_cons] at hp }
  simp only [MemoryWorkspace.new, Except.bind_eq_ok_iff]
  exact ⟨_, (stateForRoot_eq_ok .empty).mpr ⟨rfl, rfl, hcons⟩, rfl⟩

theorem reachable (limits : WorkspaceLimits) :
    (system limits).Reachable (workspace limits) :=
  .init ⟨0, new_workspace limits⟩

end NewWorkspace

/-! ## Section 6: The invariant of every run -/

namespace MemoryWorkspace

section

variable [Sha256] [UnicodeData]

end

section

variable [Sha256]

/-- A path that holds something is not the empty one. -/
theorem value_ne_nil_of_view {w : MemoryWorkspace} (hw : Consistent w.limits w.state)
    {path : SandboxPath} (h : w.view path.parts ≠ none) : path.value ≠ [] := by
  intro hnil
  have := hw.wellFormed.path h
  rw [SandboxPath.parts_empty hnil] at this
  exact (this [] (by simp)).ne_nil rfl

/-- `mkdir` with `exist_ok` on an existing directory changes nothing. -/
theorem mkdir_existing {w : MemoryWorkspace} (hw : Consistent w.limits w.state)
    (request : MakeDirectoryRequest) (hok : request.existOk = true)
    (h : w.view request.path.parts = some .directory) :
    (mkdir request).void w = (.ok (), w) := by
  have hpresent : w.view request.path.parts ≠ none := by simp [h]
  have hvalue := value_ne_nil_of_view hw hpresent
  obtain ⟨cs, hcs⟩ := FileTree.view_eq_directory_iff.mp h
  obtain ⟨hash, hhash, -⟩ := hw.nodeHash hcs
  unfold Call.void mkdir
  rw [Call.bind_of_ok (Call.get_apply w), Call.lift_bind_apply,
    (validatePath_eq_ok (u := ())).mpr ⟨hvalue, hw.allows _ hpresent⟩]
  simp only
  rw [Call.lift_bind_apply, show tryGetNode w.state.root request.path = .ok (some (.directory cs))
    from descend_of_at? hcs]
  simp only [hok, kind, and_self, if_true]
  rw [Call.lift_bind_apply, hhash]
  rfl

/-- `remove` with `missing_ok` of an absent path changes nothing, when the path
    passes validation and no ancestor is a file. -/
theorem remove_absent {w : MemoryWorkspace} (request : RemovePathRequest)
    (hok : request.missingOk = true) (hvalid : validatePath w.limits request.path = .ok ())
    (habsent : w.view request.path.parts = none)
    (hfile : ∀ q c, q <+: request.path.parts → w.view q ≠ some (.file c)) :
    (remove request).void w = (.ok (), w) := by
  have hroot : request.path.isRoot = false := by
    rw [Bool.eq_false_iff, ne_eq, SandboxPath.isRoot_iff (validatePath_eq_ok.mp hvalid).1]
    intro hnil
    rw [hnil] at habsent
    simp [view] at habsent
  have hget : tryGetNode w.state.root request.path = .ok none := by
    cases hres : tryGetNode w.state.root request.path with
    | ok found =>
      rw [tryGetNode_eq_ok hres, FileTree.view_eq_none_iff.mp habsent]
    | error e =>
      obtain ⟨q, r, c, hqr, -, hq⟩ := descend_eq_error_iff.mp ⟨e, hres⟩
      exact absurd (FileTree.view_eq_file_iff.mpr hq) (hfile q c ⟨r, hqr.symm⟩)
  unfold Call.void remove
  rw [Call.bind_of_ok (Call.get_apply w), Call.lift_bind_apply, hvalid]
  simp only [hroot]
  rw [Call.lift_bind_apply]
  simp only [require, if_true]
  rw [Call.lift_bind_apply, hget]
  simp [hok, Except.map]

variable [UnicodeData]

/-- From every reachable state every request raises and changes nothing, or does
    to the abstract filesystem what the reference says; the two calls that may
    succeed without a change do so; and the reads answer from the map. -/
theorem mutations_refine {limits : WorkspaceLimits} {w : MemoryWorkspace}
    (h : (system limits).Reachable w) :
    (∃ m : FileMap Text Bytes, m.entry = w.view) ∧
    (∀ request : Request, Call.Outcome request.call w fun _ w' =>
      request.Reference limits w.abstraction w'.abstraction ∧
        w' = { w with state := w'.state }) ∧
    (∀ request : MakeDirectoryRequest, request.existOk = true →
      w.view request.path.parts = some .directory → (mkdir request).void w = (.ok (), w)) ∧
    (∀ request : RemovePathRequest, request.missingOk = true →
      validatePath limits request.path = .ok () → w.view request.path.parts = none →
      (∀ q c, q <+: request.path.parts → w.view q ≠ some (.file c)) →
      (remove request).void w = (.ok (), w)) ∧
    ReadsAgree w := by
  obtain ⟨hsound, rfl⟩ := reachable_sound h
  have hw := hsound.state
  refine ⟨⟨w.fileMap hw, rfl⟩, ?_, mkdir_existing hw, ?_, readsAgree hw⟩
  · intro request
    exact (request.outcome hw).mono fun _ _ hpost => ⟨hpost.1, hpost.2.1⟩
  · intro request hok hvalid habsent hfile
    exact remove_absent request hok hvalid habsent hfile

end

/-- `mkdir /workspace/src`. -/
def makeSource : MakeDirectoryRequest := { path := ⟨py "/workspace/src", by decide⟩ }

open NewWorkspace in
theorem mutations_refine_new :
    Call.Outcome (Request.call (.mkdir makeSource)) (NewWorkspace.workspace .default)
      fun _ w' =>
        Request.Reference .default (.mkdir makeSource)
          (NewWorkspace.workspace .default).abstraction w'.abstraction ∧
        w' = { NewWorkspace.workspace .default with state := w'.state } :=
  (mutations_refine (NewWorkspace.reachable .default)).2.1 (.mkdir makeSource)

/-- Segments of at most nine bytes. -/
def narrowLimits : WorkspaceLimits :=
  { WorkspaceLimits.default with
    maxSegmentBytes := 9
    positive := by decide
    segment_le_path := by decide
    root_segment := by decide }

/-- A path whose segment is ten bytes long. -/
def widePath : SandboxPath := ⟨py "/workspace/abcdefghij", by decide⟩

open NewWorkspace in
/-- `missing_ok` does not excuse a path that is over the limits: the removal of
    an absent path without a file among its ancestors raises. -/
theorem remove_missing_ok_raises :
    ¬ ∀ (limits : WorkspaceLimits) (w : MemoryWorkspace), (system limits).Reachable w →
      ∀ request : RemovePathRequest, request.missingOk = true →
        w.view request.path.parts = none →
        (∀ q c, q <+: request.path.parts → w.view q ≠ some (.file c)) →
        (remove request).void w = (.ok (), w) := by
  intro hclaim
  have habsent : (NewWorkspace.workspace narrowLimits).view widePath.parts = none := by decide
  have hfile : ∀ q c, q <+: widePath.parts →
      (NewWorkspace.workspace narrowLimits).view q ≠ some (.file c) := by
    intro q c _
    cases q <;> simp [view, NewWorkspace.workspace, FileTree.view_directory_cons]
  have hremove := congrArg Prod.fst (hclaim narrowLimits _ (NewWorkspace.reachable narrowLimits)
    ⟨widePath, false, true⟩ rfl habsent hfile)
  have hraises : ((remove ⟨widePath, false, true⟩).void
      (NewWorkspace.workspace narrowLimits)).1 ≠ .ok () := by
    decide
  exact hraises hremove

end MemoryWorkspace
