import MemSandbox.Workspace.ArchiveDecoding
import MemSandbox.Workspace.Snapshots

/-! # Archives of a workspace

    `export_portable_archive` and `prepare_archive_restore` of
    `workspace/memory.py`.  Both suspend around the codec, which looks at the
    limits only; the live state is read before and the candidate is stored
    after, so each is one call here. -/

open Python FileMap Node

/-- Portable tree bytes plus provider-persisted restore metadata. -/
structure WorkspaceArchiveData where
  encoded : Bytes
  formatVersion : Int
  workspaceRevision : Revision
  rootHash : ContentHash

namespace PortableWorkspaceArchiveCodec

/-- `PortableWorkspaceArchiveCodec.FORMAT_VERSION`. -/
def FORMAT_VERSION : Int := 1

end PortableWorkspaceArchiveCodec

namespace MemoryWorkspace

open PortableWorkspaceArchiveCodec

variable [Sha256]

/-! ## Section 1: The methods -/

/-- `MemoryWorkspace.export_portable_archive`. -/
def exportPortableArchive : Method WorkspaceArchiveData := do
  let self ← get
  let entries ← snapshotEntries self.state.root .root self.limits
  let stats := self.state.stats
  let encoded ← PortableWorkspaceArchiveCodec.encode entries self.limits
  return ⟨encoded, FORMAT_VERSION, stats.revision, stats.rootHash⟩

variable [TarReader] [GzipReader]

/-- `MemoryWorkspace.prepare_archive_restore`. -/
def prepareArchiveRestore (data : WorkspaceArchiveData) (requiredDirectory : SandboxPath) :
    Method RestoreCandidate := do
  let self ← get
  validatePath self.limits requiredDirectory
  require (data.formatVersion = FORMAT_VERSION) .snapshotIncompatibleError
    (py "archive format version " ++ Text.ofInt data.formatVersion ++ py " is unsupported")
  let decoded ← PortableWorkspaceArchiveCodec.decode data.encoded self.limits
  require (decoded.treeStats.rootHash = data.rootHash) .snapshotCorruptError
    (py "archive metadata root hash does not match decoded tree")
  prepareRestoreCandidate decoded.entries
    ⟨decoded.treeStats.totalBytes, decoded.treeStats.nodeCount, data.workspaceRevision,
      decoded.treeStats.rootHash⟩
    requiredDirectory

/-! ## Section 2: What is issued -/

/-- A candidate that `prepare_archive_restore` issues stands for the tree of
    the decoded entries, whose hash is the caller's. -/
theorem prepareArchiveRestore_outcome (w : MemoryWorkspace) (data : WorkspaceArchiveData)
    (requiredDirectory : SandboxPath) :
    Call.Outcome (prepareArchiveRestore data requiredDirectory) w fun candidate w' =>
      ∃ decoded state, PortableWorkspaceArchiveCodec.decode data.encoded w.limits = .ok decoded ∧
        rootFromEntries decoded.entries [] = .ok state.root ∧
        Flattened decoded.entries (FileTree.directory state.root).view ∧
        treeHash (.directory state.root) = some data.rootHash ∧
        state.stats = ⟨decoded.treeStats.totalBytes, decoded.treeStats.nodeCount,
          data.workspaceRevision, data.rootHash⟩ ∧
        Consistent w.limits state ∧
        candidate = .prepared w.restoreToken (.issued w.nextCapability) ∧
        w' = { w with
          restoreCandidates :=
            Dict.set w.nextCapability ⟨state, state.stats⟩ w.restoreCandidates
          nextCapability := w.nextCapability + 1 } := by
  unfold prepareArchiveRestore
  rw [Call.outcome_get_bind]
  refine Call.outcome_lift_bind fun _ _ => ?_
  refine Call.outcome_lift_bind fun _ _ => ?_
  refine Call.outcome_lift_bind fun decoded hdecoded => ?_
  refine Call.outcome_lift_bind fun _ hhash => ?_
  have hhash := require_eq_ok.mp hhash
  refine (prepareRestoreCandidate_outcome w _ _ _).mono fun candidate w' h => ?_
  obtain ⟨state, hcons, hstats, hbuilt, hcandidate, hw'⟩ := h
  obtain ⟨root, hwell, hroot, hflat, htree, -⟩ := (soundArchive_of_decode hdecoded).measured
  -- the entries are built into the tree that was measured
  have heq : root = state.root := Except.ok.inj (hroot.symm.trans hbuilt)
  subst heq
  refine ⟨decoded, state, hdecoded, hbuilt, hflat, ?_, ?_, hcons, hcandidate, hw'⟩
  · rw [htree, hhash]
  · rw [hstats, hhash]

/-- Whatever the readers deliver, what `decode` returns is a tree within the
    limits whose paths come from the names of members; and a candidate is
    issued only for that tree, under the hash that the caller gave. -/
theorem archive_sound (w : MemoryWorkspace) (data : WorkspaceArchiveData)
    (requiredDirectory : SandboxPath) :
    (∀ decoded, PortableWorkspaceArchiveCodec.decode data.encoded w.limits = .ok decoded →
      SoundArchive data.encoded w.limits decoded) ∧
    Call.Outcome (prepareArchiveRestore data requiredDirectory) w fun candidate w' =>
      ∃ decoded state, PortableWorkspaceArchiveCodec.decode data.encoded w.limits = .ok decoded ∧
        Flattened decoded.entries (FileTree.directory state.root).view ∧
        treeHash (.directory state.root) = some data.rootHash ∧
        state.stats.rootHash = data.rootHash ∧
        candidate = .prepared w.restoreToken (.issued w.nextCapability) ∧
        w' = { w with
          restoreCandidates :=
            Dict.set w.nextCapability ⟨state, state.stats⟩ w.restoreCandidates
          nextCapability := w.nextCapability + 1 } := by
  refine ⟨fun decoded h => soundArchive_of_decode h, ?_⟩
  refine (prepareArchiveRestore_outcome w data requiredDirectory).mono fun candidate w' h => ?_
  obtain ⟨decoded, state, hdecoded, -, hflat, htree, hstats, -, hcandidate, hw'⟩ := h
  exact ⟨decoded, state, hdecoded, hflat, htree, by rw [hstats], hcandidate, hw'⟩

end MemoryWorkspace
