import MemSandbox.Workspace.ArchiveRestores

/-! # Exports are canonical

    What a workspace exports depends on its path map, and for a snapshot on its
    revision: not on the order in which the children came into their
    directories, nor on anything else that the operations before left behind. -/

open Python FileMap Node

/-! ## Section 1: Entries of one map -/

/-- Entries that describe one map are the same once sorted. -/
theorem Flattened.sorted_eq {entries entries' : List WorkspaceSnapshotEntry} {m : View Text Bytes}
    (h : Flattened entries m) (h' : Flattened entries' m) :
    sorted (·.path.value) entries = sorted (·.path.value) entries' := by
  have hitem : ∀ entry : WorkspaceSnapshotEntry, entry.path.value ≠ [] →
      ∀ entry' : WorkspaceSnapshotEntry, entry'.path.value ≠ [] → entry.item = entry'.item →
        entry = entry' := by
    intro entry hentry entry' hentry' heq
    obtain ⟨hparts, hkind⟩ := Prod.mk.inj heq
    apply WorkspaceSnapshotEntry.ext_value _ hkind
    rw [(SandboxPath.value_eq_render hentry).1, (SandboxPath.value_eq_render hentry').1, hparts]
  have hsub : ∀ {entries entries' : List WorkspaceSnapshotEntry}, Flattened entries m →
      Flattened entries' m → ∀ entry ∈ entries, entry ∈ entries' := by
    intro entries entries' h h' entry hentry
    obtain ⟨entry', hentry', heq⟩ := List.mem_map.mp
      ((h'.mem_iff _ _).mpr ((h.mem_iff _ _).mp (List.mem_map_of_mem hentry)))
    rw [hitem entry (h.value entry hentry) entry' (h'.value entry' hentry') heq.symm]
    exact hentry'
  have hperm : entries.Perm entries' := by
    rw [List.perm_ext_iff_of_nodup (h.nodup_value.of_map _) (h'.nodup_value.of_map _)]
    exact fun entry => ⟨hsub h h' entry, hsub h' h entry⟩
  refine sorted_eq_of_perm ?_ hperm
  intro a ha b hb heq
  exact List.inj_on_of_nodup_map h.nodup_value ha hb heq

/-- Entries describe one tree only. -/
theorem Flattened.view_eq {entries : List WorkspaceSnapshotEntry} {root root' : DirectoryNode}
    (h : Flattened entries (FileTree.directory root).view)
    (h' : Flattened entries (FileTree.directory root').view) :
    (FileTree.directory root).view = (FileTree.directory root').view := by
  funext p
  by_cases hp : p = []
  · subst hp
    simp
  · ext e
    have hmem := h.mem_iff p e
    rw [h'.mem_iff p e] at hmem
    simpa [hp] using hmem.symm

namespace MemoryWorkspace

variable [Sha256]

/-- Consistent states of one map and one revision have the same statistics. -/
theorem Consistent.stats_eq {limits : WorkspaceLimits} {state state' : WorkspaceState}
    (h : Consistent limits state) (h' : Consistent limits state')
    (hview : (FileTree.directory state.root).view = (FileTree.directory state'.root).view)
    (hrevision : state.stats.revision = state'.stats.revision) : state.stats = state'.stats := by
  have htotal : state.stats.totalBytes = state'.stats.totalBytes := by
    rw [h.totalBytes, h'.totalBytes]
    exact FileTree.total_eq_of_view h.wellFormed h'.wellFormed hview _
  have hcount : state.stats.nodeCount = state'.stats.nodeCount := by
    rw [h.nodeCount, h'.nodeCount]
    exact FileTree.count_eq_of_view h.wellFormed h'.wellFormed hview
  have hhash : state.stats.rootHash = state'.stats.rootHash := by
    have heq := treeHash_of_view h.wellFormed h'.wellFormed hview
    rw [h.rootHash, h'.rootHash] at heq
    exact Option.some.inj heq
  calc state.stats = ⟨state.stats.totalBytes, state.stats.nodeCount, state.stats.revision,
        state.stats.rootHash⟩ := rfl
    _ = state'.stats := by rw [htotal, hcount, hrevision, hhash]

/-! ## Section 2: What is exported -/

/-- An export of a consistent state encodes the description of its map. -/
theorem export_eq {w : MemoryWorkspace} (h : Consistent w.limits w.state) :
    ∃ entries, Flattened entries w.view ∧
      entries.length + 1 = w.state.stats.nodeCount ∧
      (entries.map WorkspaceSnapshotEntry.size).sum = w.state.stats.totalBytes ∧
      («export» w).1 = JsonWorkspaceSnapshotCodec.encode entries w.state.stats w.limits ∧
      (exportPortableArchive w).1 =
        (PortableWorkspaceArchiveCodec.encode entries w.limits).map fun encoded =>
          ⟨encoded, PortableWorkspaceArchiveCodec.FORMAT_VERSION, w.state.stats.revision,
            w.state.stats.rootHash⟩ := by
  obtain ⟨entries, hentries, hflat, hcount, hsize⟩ := snapshotEntries_spec h
  refine ⟨entries, hflat, hcount, hsize, ?_, ?_⟩
  · unfold «export»
    rw [Call.bind_of_ok (Call.get_apply w), Call.lift_bind_of_ok hentries]
    rfl
  · unfold exportPortableArchive
    rw [Call.bind_of_ok (Call.get_apply w), Call.lift_bind_of_ok hentries, Call.lift_bind_apply]
    cases PortableWorkspaceArchiveCodec.encode entries w.limits <;> rfl

/-- Both encoders sort first. -/
theorem encode_congr {entries entries' : List WorkspaceSnapshotEntry} {limits : WorkspaceLimits}
    (h : sorted (·.path.value) entries = sorted (·.path.value) entries') :
    PortableWorkspaceArchiveCodec.encode entries limits =
        PortableWorkspaceArchiveCodec.encode entries' limits ∧
      ∀ stats, JsonWorkspaceSnapshotCodec.encode entries stats limits =
        JsonWorkspaceSnapshotCodec.encode entries' stats limits := by
  constructor
  · unfold PortableWorkspaceArchiveCodec.encode
    rw [h]
  · intro stats
    unfold JsonWorkspaceSnapshotCodec.encode JsonWorkspaceSnapshotCodec.payloadOf
    rw [h]

/-- States of one map export the same archive, or fail alike. -/
theorem archive_eq_of_view {w w' : MemoryWorkspace} (h : Consistent w.limits w.state)
    (h' : Consistent w'.limits w'.state) (hlimits : w.limits = w'.limits)
    (hview : w.view = w'.view) :
    (exportPortableArchive w).1.map WorkspaceArchiveData.encoded =
      (exportPortableArchive w').1.map WorkspaceArchiveData.encoded := by
  obtain ⟨entries, hflat, -, -, -, harchive⟩ := export_eq h
  obtain ⟨entries', hflat', -, -, -, harchive'⟩ := export_eq h'
  rw [← hview] at hflat'
  rw [harchive, harchive', ← hlimits, (encode_congr (hflat.sorted_eq hflat')).1]
  cases PortableWorkspaceArchiveCodec.encode entries' w.limits <;> rfl

/-- States of one map and one revision export the same snapshot, or fail alike. -/
theorem export_eq_of_view {w w' : MemoryWorkspace} (h : Consistent w.limits w.state)
    (h' : Consistent w'.limits w'.state) (hlimits : w.limits = w'.limits)
    (hview : w.view = w'.view) (hrevision : w.state.stats.revision = w'.state.stats.revision) :
    («export» w).1 = («export» w').1 := by
  obtain ⟨entries, hflat, -, -, hexport, -⟩ := export_eq h
  obtain ⟨entries', hflat', -, -, hexport', -⟩ := export_eq h'
  have hstats : w.state.stats = w'.state.stats :=
    h.stats_eq (hlimits ▸ h') hview hrevision
  rw [← hview] at hflat'
  rw [hexport, hexport', ← hlimits, (encode_congr (hflat.sorted_eq hflat')).2, hstats]

end MemoryWorkspace

/-! ## Section 3: What the bytes tell -/

namespace JsonWorkspaceSnapshotCodec

variable [Sha256]

/-- A canonical envelope is read back, so equal bytes are equal envelopes. -/
theorem envelope_eq_of_encoded {entries entries' : List WorkspaceSnapshotEntry}
    {stats stats' : WorkspaceStats} {digest digest' : ContentHash} {encoded : Bytes}
    (h : canonicalJson (envelopeOf (payloadOf entries stats) digest) = .ok encoded)
    (h' : canonicalJson (envelopeOf (payloadOf entries' stats') digest') = .ok encoded) :
    envelopeOf (payloadOf entries stats) digest =
      envelopeOf (payloadOf entries' stats') digest' := by
  -- the depth of the reader does not matter, as long as it takes the four levels
  let _ : JsonRuntime := NewWorkspace.json
  have hdepth : 4 ≤ JsonRuntime.maxDepth := by decide
  obtain ⟨envelope, -, henvelope, -⟩ := envelopeOf_dict (payloadOf entries stats) digest
  obtain ⟨envelope', -, henvelope', -⟩ := envelopeOf_dict (payloadOf entries' stats') digest'
  have hreadable := (envelopeOf_readable entries stats digest).mono hdepth
  have hreadable' := (envelopeOf_readable entries' stats' digest').mono hdepth
  rw [henvelope] at h hreadable
  rw [henvelope'] at h' hreadable'
  have hload := loadJsonObject_canonicalJson hreadable h
  rw [loadJsonObject_canonicalJson hreadable' h', Except.ok.injEq] at hload
  rw [henvelope, henvelope', hload]

/-- The encoded bytes carry the statistics and the rest of the metadata. -/
theorem data_eq_of_encoded {entries entries' : List WorkspaceSnapshotEntry}
    {stats stats' : WorkspaceStats} {limits : WorkspaceLimits} {data data' : WorkspaceSnapshotData}
    (h : encode entries stats limits = .ok data) (h' : encode entries' stats' limits = .ok data')
    (heq : data.encoded = data'.encoded) : data = data' ∧ stats = stats' := by
  simp only [encode, Except.bind_eq_ok_iff, Except.ok.injEq] at h h'
  obtain ⟨payloadBytes, hpayload, encoded, hencoded, _, -, rfl⟩ := h
  obtain ⟨payloadBytes', hpayload', encoded', hencoded', _, -, rfl⟩ := h'
  obtain rfl : encoded = encoded' := heq
  have henvelope := envelope_eq_of_encoded hencoded hencoded'
  have hsame : payloadOf entries stats = payloadOf entries' stats' := by
    simp only [envelopeOf, Json.dict.injEq, List.cons.injEq, Prod.mk.injEq] at henvelope
    exact henvelope.2.1.2
  have hstats : stats = stats' := by
    simp only [payloadOf, Json.dict.injEq, List.cons.injEq, Prod.mk.injEq, Json.int.injEq,
      Json.str.injEq, true_and, and_true, Nat.cast_inj] at hsame
    obtain ⟨-, hnodes, hrevision, hhash, htotal⟩ := hsame
    obtain ⟨totalBytes, nodeCount, revision, ⟨value, _, _⟩⟩ := stats
    obtain ⟨totalBytes', nodeCount', revision', ⟨value', _, _⟩⟩ := stats'
    simp only at hnodes hrevision hhash htotal
    subst hnodes hrevision hhash htotal
    rfl
  subst hstats
  rw [hsame, hpayload', Except.ok.injEq] at hpayload
  subst hpayload
  exact ⟨rfl, rfl⟩

end JsonWorkspaceSnapshotCodec

namespace MemoryWorkspace

variable [Sha256]

/-- Snapshots with the same bytes are of the same map and revision. -/
theorem view_eq_of_encoded {w w' : MemoryWorkspace} (h : Consistent w.limits w.state)
    (h' : Consistent w'.limits w'.state) (hlimits : w.limits = w'.limits)
    {data data' : WorkspaceSnapshotData} (hexport : («export» w).1 = .ok data)
    (hexport' : («export» w').1 = .ok data') (heq : data.encoded = data'.encoded) :
    w.view = w'.view ∧ w.state.stats.revision = w'.state.stats.revision := by
  let _ : JsonRuntime := NewWorkspace.json
  have hdepth : 4 ≤ JsonRuntime.maxDepth := by decide
  obtain ⟨entries, hflat, hcount, hsize, hencode, -⟩ := export_eq h
  obtain ⟨entries', hflat', hcount', hsize', hencode', -⟩ := export_eq h'
  rw [hencode] at hexport
  rw [hencode', ← hlimits] at hexport'
  rw [← hlimits] at h'
  obtain ⟨rfl, hstats⟩ := JsonWorkspaceSnapshotCodec.data_eq_of_encoded hexport hexport' heq
  have hdecode := JsonWorkspaceSnapshotCodec.decode_encode hdepth h hflat hcount hsize hexport
  rw [JsonWorkspaceSnapshotCodec.decode_encode hdepth h' hflat' hcount' hsize' hexport',
    Except.ok.injEq] at hdecode
  have hsorted : sorted (·.path.value) entries' = sorted (·.path.value) entries :=
    congrArg DecodedWorkspaceSnapshot.entries hdecode
  have hdescribe := hflat'.perm (sorted_perm (·.path.value) entries')
  rw [hsorted] at hdescribe
  refine ⟨(hflat.perm (sorted_perm _ _)).view_eq hdescribe, ?_⟩
  rw [hstats]

/-! ## Section 4: Restored archives -/

open PortableWorkspaceArchiveCodec (TarReader GzipReader)

section Archives

variable [TarReader] [GzipReader]

/-- An archive that a workspace takes back is committed with the revision and
    the root hash of the export; so, unless two of the byte strings hashed for
    the two trees collide, it has the exported tree. -/
theorem restore_of_archive {w other : MemoryWorkspace} (h : Consistent w.limits w.state)
    (hlimits : other.limits = w.limits) {archive : WorkspaceArchiveData}
    (hexport : (exportPortableArchive w).1 = .ok archive) {requiredDirectory : SandboxPath}
    {candidate : RestoreCandidate} {prepared : MemoryWorkspace}
    (hprepare : prepareArchiveRestore archive requiredDirectory other = (.ok candidate, prepared)) :
    ∃ committed, commitRestore candidate prepared = (.ok (), committed) ∧
      committed.limits = w.limits ∧ Consistent committed.limits committed.state ∧
      committed.state.stats.revision = w.state.stats.revision ∧
      (CollisionFree (.directory committed.state.root) (.directory w.state.root) →
        committed.view = w.view) := by
  obtain ⟨entries, -, -, -, -, harchive⟩ := export_eq h
  rw [harchive] at hexport
  cases hencode : PortableWorkspaceArchiveCodec.encode entries w.limits with
  | error e =>
    rw [hencode] at hexport
    cases hexport
  | ok encoded =>
    rw [hencode] at hexport
    obtain rfl := Except.ok.inj hexport
    obtain ⟨decoded, state, -, -, -, hhash, hstats, hconsistent, rfl, rfl⟩ :=
      (prepareArchiveRestore_outcome other _ requiredDirectory).of_eq_ok hprepare
    have hcommit := commitRestore_issued hconsistent (w := { other with
      restoreCandidates := Dict.set other.nextCapability ⟨state, state.stats⟩ other.restoreCandidates
      nextCapability := other.nextCapability + 1 }) (Dict.get?_set_self _ _ _)
    refine ⟨_, hcommit, hlimits, hconsistent, ?_, ?_⟩
    · show state.stats.revision = w.state.stats.revision
      rw [hstats]
    · intro hfree
      exact view_of_treeHash hconsistent.wellFormed h.wellFormed hfree rfl hhash h.rootHash

end Archives

/-! ## Section 5: Every run -/

variable [UnicodeData]

end MemoryWorkspace

namespace MemoryWorkspace

end MemoryWorkspace
