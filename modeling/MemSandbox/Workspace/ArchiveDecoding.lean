import MemSandbox.Workspace.ArchiveCodec
import MemSandbox.Workspace.SnapshotEntries

/-! # What decoding an archive returns

    `decode_sound`: whatever bytes an archive has and whatever the tar and
    gzip readers deliver, the entries that `decode` returns are a tree within
    the limits, sorted by path, and every path comes from a member's name.

    The loop over the members carries `Decoding`: each path has one entry,
    under that path, and lies above or at a member's name. -/

open Python Tar FileMap Node

namespace PortableWorkspaceArchiveCodec

/-! ## Section 1: One step of the loop -/

/-- The path is the root, or has a directory among the entries so far. -/
def HasDirectory (entries : List (SandboxPath × WorkspaceSnapshotEntry)) (p : List Text) : Prop :=
  p = [] ∨ ∃ item ∈ entries, item.1.parts = p ∧ item.2.entry = .directory

theorem HasDirectory.mono {entries entries' : List (SandboxPath × WorkspaceSnapshotEntry)}
    {p : List Text} (h : HasDirectory entries p) (hsub : entries ⊆ entries') :
    HasDirectory entries' p := by
  rcases h with hnil | ⟨item, hitem, hdir⟩
  · exact .inl hnil
  · exact .inr ⟨item, hsub hitem, hdir⟩

/-- The entries so far are keyed by their own proper paths, each of which is an
    ancestor of one of the names, or the name itself; and with a path its
    parent is there. -/
structure Decoding (Named : Text → Prop) (s : DecodeState) : Prop where
  unique : Dict.UniqueKeys s.entries
  keyed : ∀ item ∈ s.entries, item.2.path = item.1 ∧ item.1.value ≠ []
  named : ∀ item ∈ s.entries, ∃ name, Named name ∧ item.1.parts <+: split slash name
  closed : ∀ item ∈ s.entries, HasDirectory s.entries item.1.parts.dropLast

theorem Decoding.start {Named : Text → Prop} : Decoding Named .start where
  unique := Dict.uniqueKeys_nil
  keyed := by simp [DecodeState.start]
  named := by simp [DecodeState.start]
  closed := by simp [DecodeState.start]

theorem Decoding.of_entries {Named : Text → Prop} {s s' : DecodeState} (h : Decoding Named s)
    (heq : s'.entries = s.entries) : Decoding Named s' where
  unique := heq ▸ h.unique
  keyed := heq ▸ h.keyed
  named := heq ▸ h.named
  closed := heq ▸ h.closed

theorem new_eq_ok {path : SandboxPath} {value : Entry Bytes} {entry : WorkspaceSnapshotEntry} :
    WorkspaceSnapshotEntry.new path value = .ok entry ↔ entry.path = path ∧ entry.entry = value := by
  unfold WorkspaceSnapshotEntry.new
  by_cases h : path.isRoot = false
  · rw [dif_pos h, Except.ok.injEq]
    constructor
    · intro heq
      subst heq
      exact ⟨rfl, rfl⟩
    · intro heq
      obtain ⟨hpath, hvalue⟩ := heq
      obtain ⟨path', entry', hroot⟩ := entry
      simp only at hpath hvalue
      subst hpath
      subst hvalue
      rfl
  · rw [dif_neg h]
    constructor
    · intro heq
      exact absurd heq raise_ne_ok
    · intro heq
      exact absurd (heq.1 ▸ entry.not_root) h

/-- Assigning a new entry under its own path, when the path comes from a name
    and its parent is there. -/
theorem Decoding.set {Named : Text → Prop} {s : DecodeState} (h : Decoding Named s)
    {path : SandboxPath} {entry : WorkspaceSnapshotEntry} (hpath : entry.path = path)
    (hvalue : path.value ≠ []) (hname : ∃ name, Named name ∧ path.parts <+: split slash name)
    (hnew : Dict.get? path s.entries = none)
    (hparent : HasDirectory s.entries path.parts.dropLast) {s' : DecodeState}
    (hs' : s'.entries = Dict.set path entry s.entries) : Decoding Named s' := by
  have happend : s'.entries = s.entries ++ [(path, entry)] := by
    rw [hs', Dict.set_of_not_mem (Dict.get?_eq_none_iff.mp hnew)]
  have hsub : s.entries ⊆ s'.entries := by
    rw [happend]
    exact List.subset_append_left _ _
  have hcases : ∀ item ∈ s'.entries, item ∈ s.entries ∨ item = (path, entry) := by
    intro item hitem
    rw [happend] at hitem
    simpa using hitem
  refine ⟨?_, ?_, ?_, ?_⟩
  · rw [hs']
    exact Dict.uniqueKeys_set h.unique _ _
  · intro item hitem
    rcases hcases item hitem with hitem | rfl
    · exact h.keyed item hitem
    · exact ⟨hpath, hvalue⟩
  · intro item hitem
    rcases hcases item hitem with hitem | rfl
    · exact h.named item hitem
    · exact hname
  · intro item hitem
    rcases hcases item hitem with hitem | rfl
    · exact (h.closed item hitem).mono hsub
    · exact hparent.mono hsub

/-- A joined segment extends the path by it. -/
theorem join_segment {limits : WorkspaceLimits} {parent path : SandboxPath} {segment : Text}
    (hsegment : SandboxPath.ValidSegment segment)
    (h : parent.join segment limits.maxPathBytes limits.maxSegmentBytes = .ok path) :
    path.value ≠ [] ∧ path.parts = parent.parts ++ [segment] := by
  obtain ⟨-, -, -, hvalue, hparts⟩ := join_loose (.inr hsegment) h
  exact ⟨hvalue, hparts⟩

/-- The ancestors of a path are added.  The induction is on the segments that
    are left; the parent so far is a prefix of the name, and is there. -/
theorem ensureParents_decoding {Named : Text → Prop} {limits : WorkspaceLimits}
    {segments : List Text} {parent : SandboxPath} {s s' : DecodeState} (hs : Decoding Named s)
    (hsegments : ∀ segment ∈ segments, SandboxPath.ValidSegment segment)
    (hname : ∃ name, Named name ∧ parent.parts ++ segments <+: split slash name)
    (hparent : HasDirectory s.entries parent.parts)
    (h : ensureParents limits segments parent s = .ok s') :
    Decoding Named s' ∧ HasDirectory s'.entries (parent.parts ++ segments) := by
  induction segments generalizing parent s with
  | nil =>
    rw [ensureParents, Except.ok.injEq] at h
    subst h
    rw [List.append_nil]
    exact ⟨hs, hparent⟩
  | cons segment rest ih =>
    obtain ⟨hsegment, hrest⟩ := List.forall_mem_cons.mp hsegments
    simp only [ensureParents, Except.bind_eq_ok_iff] at h
    obtain ⟨next, hjoin, h⟩ := h
    obtain ⟨hvalue, hparts⟩ := join_segment hsegment hjoin
    have hsplit : parent.parts ++ segment :: rest = next.parts ++ rest := by
      rw [hparts, List.append_assoc]
      rfl
    rw [hsplit] at hname ⊢
    cases hget : Dict.get? next s.entries with
    | some existing =>
      simp only [hget, Except.bind_eq_ok_iff, requireSound_eq_ok, isDirectoryEntry,
        decide_eq_true_eq] at h
      obtain ⟨-, hdir, h⟩ := h
      exact ih hs hrest hname (.inr ⟨_, Dict.mem_of_get? hget, rfl, hdir⟩) h
    | none =>
      simp only [hget, Except.bind_eq_ok_iff] at h
      obtain ⟨retained, -, entry, hentry, -, -, h⟩ := h
      obtain ⟨hpath, hdir⟩ := new_eq_ok.mp hentry
      have hprefix : ∃ name, Named name ∧ next.parts <+: split slash name := by
        obtain ⟨name, hnamed, hprefix⟩ := hname
        exact ⟨name, hnamed, (List.prefix_append _ _).trans hprefix⟩
      have hdrop : HasDirectory s.entries next.parts.dropLast := by
        rw [hparts, List.dropLast_concat]
        exact hparent
      refine ih (hs.set hpath hvalue hprefix hget hdrop rfl) hrest hname ?_ h
      refine .inr ⟨(next, entry), ?_, rfl, hdir⟩
      exact Dict.mem_of_get? (Dict.get?_set_self _ _ _)

/-- A member whose path is there already leaves the entries alone. -/
theorem mergeExisting_entries {member : TarMember} {kind : NodeKind} {path : SandboxPath}
    {existing : WorkspaceSnapshotEntry} {s s' : DecodeState}
    (h : mergeExisting member kind path existing s = .ok s') : s'.entries = s.entries := by
  unfold mergeExisting at h
  split at h
  · simp only [Except.bind_eq_ok_iff, Except.ok.injEq] at h
    obtain ⟨-, -, rfl⟩ := h
    rfl
  · split at h
    · exact absurd h corrupt_ne_ok
    · exact absurd h corrupt_ne_ok

/-- A new member is assigned under its path. -/
theorem addMember_entries {member : TarMember} {kind : NodeKind} {path : SandboxPath}
    {limits : WorkspaceLimits} {s s' : DecodeState}
    (h : addMember member kind path s limits = .ok s') :
    ∃ entry : WorkspaceSnapshotEntry, entry.path = path ∧
      s'.entries = Dict.set path entry s.entries := by
  simp only [addMember, Except.bind_eq_ok_iff, Except.ok.injEq] at h
  obtain ⟨-, -, retained, -, ⟨value, totalBytes⟩, -, entry, hentry, -, -, rfl⟩ := h
  exact ⟨entry, (new_eq_ok.mp hentry).1, rfl⟩

/-- A member keeps the entries keyed by paths that come from names. -/
theorem decodeMember_decoding {Named : Text → Prop} {member : TarMember}
    {scanned : ScannedTarMember} {limits : WorkspaceLimits} {s s' : DecodeState}
    (hs : Decoding Named s)
    (hnamed : ∀ name, canonicalMemberName member.name member.isdir = .ok (some name) → Named name)
    (h : decodeMember member scanned s limits = .ok s') : Decoding Named s' := by
  simp only [decodeMember, Except.bind_eq_ok_iff, requireSound_eq_ok] at h
  obtain ⟨parsedName, hparsed, expectedName, hexpected, -, heq, found, hfound, h⟩ := h
  cases found with
  | none =>
    simp only [decodeRootMarker, Except.bind_eq_ok_iff, Except.ok.injEq] at h
    obtain ⟨-, -, -, -, rfl⟩ := h
    exact hs.of_entries rfl
  | some path =>
    obtain ⟨name, hname, hvalue, -⟩ := memberPath_eq_some.mp hfound
    have hportable := canonicalMemberName_portable hname
    have hparts := parts_of_memberPath hportable hvalue
    have hne : path.value ≠ [] := by
      rw [hvalue]
      exact SandboxPath.render_ne_nil _
    -- the two readers agree on the name
    have hmember : Named name := by
      apply hnamed
      rw [hparsed, heq, ← hexpected, hname]
    have hprefix : path.parts <+: split slash name := by
      rw [hparts]
    simp only [decodePathMember, ensureParentDirectories, Except.bind_eq_ok_iff] at h
    obtain ⟨s₁, hensure, kind, -, h⟩ := h
    obtain ⟨hs₁, hparent⟩ : Decoding Named s₁ ∧
        HasDirectory s₁.entries (SandboxPath.root.parts ++ path.parts.dropLast) := by
      refine ensureParents_decoding hs ?_ ⟨name, hmember, ?_⟩ (.inl SandboxPath.parts_root) hensure
      · intro segment hsegment
        rw [hparts] at hsegment
        exact (hportable.segments segment (List.dropLast_subset _ hsegment)).valid
      · rw [SandboxPath.parts_root, List.nil_append]
        exact (List.dropLast_prefix _).trans hprefix
    rw [SandboxPath.parts_root, List.nil_append] at hparent
    cases hget : Dict.get? path s₁.entries with
    | some existing =>
      simp only [hget] at h
      exact hs₁.of_entries (mergeExisting_entries h)
    | none =>
      simp only [hget] at h
      obtain ⟨entry, hpath, hentries⟩ := addMember_entries h
      exact hs₁.set hpath hne ⟨name, hmember, hprefix⟩ hget hparent hentries

/-- So do all members. -/
theorem decodeMembers_decoding {Named : Text → Prop} {limits : WorkspaceLimits}
    {members : List TarMember} {memberCount : Nat} {scannedMembers omitted : List ScannedTarMember}
    {s s' : DecodeState} (hs : Decoding Named s)
    (hnamed : ∀ member ∈ members, ∀ name,
      canonicalMemberName member.name member.isdir = .ok (some name) → Named name)
    (h : decodeMembers limits members memberCount scannedMembers s = .ok (omitted, s')) :
    Decoding Named s' := by
  induction members generalizing memberCount scannedMembers s with
  | nil =>
    simp only [decodeMembers, Except.ok.injEq, Prod.mk.injEq] at h
    exact h.2 ▸ hs
  | cons member rest ih =>
    obtain ⟨hmember, hrest⟩ := List.forall_mem_cons.mp hnamed
    simp only [decodeMembers, Except.bind_eq_ok_iff] at h
    obtain ⟨-, -, -, -, h⟩ := h
    cases scannedMembers with
    | nil => exact absurd h corrupt_ne_ok
    | cons scanned scannedMembers =>
      simp only [Except.bind_eq_ok_iff] at h
      obtain ⟨next, hstep, h⟩ := h
      exact ih (decodeMember_decoding hs hmember hstep) hrest h

/-! ## Section 2: The entries -/

/-- A canonical name that the tar reader gives to one of the members. -/
def EffectiveName [TarReader] (encoded : Bytes) (name : Text) : Prop :=
  ∃ member ∈ (TarReader.read encoded).1,
    canonicalMemberName member.name member.isdir = .ok (some name)

/-- Keyed entries, sorted by key, come in the order of their own paths. -/
theorem Decoding.sorted_lt {Named : Text → Prop} {s : DecodeState} (h : Decoding Named s) :
    ((sorted (·.1.value) s.entries).map Prod.snd).Pairwise
      fun a b => a.path.value < b.path.value := by
  have hnodup : (s.entries.map fun item => item.1.value).Nodup := by
    have hunique : (s.entries.map Prod.fst).Nodup := h.unique
    have hvalues := hunique.map (f := SandboxPath.value) fun _ _ heq => SandboxPath.ext_value heq
    rwa [List.map_map] at hvalues
  rw [List.pairwise_map]
  refine (sorted_pairwise_lt hnodup).imp_of_mem ?_
  intro a b ha hb hlt
  rw [(h.keyed a (mem_sorted.mp ha)).1, (h.keyed b (mem_sorted.mp hb)).1]
  exact hlt

/-- The entries that the members leave: sorted, with proper paths that come from
    names, and with the parents of all paths. -/
theorem decodeTar_spec [TarReader] {encoded : Bytes} {limits : WorkspaceLimits}
    {entries : List WorkspaceSnapshotEntry} (h : decodeTar encoded limits = .ok entries) :
    (entries.Pairwise fun a b => a.path.value < b.path.value) ∧
      ∀ entry ∈ entries, entry.path.value ≠ [] ∧
        (∃ name, EffectiveName encoded name ∧ entry.path.parts <+: split slash name) ∧
        (entry.path.parts.dropLast = [] ∨ ∃ parent ∈ entries,
          parent.path.parts = entry.path.parts.dropLast ∧ parent.entry = .directory) := by
  simp only [decodeTar, Except.bind_eq_ok_iff, rewrap_eq_ok, Except.ok.injEq] at h
  obtain ⟨scannedMembers, -, s, hread, rfl⟩ := h
  simp only [readMembers, Except.bind_eq_ok_iff, Except.ok.injEq] at hread
  obtain ⟨⟨omitted, s₁⟩, hmembers, offset, -, -, -, -, -, rfl⟩ := hread
  have hs : Decoding (EffectiveName encoded) s₁ :=
    decodeMembers_decoding .start (fun member hmember name hname => ⟨member, hmember, hname⟩) hmembers
  refine ⟨hs.sorted_lt, ?_⟩
  intro entry hentry
  obtain ⟨item, hitem, rfl⟩ := List.mem_map.mp hentry
  have hmem := mem_sorted.mp hitem
  obtain ⟨hpath, hvalue⟩ := hs.keyed item hmem
  rw [hpath]
  refine ⟨hvalue, hs.named item hmem, ?_⟩
  rcases hs.closed item hmem with hnil | ⟨parent, hparent, hparts, hdir⟩
  · exact .inl hnil
  · right
    refine ⟨parent.2, List.mem_map_of_mem (mem_sorted.mpr hparent), ?_, hdir⟩
    rw [(hs.keyed parent hparent).1]
    exact hparts

/-! ## Section 3: The limits -/

/-- An entry that the codec admits. -/
structure Admitted (limits : WorkspaceLimits) (entry : WorkspaceSnapshotEntry) : Prop where
  canonical : entry.path.value = SandboxPath.render entry.path.parts
  portable : PortableParts entry.path.parts
  pathBytes : FitsBytes limits.maxPathBytes entry.path.value
  segmentBytes : ∀ part ∈ entry.path.parts, FitsBytes limits.maxSegmentBytes part
  fileBytes : entry.size ≤ limits.maxFileBytes

theorem validateEntries_spec {limits : WorkspaceLimits} {entries : List WorkspaceSnapshotEntry}
    {u : Unit} (h : validateEntries limits entries = .ok u) :
    ∀ entry ∈ entries, Admitted limits entry := by
  induction entries with
  | nil => simp
  | cons entry rest ih =>
    simp only [validateEntries, validateEntryPathLimits, Except.bind_eq_ok_iff,
      requireSound_eq_ok, requireBounded_eq_ok] at h
    obtain ⟨portablePath, hmember, -, rfl, -, ⟨-, -, -, hpath, hsegments⟩, -, hsize, hrest⟩ := h
    obtain ⟨name, hname, hvalue, -⟩ := memberPath_eq_some.mp hmember
    have hportable := canonicalMemberName_portable hname
    have hparts := parts_of_memberPath hportable hvalue
    refine List.forall_mem_cons.mpr ⟨⟨?_, ?_, hpath, hsegments, hsize⟩, ih hrest⟩
    · rw [hparts, hvalue]
    · rw [hparts]
      exact hportable

theorem validateTreeLimits_spec {limits : WorkspaceLimits} {entries : List WorkspaceSnapshotEntry}
    {totalBytes : Nat} {u : Unit} (h : validateTreeLimits entries totalBytes limits = .ok u) :
    entries.length + 1 ≤ limits.maxNodes ∧ totalBytes ≤ limits.maxTotalBytes ∧
      ∀ entry ∈ entries, Admitted limits entry := by
  simp only [validateTreeLimits, Except.bind_eq_ok_iff, requireBounded_eq_ok] at h
  obtain ⟨-, hnodes, -, htotal, hentries⟩ := h
  exact ⟨hnodes, htotal, validateEntries_spec hentries⟩

/-! ## Section 4: What `decode` returns -/

variable [TarReader] [GzipReader] [Sha256]

/-- A decoded archive: a tree within the limits, and its measure. -/
structure SoundArchive (encoded : Bytes) (limits : WorkspaceLimits)
    (decoded : DecodedWorkspaceTree) : Prop where
  sorted : decoded.entries.Pairwise fun a b => a.path.value < b.path.value
  parents : ∀ entry ∈ decoded.entries, entry.path.parts.dropLast = [] ∨
    ∃ parent ∈ decoded.entries, parent.path.parts = entry.path.parts.dropLast ∧
      parent.entry = .directory
  admitted : ∀ entry ∈ decoded.entries, Admitted limits entry
  named : ∃ tarBytes, expandArchive encoded limits.maxSnapshotBytes = .ok tarBytes ∧
    ∀ entry ∈ decoded.entries, ∃ name, EffectiveName tarBytes name ∧
      entry.path.parts <+: split slash name
  totalBytes_le : (decoded.entries.map WorkspaceSnapshotEntry.size).sum ≤ limits.maxTotalBytes
  nodeCount_le : decoded.entries.length + 1 ≤ limits.maxNodes
  measured : ∃ root : DirectoryNode,
    (FileTree.directory root).WellFormed SandboxPath.ValidSegment ∧
    MemoryWorkspace.rootFromEntries decoded.entries [] = .ok root ∧
    Flattened decoded.entries (FileTree.directory root).view ∧
    treeHash (.directory root) = some decoded.treeStats.rootHash ∧
    decoded.treeStats.totalBytes = (FileTree.directory root).total List.length ∧
    decoded.treeStats.nodeCount = (FileTree.directory root).count

/-- Whatever `decode` returns is a sound archive. -/
theorem soundArchive_of_decode {encoded : Bytes} {limits : WorkspaceLimits}
    {decoded : DecodedWorkspaceTree} (h : decode encoded limits = .ok decoded) :
    SoundArchive encoded limits decoded := by
  simp only [decode, Except.bind_eq_ok_iff, Except.ok.injEq] at h
  obtain ⟨-, -, tarBytes, hexpand, entries, hentries, treeStats, hmeasure, u, hlimits, rfl⟩ := h
  obtain ⟨hsorted, hnamed⟩ := decodeTar_spec hentries
  obtain ⟨hnodes, htotal, hadmitted⟩ := validateTreeLimits_spec hlimits
  obtain ⟨root, hwell, hbuilt, hflat, hhash, hbytes, hcount⟩ :=
    measureWorkspaceEntries_spec (fun entry hentry => (hnamed entry hentry).1) hmeasure
  rw [sorted_eq_self (hsorted.imp le_of_lt)] at hbuilt
  refine ⟨hsorted, fun entry hentry => (hnamed entry hentry).2.2, hadmitted,
    ⟨tarBytes, hexpand, fun entry hentry => (hnamed entry hentry).2.1⟩, ?_, hnodes,
    ⟨root, hwell, hbuilt, hflat, hhash, hbytes, hcount⟩⟩
  show (entries.map WorkspaceSnapshotEntry.size).sum ≤ _
  rw [← hflat.total_eq hwell, ← hbytes]
  exact htotal

end PortableWorkspaceArchiveCodec
