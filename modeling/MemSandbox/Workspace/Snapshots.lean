import MemSandbox.Workspace.SnapshotCodec
import MemSandbox.Workspace.SnapshotEntries
import MemSandbox.Workspace.Runs

/-! # Export and restore

    `MemoryWorkspace.export` and `prepare_restore`.

    The result is `export_restore`: an exported workspace is restored into any
    workspace with the same limits, whatever that one holds. -/

open Python FileMap Node

/-! ## Section 1: The codec's documents -/

namespace JsonWorkspaceSnapshotCodec

theorem uniqueObject_go {rest result : List (Text × Json)}
    (h : ((result ++ rest).map Prod.fst).Nodup) :
    uniqueObject.go rest result = .ok (.dict (result ++ rest)) := by
  induction rest generalizing result with
  | nil => simp [uniqueObject.go]
  | cons item rest ih =>
    obtain ⟨key, value⟩ := item
    have hkey : key ∉ Dict.keys result := by
      intro hmem
      rw [List.map_append, List.nodup_append] at h
      exact h.2.2 key hmem key (by simp) rfl
    have hsplit : result ++ (key, value) :: rest = (result ++ [(key, value)]) ++ rest := by simp
    rw [hsplit] at h ⊢
    rw [uniqueObject.go, if_neg hkey, Dict.set_of_not_mem hkey]
    exact ih h

/-- `_unique_object` keeps the members of an object with distinct keys. -/
theorem reader_keepsDistinct [JsonRuntime] : reader.KeepsDistinct := fun _ h => uniqueObject_go h

theorem canonicalJson_eq_ok {value : Json} {bytes : Bytes} :
    canonicalJson value = .ok bytes ↔
      ∃ text, value.dumps = some text ∧ encodeUtf8 text = some bytes := by
  unfold canonicalJson
  cases hdumps : value.dumps with
  | none => simp [corrupt, raise]
  | some text =>
    cases hencode : encodeUtf8 text with
    | none => simp [hencode, corrupt, raise]
    | some bytes' => simp [hencode]

/-- What was printed canonically is read back. -/
theorem loadJsonObject_canonicalJson [JsonRuntime] {items : List (Text × Json)} {bytes : Bytes}
    (hreadable : Json.Readable JsonRuntime.maxDepth (.dict items))
    (h : canonicalJson (.dict items) = .ok bytes) : loadJsonObject bytes = .ok items := by
  obtain ⟨text, hdumps, hencode⟩ := canonicalJson_eq_ok.mp h
  have hloads := Json.loads_dumps reader_keepsDistinct hreadable hdumps
  simp only [loadJsonObject, decodeUtf8_encodeUtf8 hencode, hloads, rewrap, requireObject, bind,
    Except.bind]

variable [Sha256]

theorem serializeEntry_readable (entry : WorkspaceSnapshotEntry) :
    Json.Readable 1 (serializeEntry entry) := by
  unfold serializeEntry
  cases entry.entry with
  | directory =>
    apply Json.Readable.dict_of_keys [py "kind", py "path"] rfl (by decide)
    intro item hitem
    simp only [List.mem_cons, List.not_mem_nil, or_false] at hitem
    rcases hitem with rfl | rfl <;> exact .str _
  | file content =>
    apply Json.Readable.dict_of_keys
      [py "content_base64", py "content_hash", py "kind", py "path"] rfl (by decide)
    intro item hitem
    simp only [List.mem_cons, List.not_mem_nil, or_false] at hitem
    rcases hitem with rfl | rfl | rfl | rfl <;> exact .str _

theorem payloadOf_readable (entries : List WorkspaceSnapshotEntry) (stats : WorkspaceStats) :
    Json.Readable 3 (payloadOf entries stats) := by
  apply Json.Readable.dict_of_keys [py "entries", py "node_count", py "revision", py "root_hash",
    py "schema_version", py "total_bytes"] rfl (by decide)
  intro item hitem
  simp only [List.mem_cons, List.not_mem_nil, or_false] at hitem
  rcases hitem with rfl | rfl | rfl | rfl | rfl | rfl
  · apply Json.Readable.list
    intro value hvalue
    obtain ⟨entry, -, rfl⟩ := List.mem_map.mp hvalue
    exact serializeEntry_readable entry
  · exact .int _
  · exact .int _
  · exact .str _
  · exact .int _
  · exact .int _

/-- The envelope nests four deep: the payload, its entries, one entry. -/
theorem envelopeOf_readable (entries : List WorkspaceSnapshotEntry) (stats : WorkspaceStats)
    (digest : ContentHash) : Json.Readable 4 (envelopeOf (payloadOf entries stats) digest) := by
  apply Json.Readable.dict_of_keys [py "integrity", py "payload"] rfl (by decide)
  intro item hitem
  simp only [List.mem_cons, List.not_mem_nil, or_false] at hitem
  rcases hitem with rfl | rfl
  · apply Json.Readable.dict_of_keys [py "algorithm", py "digest"] rfl (by decide)
    intro item hitem
    simp only [List.mem_cons, List.not_mem_nil, or_false] at hitem
    rcases hitem with rfl | rfl <;> exact .str _
  · exact payloadOf_readable entries stats

/-! ## Section 2: Decoding undoes encoding -/

/-- What the entries of a snapshot satisfy under the limits. -/
structure Encodable (limits : WorkspaceLimits) (entry : WorkspaceSnapshotEntry) : Prop where
  value : entry.path.value ≠ []
  allows : limits.Allows entry.path.parts
  fileBytes_le : ∀ content, entry.entry = .file content → content.length ≤ limits.maxFileBytes

omit [Sha256] in
theorem requireExactKeys_of_keys {items : List (Text × Json)} {expected : List Text}
    (h : Dict.keys items = expected) (name : Text) :
    requireExactKeys items expected name = .ok () := by
  refine require_eq_ok.mpr ⟨?_, ?_⟩
  · exact fun key hkey => h ▸ hkey
  · exact fun key hkey => h ▸ hkey

omit [Sha256] in
theorem field_of_get? {items : List (Text × Json)} {key : Text} {value : Json}
    (h : Dict.get? key items = some value) : field items key = .ok value := by
  rw [field, h]

omit [Sha256] in
@[simp] theorem parseHash_value (hash : ContentHash) (name : Text) :
    parseHash (.str hash.value) name = .ok hash := by
  simp [parseHash, rewrap]

theorem decodeFileContent_serialized {limits : WorkspaceLimits} {content : Bytes}
    (hle : content.length ≤ limits.maxFileBytes) {item : List (Text × Json)}
    (hcontent : Dict.get? (py "content_base64") item = some (.str (Base64.encode content)))
    (hhash : Dict.get? (py "content_hash") item = some (.str (ContentHash.fromBytes content).value)) :
    decodeFileContent item limits = .ok content := by
  unfold decodeFileContent
  rw [Except.bind_eq_ok_iff]
  refine ⟨_, field_of_get? hcontent, ?_⟩
  simp only [Base64.decode_encode, Except.bind_eq_ok_iff]
  exact ⟨(), require_eq_ok.mpr hle, _, field_of_get? hhash, _, parseHash_value _ _, (),
    require_eq_ok.mpr rfl, trivial⟩

theorem decodeKind_serializeEntry {limits : WorkspaceLimits} {entry : WorkspaceSnapshotEntry}
    (h : Encodable limits entry) (totalBytes : Nat)
    (htotal : totalBytes + entry.size ≤ limits.maxTotalBytes) {item : List (Text × Json)}
    (hitem : serializeEntry entry = .dict item) :
    decodeKind item limits totalBytes = .ok (entry.entry, totalBytes + entry.size) := by
  unfold serializeEntry at hitem
  cases hentry : entry.entry with
  | directory =>
    have hsize : entry.size = 0 := by simp [WorkspaceSnapshotEntry.size, hentry]
    rw [hentry] at hitem
    simp only [Json.dict.injEq] at hitem
    have hkind : Dict.get? (py "kind") item = some (.str NodeKind.directory.value) := by
      rw [← hitem]
      rfl
    have hkeys : Dict.keys item = [py "kind", py "path"] := by
      rw [← hitem]
      rfl
    simp only [decodeKind, hkind, if_true, requireExactKeys_of_keys hkeys, hsize, bind,
      Except.bind, Nat.add_zero]
  | file content =>
    have hsize : entry.size = content.length := by simp [WorkspaceSnapshotEntry.size, hentry]
    have hle := h.fileBytes_le content hentry
    rw [hsize] at htotal
    rw [hentry] at hitem
    simp only [Json.dict.injEq] at hitem
    have hkind : Dict.get? (py "kind") item = some (.str NodeKind.file.value) := by
      rw [← hitem]
      rfl
    have hkeys : Dict.keys item =
        [py "content_base64", py "content_hash", py "kind", py "path"] := by
      rw [← hitem]
      rfl
    have hcontent : Dict.get? (py "content_base64") item =
        some (.str (Base64.encode content)) := by
      rw [← hitem]
      rfl
    have hhash : Dict.get? (py "content_hash") item =
        some (.str (ContentHash.fromBytes content).value) := by
      rw [← hitem]
      rfl
    have hne : ¬ NodeKind.file.value = NodeKind.directory.value :=
      NodeKind.value_injective.ne (by decide)
    simp only [decodeKind, hkind, if_neg hne, if_true, requireExactKeys_of_keys hkeys,
      decodeFileContent_serialized hle hcontent hhash, require, htotal, hsize, bind, Except.bind]

theorem serializeEntry_dict (entry : WorkspaceSnapshotEntry) :
    ∃ item, serializeEntry entry = .dict item ∧
      Dict.get? (py "path") item = some (.str entry.path.value) := by
  unfold serializeEntry
  cases entry.entry with
  | directory => exact ⟨_, rfl, rfl⟩
  | file content => exact ⟨_, rfl, rfl⟩

omit [Sha256] in
/-- A path within the limits is resolved from its text. -/
theorem resolvePath_value {limits : WorkspaceLimits} {path : SandboxPath} (hvalue : path.value ≠ [])
    (hallows : limits.Allows path.parts) (cwd : Option SandboxPath) :
    MemoryWorkspace.resolvePath limits path.value cwd = .ok path := by
  have hpos := limits.positive
  obtain ⟨hrender, hvalid⟩ := SandboxPath.value_eq_render hvalue
  unfold MemoryWorkspace.resolvePath
  rw [hrender, SandboxPath.resolve_render hvalid cwd (by omega) (by omega)]
  exact ⟨hallows, hrender⟩

/-- Serialized entries in order of their paths are decoded into themselves. -/
theorem decodeEntries_serialize {limits : WorkspaceLimits} {entries : List WorkspaceSnapshotEntry}
    (hencodable : ∀ entry ∈ entries, Encodable limits entry)
    (hsorted : entries.Pairwise fun a b => a.path.value < b.path.value)
    (previousPath : Option Text)
    (hprevious : ∀ previous ∈ previousPath, ∀ entry ∈ entries, previous < entry.path.value)
    (totalBytes : Nat)
    (htotal : totalBytes + (entries.map WorkspaceSnapshotEntry.size).sum ≤ limits.maxTotalBytes) :
    decodeEntries limits (fun value => MemoryWorkspace.resolvePath limits value none)
      (entries.map serializeEntry) previousPath totalBytes = .ok entries := by
  induction entries generalizing previousPath totalBytes with
  | nil => rfl
  | cons entry entries ih =>
    obtain ⟨hentry, hrest⟩ := List.forall_mem_cons.mp hencodable
    obtain ⟨hfirst, hsorted⟩ := List.pairwise_cons.mp hsorted
    rw [List.map_cons, List.sum_cons] at htotal
    obtain ⟨item, hitem, hpath⟩ := serializeEntry_dict entry
    have hkind := decodeKind_serializeEntry hentry totalBytes (by omega) hitem
    have hresolve := resolvePath_value hentry.value hentry.allows none
    have hbefore : ∀ previous ∈ previousPath, previous < entry.path.value :=
      fun previous hmem => hprevious previous hmem entry List.mem_cons_self
    have hdecode : decodePath item
        (fun value => MemoryWorkspace.resolvePath limits value none) previousPath =
        .ok entry.path := by
      simp only [decodePath, field_of_get? hpath, hresolve, rewrap, require, entry.not_root,
        if_true, if_pos hbefore, bind, Except.bind]
    have hnew : WorkspaceSnapshotEntry.new entry.path entry.entry = .ok entry := by
      simp only [WorkspaceSnapshotEntry.new, entry.not_root, dite_true]
    have hnext : ∀ previous ∈ some entry.path.value, ∀ next ∈ entries, previous < next.path.value := by
      intro previous hmem next hnext
      rw [Option.mem_some_iff] at hmem
      exact hmem ▸ hfirst next hnext
    have htail := ih hrest hsorted (some entry.path.value) hnext (totalBytes + entry.size) (by omega)
    rw [List.map_cons, hitem]
    simp only [decodeEntries, requireObject, hkind, hdecode, hnew, htail, bind, Except.bind]

/-- The members of an encoded payload. -/
theorem payloadOf_dict (entries : List WorkspaceSnapshotEntry) (stats : WorkspaceStats) :
    ∃ payload, payloadOf entries stats = .dict payload ∧
      Dict.keys payload = [py "entries", py "node_count", py "revision", py "root_hash",
        py "schema_version", py "total_bytes"] ∧
      Dict.get? (py "entries") payload =
        some (.list ((sorted (·.path.value) entries).map serializeEntry)) ∧
      Dict.get? (py "node_count") payload = some (.int stats.nodeCount) ∧
      Dict.get? (py "revision") payload = some (.int stats.revision) ∧
      Dict.get? (py "root_hash") payload = some (.str stats.rootHash.value) ∧
      Dict.get? (py "schema_version") payload = some (.int SCHEMA_VERSION) ∧
      Dict.get? (py "total_bytes") payload = some (.int stats.totalBytes) :=
  ⟨_, rfl, rfl, rfl, rfl, rfl, rfl, rfl, rfl⟩

omit [Sha256] in
/-- The members of an encoded envelope. -/
theorem envelopeOf_dict (payload : Json) (digest : ContentHash) :
    ∃ envelope integrity, envelopeOf payload digest = .dict envelope ∧
      Dict.keys envelope = [py "integrity", py "payload"] ∧
      Dict.get? (py "integrity") envelope = some (.dict integrity) ∧
      Dict.get? (py "payload") envelope = some payload ∧
      Dict.keys integrity = [py "algorithm", py "digest"] ∧
      Dict.get? (py "algorithm") integrity = some (.str (py "sha256")) ∧
      Dict.get? (py "digest") integrity = some (.str digest.value) :=
  ⟨_, _, rfl, rfl, rfl, rfl, rfl, rfl, rfl⟩

omit [Sha256] in
theorem requireInteger_nat (n : Nat) (name : Text) : requireInteger (.int n) name = .ok n := rfl

omit [Sha256] in
/-- The statistics of an encoded payload are decoded. -/
theorem decodeStats_encoded {payload : List (Text × Json)} {stats : WorkspaceStats}
    {data : WorkspaceSnapshotData} (hschema : data.schemaVersion = SCHEMA_VERSION)
    (hrevision : data.workspaceRevision = stats.revision) (hroot : data.rootHash = stats.rootHash)
    (hnodes : Dict.get? (py "node_count") payload = some (.int stats.nodeCount))
    (hrev : Dict.get? (py "revision") payload = some (.int stats.revision))
    (hhash : Dict.get? (py "root_hash") payload = some (.str stats.rootHash.value))
    (hversion : Dict.get? (py "schema_version") payload = some (.int SCHEMA_VERSION))
    (htotal : Dict.get? (py "total_bytes") payload = some (.int stats.totalBytes)) :
    decodeStats payload data = .ok stats := by
  simp only [decodeStats, Except.bind_eq_ok_iff, require_eq_ok]
  exact ⟨_, field_of_get? hversion, _, requireInteger_nat _ _, (), hschema, (), rfl,
    _, field_of_get? hrev, _, requireInteger_nat _ _, _, field_of_get? hhash,
    _, parseHash_value _ _, (), hrevision, (), hroot, _, field_of_get? htotal,
    _, requireInteger_nat _ _, _, field_of_get? hnodes, _, requireInteger_nat _ _, rfl⟩

omit [Sha256] in
/-- The integrity record of an encoded envelope is accepted. -/
theorem decodeIntegrity_encoded {envelope integrity : List (Text × Json)} {digest : ContentHash}
    {data : WorkspaceSnapshotData} (hdata : data.integrityHash = digest)
    (hintegrity : Dict.get? (py "integrity") envelope = some (.dict integrity))
    (hkeys : Dict.keys integrity = [py "algorithm", py "digest"])
    (halgorithm : Dict.get? (py "algorithm") integrity = some (.str (py "sha256")))
    (hdigest : Dict.get? (py "digest") integrity = some (.str digest.value)) :
    decodeIntegrity envelope data = .ok digest := by
  simp only [decodeIntegrity, Except.bind_eq_ok_iff]
  refine ⟨_, field_of_get? hintegrity, _, rfl, (), requireExactKeys_of_keys hkeys _,
    _, field_of_get? halgorithm, ?_⟩
  simp only [Except.bind_eq_ok_iff, require_eq_ok]
  exact ⟨(), trivial, _, field_of_get? hdigest, _, parseHash_value _ _, (), hdata, rfl⟩

/-- The tree that sorted entries describe is measured as the tree they come from. -/
theorem measureWorkspaceEntries_sorted {limits : WorkspaceLimits} {state : WorkspaceState}
    (hstate : MemoryWorkspace.Consistent limits state) {entries : List WorkspaceSnapshotEntry}
    (hflat : Flattened entries (FileTree.directory state.root).view)
    (hcount : entries.length + 1 = state.stats.nodeCount)
    (hsize : (entries.map WorkspaceSnapshotEntry.size).sum = state.stats.totalBytes) :
    measureWorkspaceEntries (sorted (·.path.value) entries) =
      .ok ⟨state.stats.totalBytes, state.stats.nodeCount, state.stats.rootHash⟩ := by
  obtain ⟨root', -, hadd, hview, hwell⟩ := build_sorted hstate.wellFormed hflat
  have hresort : sorted (·.path.value) (sorted (·.path.value) entries) =
      sorted (·.path.value) entries :=
    sorted_eq_self (hflat.sorted_lt.imp le_of_lt)
  have hsum : ((sorted (·.path.value) entries).map WorkspaceSnapshotEntry.size).sum =
      state.stats.totalBytes := by
    rw [← hsize]
    exact ((sorted_perm _ _).map _).sum_eq
  have hhash : treeNodeHash (.directory root') = .ok state.stats.rootHash := by
    have hspec := PostOrder.exec_spec hashWalk_meets hwell ()
    rw [treeHash_of_view hwell hstate.wellFormed hview, hstate.rootHash] at hspec
    unfold treeNodeHash
    cases hexec : hashWalk.exec () (FileTree.directory root') with
    | error e =>
      rw [hexec] at hspec
      cases hspec
    | ok hash =>
      rw [hexec] at hspec
      simp only [Except.toOption, Option.some.injEq] at hspec
      simp only [hexec, hspec]
  unfold measureWorkspaceEntries
  rw [hresort, hadd, hsum, length_sorted, hcount]
  simp only [hhash, bind, Except.bind]

/-- An encoded consistent state is decoded into its entries, sorted, and its statistics. -/
theorem decode_encode [JsonRuntime] (hdepth : 4 ≤ JsonRuntime.maxDepth) {limits : WorkspaceLimits}
    {state : WorkspaceState} (hstate : MemoryWorkspace.Consistent limits state)
    {entries : List WorkspaceSnapshotEntry}
    (hflat : Flattened entries (FileTree.directory state.root).view)
    (hcount : entries.length + 1 = state.stats.nodeCount)
    (hsize : (entries.map WorkspaceSnapshotEntry.size).sum = state.stats.totalBytes)
    {data : WorkspaceSnapshotData} (h : encode entries state.stats limits = .ok data) :
    decode data limits (fun value => MemoryWorkspace.resolvePath limits value none) =
      .ok ⟨sorted (·.path.value) entries, state.stats⟩ := by
  simp only [encode, Except.bind_eq_ok_iff, Except.ok.injEq] at h
  obtain ⟨payloadBytes, hpayloadBytes, encoded, hencoded, _, hlength, rfl⟩ := h
  obtain ⟨payload, hpayload, hkeys, hentries, hnodes, hrev, hroot, hversion, htotal⟩ :=
    payloadOf_dict entries state.stats
  obtain ⟨envelope, integrity, henvelope, hekeys, hintegrity, hepayload, hikeys, halgorithm,
    hdigest⟩ := envelopeOf_dict (payloadOf entries state.stats) (ContentHash.fromBytes payloadBytes)
  have hreadable := (envelopeOf_readable entries state.stats
    (ContentHash.fromBytes payloadBytes)).mono hdepth
  rw [henvelope] at hreadable hencoded
  rw [hpayload] at hepayload hpayloadBytes
  have hsorted := hflat.perm (sorted_perm (·.path.value) entries)
  have hencodable : ∀ entry ∈ sorted (·.path.value) entries, Encodable limits entry := by
    intro entry hentry
    have hmem : (entry.path.parts, entry.entry) ∈
        (sorted (·.path.value) entries).map WorkspaceSnapshotEntry.item :=
      List.mem_map_of_mem hentry
    have hview := ((hsorted.mem_iff _ _).mp hmem).2
    refine ⟨hsorted.value entry hentry, hstate.allows _ (by simp [hview]), ?_⟩
    intro content hcontent
    rw [hcontent] at hview
    exact hstate.fileBytes_le _ _ hview
  have hbytes : 0 + ((sorted (·.path.value) entries).map WorkspaceSnapshotEntry.size).sum ≤
      limits.maxTotalBytes := by
    have hperm := ((sorted_perm (·.path.value) entries).map WorkspaceSnapshotEntry.size).sum_eq
    have hle := hstate.totalBytes_le
    rw [← hsize] at hle
    omega
  have hdecoded := decodeEntries_serialize hencodable hflat.sorted_lt none (by simp) 0 hbytes
  have hlist : ((sorted (·.path.value) entries).map serializeEntry).length + 1 ≤ limits.maxNodes := by
    rw [List.length_map, length_sorted, hcount]
    exact hstate.nodeCount_le
  have htree : decodeTree payload limits
      (fun value => MemoryWorkspace.resolvePath limits value none) =
      .ok (sorted (·.path.value) entries) := by
    simp only [decodeTree, Except.bind_eq_ok_iff]
    refine ⟨_, field_of_get? hentries, ?_⟩
    simp only [Except.bind_eq_ok_iff, require_eq_ok]
    exact ⟨(), hlist, hdecoded⟩
  have hdecodePayload : decodePayload envelope (ContentHash.fromBytes payloadBytes) =
      .ok payload := by
    simp only [decodePayload, Except.bind_eq_ok_iff, require_eq_ok]
    exact ⟨_, field_of_get? hepayload, _, rfl, _, hpayloadBytes, (), rfl, (),
      requireExactKeys_of_keys hkeys _, rfl⟩
  simp only [decode, Except.bind_eq_ok_iff, require_eq_ok, Except.ok.injEq]
  exact ⟨(), hlength, _, loadJsonObject_canonicalJson hreadable hencoded, (),
    requireExactKeys_of_keys hekeys _, _, decodeIntegrity_encoded rfl hintegrity hikeys halgorithm
      hdigest, _, hdecodePayload, _, decodeStats_encoded rfl rfl rfl hnodes hrev hroot hversion
      htotal, _, htree, _, measureWorkspaceEntries_sorted hstate hflat hcount hsize,
    (), rfl, (), rfl, (), rfl, rfl⟩

end JsonWorkspaceSnapshotCodec

/-! ## Section 3: The methods -/

namespace MemoryWorkspace

variable [Sha256]

/-- `MemoryWorkspace.export`. -/
def «export» : Method WorkspaceSnapshotData := do
  let self ← get
  let entries ← snapshotEntries self.state.root .root self.limits
  JsonWorkspaceSnapshotCodec.encode entries self.state.stats self.limits

/-- `MemoryWorkspace.prepare_restore`. -/
def prepareRestore [JsonRuntime] (data : WorkspaceSnapshotData) (requiredDirectory : SandboxPath) :
    Method RestoreCandidate := do
  let self ← get
  validatePath self.limits requiredDirectory
  let decoded ← JsonWorkspaceSnapshotCodec.decode data self.limits fun value =>
    resolvePath self.limits value none
  prepareRestoreCandidate decoded.entries decoded.stats requiredDirectory

/-! ## Section 4: An export is restored -/

/-- The same tree and statistics as a consistent state: the same map, held by
    a well-formed tree. -/
structure SameState (state state' : WorkspaceState) : Prop where
  view : (FileTree.directory state'.root).view = (FileTree.directory state.root).view
  wellFormed : (FileTree.directory state'.root).WellFormed SandboxPath.ValidSegment
  stats : state'.stats = state.stats

/-- A state that is the same as a consistent one is consistent. -/
theorem Consistent.of_same {limits : WorkspaceLimits} {state state' : WorkspaceState}
    (h : Consistent limits state) (hsame : SameState state state') : Consistent limits state' where
  wellFormed := hsame.wellFormed
  totalBytes := by
    rw [hsame.stats, h.totalBytes]
    exact FileTree.total_eq_of_view h.wellFormed hsame.wellFormed hsame.view.symm _
  nodeCount := by
    rw [hsame.stats, h.nodeCount]
    exact FileTree.count_eq_of_view h.wellFormed hsame.wellFormed hsame.view.symm
  rootHash := by
    rw [hsame.stats, ← h.rootHash]
    exact treeHash_of_view hsame.wellFormed h.wellFormed hsame.view
  fileBytes_le := by
    intro p c hp
    rw [hsame.view] at hp
    exact h.fileBytes_le p c hp
  totalBytes_le := hsame.stats ▸ h.totalBytes_le
  nodeCount_le := hsame.stats ▸ h.nodeCount_le
  allows := by
    intro p hp
    rw [hsame.view] at hp
    exact h.allows p hp

/-- The entries of a consistent state are prepared, and required to have a
    directory that it has. -/
theorem prepareRestoreCandidate_flattened {w : MemoryWorkspace} {state : WorkspaceState}
    (h : Consistent w.limits state) {entries : List WorkspaceSnapshotEntry}
    (hflat : Flattened entries (FileTree.directory state.root).view)
    {requiredDirectory : SandboxPath}
    (hrequired : (FileTree.directory state.root).view requiredDirectory.parts = some .directory) :
    ∃ state', SameState state state' ∧
      prepareRestoreCandidate (sorted (·.path.value) entries) state.stats requiredDirectory w =
        (.ok (.prepared w.restoreToken (.issued w.nextCapability)),
          { w with
            restoreCandidates := Dict.set w.nextCapability ⟨state', state'.stats⟩ w.restoreCandidates
            nextCapability := w.nextCapability + 1 }) := by
  obtain ⟨root', hroot, -, hview, hwell⟩ := build_sorted h.wellFormed hflat
  have hsame : SameState state ⟨root', state.stats⟩ := ⟨hview, hwell, rfl⟩
  have hstate : stateForRoot w.limits root' state.stats.revision = .ok ⟨root', state.stats⟩ :=
    (stateForRoot_eq_ok (looseName_of_valid hwell)).mpr ⟨rfl, rfl, h.of_same hsame⟩
  rw [← hview] at hrequired
  obtain ⟨children, hchildren⟩ := FileTree.view_eq_directory_iff.mp hrequired
  have hnode : getNode root' requiredDirectory = .ok (.directory children) :=
    getNode_eq_ok_iff.mpr hchildren
  refine ⟨_, hsame, ?_⟩
  unfold prepareRestoreCandidate
  rw [Call.bind_of_ok (Call.get_apply w), Call.lift_bind_of_ok hroot, Call.lift_bind_of_ok hstate]
  apply (Call.lift_bind_of_ok (require_eq_ok (u := ()).mpr rfl)).trans
  exact (Call.lift_bind_of_ok hnode).trans rfl

/-- A candidate that was stored with a consistent state is committed. -/
theorem commitRestore_issued {w : MemoryWorkspace} {state : WorkspaceState}
    (h : Consistent w.limits state) {key : Nat}
    (hkey : Dict.get? key w.restoreCandidates = some ⟨state, state.stats⟩) :
    commitRestore (.prepared w.restoreToken (.issued key)) w =
      (.ok (), { w with state, restoreCandidates := Dict.erase key w.restoreCandidates }) := by
  have hdetached : detachedState w.limits ⟨state, state.stats⟩ = .ok state :=
    (detachedState_eq_ok h).mpr ⟨rfl, rfl⟩
  have hcheck : commitRestoreCheck (.prepared w.restoreToken (.issued key)) w =
      (.ok (.issued key), w) := by
    unfold commitRestoreCheck
    rw [Call.bind_of_ok (Call.get_apply w)]
    simp
  have htake : commitRestoreTake (.issued key) w =
      (.ok state, { w with restoreCandidates := Dict.erase key w.restoreCandidates }) := by
    unfold commitRestoreTake
    rw [Call.bind_of_ok (Call.get_apply w)]
    simp only [hkey]
    rw [Call.bind_of_ok (Call.set_apply _ _), hdetached]
    rfl
  unfold commitRestore
  rw [Call.bind_of_ok hcheck, Call.bind_of_ok htake]
  rfl

/-- What was exported from a consistent state is prepared and committed. -/
theorem restore_of_export [JsonRuntime] (hdepth : 4 ≤ JsonRuntime.maxDepth)
    {w other : MemoryWorkspace} (hconsistent : Consistent w.limits w.state)
    {data : WorkspaceSnapshotData} (hexport : («export» w).1 = .ok data)
    (hlimits : other.limits = w.limits) :
    ∃ candidate prepared committed,
      prepareRestore data .root other = (.ok candidate, prepared) ∧
      commitRestore candidate prepared = (.ok (), committed) ∧
      SameState w.state committed.state ∧ committed.limits = w.limits := by
  have hstate : Consistent other.limits w.state := hlimits ▸ hconsistent
  obtain ⟨entries, hentries, hflat, hcount, hsize⟩ := snapshotEntries_spec hstate
  have hencode : JsonWorkspaceSnapshotCodec.encode entries w.state.stats other.limits = .ok data := by
    unfold «export» at hexport
    rw [Call.bind_of_ok (Call.get_apply w), ← hlimits, Call.lift_bind_of_ok hentries] at hexport
    exact hexport
  have hdecode := JsonWorkspaceSnapshotCodec.decode_encode hdepth hstate hflat hcount hsize
    hencode
  have hroot : (FileTree.directory w.state.root).view SandboxPath.root.parts = some .directory := by
    rw [show SandboxPath.root.parts = [] by decide, FileTree.view_nil]
    rfl
  have hvalid : validatePath other.limits .root = .ok () :=
    validatePath_eq_ok.mpr ⟨by decide, other.limits.allows_root⟩
  obtain ⟨state', hsame, hprepare⟩ := prepareRestoreCandidate_flattened hstate hflat hroot
  have hcommit := commitRestore_issued (hstate.of_same hsame) (w := { other with
    restoreCandidates :=
      Dict.set other.nextCapability ⟨state', state'.stats⟩ other.restoreCandidates
    nextCapability := other.nextCapability + 1 }) (Dict.get?_set_self _ _ _)
  refine ⟨_, _, _, ?_, hcommit, hsame, hlimits⟩
  unfold prepareRestore
  rw [Call.bind_of_ok (Call.get_apply other), Call.lift_bind_of_ok hvalid,
    Call.lift_bind_of_ok hdecode]
  exact hprepare

end MemoryWorkspace

namespace NewWorkspace

/-- The default recursion limit.  No float occurs below. -/
scoped instance json : JsonRuntime where
  maxDepth := 1000
  floatText := id

end NewWorkspace

namespace MemoryWorkspace

open NewWorkspace in
theorem export_new : ∃ data, («export» (NewWorkspace.workspace .default)).1 = .ok data := by
  have hexport : («export» (NewWorkspace.workspace .default)).1.toOption.isSome = true := by
    decide +kernel
  cases hdata : («export» (NewWorkspace.workspace .default)).1 with
  | error e =>
    rw [hdata] at hexport
    cases hexport
  | ok data => exact ⟨data, rfl⟩

end MemoryWorkspace
