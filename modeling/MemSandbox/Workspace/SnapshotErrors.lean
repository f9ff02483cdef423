import MemSandbox.Workspace.Snapshots

/-! # Which exceptions leave the workspace snapshot decoder

    Every field that `JsonWorkspaceSnapshotCodec.decode` reads is checked, and
    a failed check is one of the three snapshot errors.  Three exceptions have
    no handler: the `ValueError` and the `RecursionError` of `json.loads`, and
    the `OverflowError` of a segment whose length does not take four bytes.
    `decode_fails_iff` says when one of them leaves it. -/

open Python FileMap Node

/-! ## Section 1: Paths and documents -/

theorem SandboxPath.resolve_raises {P : ErrorClass → Prop} (hinvalid : P .invalidPathError)
    (houtside : P .pathOutsideWorkspaceError) (hvalue : P .valueError) (value : Text)
    (cwd : Option SandboxPath) (maxPathBytes maxSegmentBytes : Nat) :
    Raises P (resolve value cwd maxPathBytes maxSegmentBytes) := by
  have hlength : ∀ name value, Raises P (utf8LengthOf name value) := by
    intro name value
    unfold utf8LengthOf
    split
    · exact .ok
    · exact Raises.raise_iff.mpr hinvalid
  have happend : ∀ segments parts, Raises P (appendSegments segments parts) := by
    intro segments
    induction segments with
    | nil => exact fun _ => .ok
    | cons segment rest ih =>
      intro parts
      unfold appendSegments
      split
      · exact ih _
      · split
        · exact Raises.raise_iff.mpr hinvalid
        · split
          · exact Raises.raise_iff.mpr hinvalid
          · exact ih _
  have hcheck : ∀ segments, Raises P (checkSegments maxSegmentBytes segments) := by
    intro segments
    induction segments with
    | nil => exact .ok
    | cons segment rest ih =>
      unfold checkSegments
      apply (hlength _ _).bind
      intro _ _
      exact (Raises.of_require hinvalid).bind fun _ _ => ih
  have hstart : Raises P (startParts value cwd) := by
    unfold startParts
    split
    · exact .ok
    · split
      · exact Raises.raise_iff.mpr hinvalid
      · exact .ok
  unfold resolve
  apply (Raises.of_require hinvalid).bind
  intro _ _
  apply (Raises.of_require hinvalid).bind
  intro _ _
  apply (Raises.of_require hvalue).bind
  intro _ _
  apply (Raises.of_require hvalue).bind
  intro _ _
  apply hstart.bind
  intro start _
  apply (happend _ _).bind
  intro parts _
  unfold ofParts
  apply (Raises.of_require houtside).bind
  intro _ _
  apply (Raises.of_require houtside).bind
  intro _ _
  apply (hcheck _).bind
  intro _ _
  apply (hlength _ _).bind
  intro _ _
  apply (Raises.of_require hinvalid).bind
  intro _ _
  unfold new
  split
  · exact .ok
  · exact Raises.raise_iff.mpr hinvalid

theorem ContentHash.new_raises {P : ErrorClass → Prop} (h : P .valueError) (value : Text) :
    Raises P (ContentHash.new value) := by
  unfold ContentHash.new
  split
  · exact .ok
  · exact Raises.raise_iff.mpr h

namespace JsonWorkspaceSnapshotCodec

/-- The errors that a caller of `decode` is told of. -/
def SnapshotError (cls : ErrorClass) : Prop :=
  cls = .snapshotCorruptError ∨ cls = .snapshotIncompatibleError ∨ cls = .snapshotTooLargeError

theorem snapshotError_corrupt : SnapshotError .snapshotCorruptError := .inl rfl

theorem snapshotError_tooLarge : SnapshotError .snapshotTooLargeError := .inr (.inr rfl)

theorem raises_corrupt {message : Text} : Raises SnapshotError (corrupt message : Except PyError α) :=
  Raises.raise_iff.mpr snapshotError_corrupt

/-- The JSON reader meets an integer of more than 4300 digits, or nests deeper
    than the interpreter goes, before anything else is wrong. -/
def ReaderFails [JsonRuntime] (encoded : Bytes) : Prop :=
  ∃ text, decodeUtf8 encoded = some text ∧
    ((∃ digits, Json.loads reader text = .error (reader.tooLong digits)) ∨
      Json.loads reader text = .error reader.tooDeep)

/-- What the JSON reader raises: what `_load_json_object` catches, and the two
    exceptions it does not. -/
theorem loads_raises [JsonRuntime] {t : Text} {e : PyError} (h : Json.loads reader t = .error e) :
    isJsonError e.cls = true ∨ (∃ digits, e = reader.tooLong digits) ∨ e = reader.tooDeep := by
  refine (Json.loads_makes (E := fun e => isJsonError e.cls = true ∨
    (∃ digits, e = reader.tooLong digits) ∨ e = reader.tooDeep) (V := fun _ => True) ?_ t).2 e h
  refine ⟨.inl rfl, fun digits => .inr (.inl ⟨digits, rfl⟩), .inr (.inr rfl), trivial,
    fun _ => trivial, fun _ => trivial, fun _ => trivial, fun _ => trivial, fun _ _ => trivial, ?_⟩
  intro items _
  refine ⟨fun _ _ => trivial, ?_⟩
  have hgo : ∀ (rest result : List (Text × Json)) (e : PyError),
      uniqueObject.go rest result = .error e → isJsonError e.cls = true := by
    intro rest
    induction rest with
    | nil =>
      intro result e he
      rw [uniqueObject.go] at he
      cases he
    | cons item rest ih =>
      intro result e he
      obtain ⟨key, value⟩ := item
      rw [uniqueObject.go] at he
      by_cases hkey : key ∈ Dict.keys result
      · rw [if_pos hkey] at he
        rw [← Except.error.inj he]
        rfl
      · rw [if_neg hkey] at he
        exact ih _ e he
  exact fun e he => .inl (hgo items [] e he)

theorem requireObject_raises (value : Json) (name : Text) :
    Raises SnapshotError (requireObject value name) := by
  unfold requireObject
  split
  · exact .ok
  · exact raises_corrupt

/-- `_load_json_object` raises a snapshot error, unless the reader fails. -/
theorem loadJsonObject_raises [JsonRuntime] {encoded : Bytes} (h : ¬ ReaderFails encoded) :
    Raises SnapshotError (loadJsonObject encoded) := by
  unfold loadJsonObject
  simp only []
  split
  · exact raises_corrupt
  · next text hdecode =>
    apply Raises.bind
    · apply Raises.of_rewrap snapshotError_corrupt
      refine ⟨fun e he => ?_⟩
      rcases loads_raises he with hjson | ⟨digits, rfl⟩ | rfl
      · exact .inl hjson
      · exact absurd ⟨text, hdecode, .inl ⟨digits, he⟩⟩ h
      · exact absurd ⟨text, hdecode, .inr he⟩ h
    · exact fun value _ => requireObject_raises value _

/-- Where the reader fails, its exception goes through. -/
theorem loadJsonObject_of_readerFails [JsonRuntime] {encoded : Bytes} (h : ReaderFails encoded) :
    ∃ e, loadJsonObject encoded = .error e ∧ ¬ SnapshotError e.cls := by
  obtain ⟨text, hdecode, hfails⟩ := h
  rcases hfails with ⟨digits, hloads⟩ | hloads
  · refine ⟨reader.tooLong digits, ?_, by simp [SnapshotError, reader]⟩
    simp only [loadJsonObject, hdecode, hloads]
    rfl
  · refine ⟨reader.tooDeep, ?_, by simp [SnapshotError, reader]⟩
    simp only [loadJsonObject, hdecode, hloads]
    rfl

/-! ## Section 2: Fields -/

theorem requireExactKeys_raises (value : List (Text × Json)) (expected : List Text) (name : Text) :
    Raises SnapshotError (requireExactKeys value expected name) :=
  Raises.of_require snapshotError_corrupt

theorem requireInteger_raises (value : Json) (name : Text) :
    Raises SnapshotError (requireInteger value name) := by
  unfold requireInteger
  split
  · exact .ok
  · exact raises_corrupt

theorem parseHash_raises (value : Json) (name : Text) :
    Raises SnapshotError (parseHash value name) := by
  unfold parseHash
  split
  · exact Raises.of_rewrap snapshotError_corrupt (ContentHash.new_raises (.inl rfl) _)
  · exact raises_corrupt

/-- A field whose presence has been checked is there. -/
theorem field_raises {items : List (Text × Json)} {expected : List Text} {name : Text} {u : Unit}
    (hkeys : requireExactKeys items expected name = .ok u) {key : Text} (hkey : key ∈ expected) :
    Raises SnapshotError (field items key) := by
  have hmem := (require_eq_ok.mp hkeys).2 key hkey
  unfold field
  cases hget : Dict.get? key items with
  | some value => exact .ok
  | none => exact absurd hmem (Dict.get?_eq_none_iff.mp hget)

/-! ## Section 3: Entries -/

section Entries

variable [Sha256]

theorem decodeFileContent_raises {item : List (Text × Json)} {expected : List Text} {name : Text}
    {u : Unit} (hkeys : requireExactKeys item expected name = .ok u)
    (hcontent : py "content_base64" ∈ expected) (hhash : py "content_hash" ∈ expected)
    (limits : WorkspaceLimits) : Raises SnapshotError (decodeFileContent item limits) := by
  unfold decodeFileContent
  apply (field_raises hkeys hcontent).bind
  intro value _
  split
  · split
    · exact raises_corrupt
    · apply (Raises.of_require snapshotError_tooLarge).bind
      intro _ _
      apply (field_raises hkeys hhash).bind
      intro declared _
      apply (parseHash_raises _ _).bind
      intro hash _
      exact (Raises.of_require snapshotError_corrupt).bind fun _ _ => .ok
  · exact raises_corrupt

/-- The kind of an entry decides its keys, so the path is among them. -/
theorem decodeKind_raises (item : List (Text × Json)) (limits : WorkspaceLimits)
    (totalBytes : Nat) : Raises SnapshotError (decodeKind item limits totalBytes) ∧
      ∀ result, decodeKind item limits totalBytes = .ok result →
        Raises SnapshotError (field item (py "path")) := by
  unfold decodeKind
  split
  · next kindValue hkind =>
    by_cases hdirectory : kindValue = NodeKind.directory.value
    · rw [if_pos hdirectory]
      refine ⟨(requireExactKeys_raises _ _ _).bind fun _ _ => .ok, ?_⟩
      intro result h
      rw [Except.bind_eq_ok_iff] at h
      obtain ⟨u, hkeys, -⟩ := h
      exact field_raises hkeys (by simp)
    · rw [if_neg hdirectory]
      by_cases hfile : kindValue = NodeKind.file.value
      · rw [if_pos hfile]
        refine ⟨?_, ?_⟩
        · apply (requireExactKeys_raises _ _ _).bind
          intro u hkeys
          apply (decodeFileContent_raises hkeys (by simp) (by simp) limits).bind
          intro content _
          exact (Raises.of_require snapshotError_tooLarge).bind fun _ _ => .ok
        · intro result h
          rw [Except.bind_eq_ok_iff] at h
          obtain ⟨u, hkeys, -⟩ := h
          exact field_raises hkeys (by simp)
      · rw [if_neg hfile]
        exact ⟨raises_corrupt, fun result h => absurd h raise_ne_ok⟩
  · exact ⟨raises_corrupt, fun result h => absurd h raise_ne_ok⟩

/-- The resolver that the workspace gives to its codec. -/
abbrev resolver (limits : WorkspaceLimits) (value : Text) : Except PyError SandboxPath :=
  MemoryWorkspace.resolvePath limits value none

omit [Sha256] in
theorem decodePath_raises {item : List (Text × Json)}
    (hfield : Raises SnapshotError (field item (py "path"))) (limits : WorkspaceLimits)
    (previousPath : Option Text) :
    Raises SnapshotError (decodePath item (resolver limits) previousPath) := by
  unfold decodePath
  apply hfield.bind
  intro value _
  split
  · apply Raises.bind
    · apply Raises.of_rewrap snapshotError_corrupt
      exact SandboxPath.resolve_raises (.inl rfl) (.inl rfl) (.inl rfl) _ _ _ _
    · intro path _
      apply (Raises.of_require snapshotError_corrupt).bind
      intro _ _
      exact (Raises.of_require snapshotError_corrupt).bind fun _ _ => .ok
  · exact raises_corrupt

omit [Sha256] in
/-- A decoded path is a proper path within the limits. -/
theorem decodePath_spec {item : List (Text × Json)} {limits : WorkspaceLimits}
    {previousPath : Option Text} {path : SandboxPath}
    (h : decodePath item (resolver limits) previousPath = .ok path) :
    path.isRoot = false ∧ path.value ≠ [] ∧ limits.Allows path.parts := by
  simp only [decodePath, Except.bind_eq_ok_iff] at h
  obtain ⟨value, -, h⟩ := h
  split at h
  · simp only [Except.bind_eq_ok_iff, rewrap_eq_ok, require_eq_ok, Except.ok.injEq] at h
    obtain ⟨path', hresolve, -, hroot, -, -, rfl⟩ := h
    exact ⟨hroot, SandboxPath.resolve_fits hresolve⟩
  · exact absurd h raise_ne_ok

theorem decodeEntries_raises (limits : WorkspaceLimits) (values : List Json)
    (previousPath : Option Text) (totalBytes : Nat) :
    Raises SnapshotError (decodeEntries limits (resolver limits) values previousPath totalBytes) := by
  induction values generalizing previousPath totalBytes with
  | nil => exact .ok
  | cons value rest ih =>
    unfold decodeEntries
    apply (requireObject_raises _ _).bind
    intro item _
    obtain ⟨hkind, hfield⟩ := decodeKind_raises item limits totalBytes
    apply hkind.bind
    intro kind hok
    obtain ⟨kind, totalBytes'⟩ := kind
    apply (decodePath_raises (hfield _ hok) _ _).bind
    intro path hpath
    have hnew : Raises SnapshotError (WorkspaceSnapshotEntry.new path kind) := by
      rw [WorkspaceSnapshotEntry.new, dif_pos (decodePath_spec hpath).1]
      exact .ok
    apply hnew.bind
    intro entry _
    exact (ih _ _).bind fun _ _ => .ok

/-- Decoded entries have proper paths within the limits. -/
theorem decodeEntries_spec {limits : WorkspaceLimits} {values : List Json}
    {previousPath : Option Text} {totalBytes : Nat} {entries : List WorkspaceSnapshotEntry}
    (h : decodeEntries limits (resolver limits) values previousPath totalBytes = .ok entries) :
    ∀ entry ∈ entries, entry.path.value ≠ [] ∧ limits.Allows entry.path.parts := by
  induction values generalizing previousPath totalBytes entries with
  | nil =>
    rw [decodeEntries, Except.ok.injEq] at h
    subst h
    simp
  | cons value rest ih =>
    simp only [decodeEntries, Except.bind_eq_ok_iff, Except.ok.injEq] at h
    obtain ⟨item, -, ⟨kind, totalBytes'⟩, -, path, hpath, entry, hentry, entries', hentries, rfl⟩ := h
    obtain ⟨-, hvalue, hallows⟩ := decodePath_spec hpath
    have hentryPath : entry.path = path := by
      unfold WorkspaceSnapshotEntry.new at hentry
      split at hentry
      · rw [← Except.ok.inj hentry]
      · exact absurd hentry raise_ne_ok
    exact List.forall_mem_cons.mpr ⟨hentryPath ▸ ⟨hvalue, hallows⟩, ih hentries⟩

end Entries

/-! ## Section 4: Decoding -/

variable [Sha256] [JsonRuntime]

/-- What `decode` does before it measures: the declared statistics and the entries. -/
def readEntries (data : WorkspaceSnapshotData) (limits : WorkspaceLimits)
    (resolvePath : Text → Except PyError SandboxPath) :
    Except PyError (WorkspaceStats × List WorkspaceSnapshotEntry) := do
  requireSnapshotSize limits data.encoded.length
  let envelope ← loadJsonObject data.encoded
  requireExactKeys envelope [py "integrity", py "payload"] (py "snapshot envelope")
  let digest ← decodeIntegrity envelope data
  let payload ← decodePayload envelope digest
  let declared ← decodeStats payload data
  let entries ← decodeTree payload limits resolvePath
  .ok (declared, entries)

/-- What `decode` does with the entries. -/
def checkMeasured (declared : WorkspaceStats) (entries : List WorkspaceSnapshotEntry) :
    Except PyError DecodedWorkspaceSnapshot := do
  let measured ← measureWorkspaceEntries entries
  require (measured.totalBytes = declared.totalBytes) .snapshotCorruptError
    (py "snapshot total byte count does not match entries")
  require (measured.nodeCount = declared.nodeCount) .snapshotCorruptError
    (py "snapshot node count does not match entries")
  require (measured.rootHash = declared.rootHash) .snapshotCorruptError
    (py "snapshot root hash does not match entries")
  .ok ⟨entries, ⟨measured.totalBytes, measured.nodeCount, declared.revision, measured.rootHash⟩⟩

theorem decode_eq (data : WorkspaceSnapshotData) (limits : WorkspaceLimits)
    (resolvePath : Text → Except PyError SandboxPath) :
    decode data limits resolvePath = (do
      let read ← readEntries data limits resolvePath
      checkMeasured read.1 read.2) := by
  simp only [decode, readEntries, bind_assoc]
  rfl

omit [Sha256] [JsonRuntime] in
theorem decodeIntegrity_raises {envelope : List (Text × Json)} {u : Unit} {name : Text}
    (hkeys : requireExactKeys envelope [py "integrity", py "payload"] name = .ok u)
    (data : WorkspaceSnapshotData) : Raises SnapshotError (decodeIntegrity envelope data) := by
  unfold decodeIntegrity
  apply (field_raises hkeys (by simp)).bind
  intro integrityValue _
  apply (requireObject_raises _ _).bind
  intro integrity _
  apply (requireExactKeys_raises _ _ _).bind
  intro _ hintegrity
  apply (field_raises hintegrity (by simp)).bind
  intro algorithm _
  have hrest : Raises SnapshotError (do
      let digestValue ← field integrity (py "digest")
      let digest ← parseHash digestValue (py "snapshot integrity digest")
      require (data.integrityHash = digest) .snapshotCorruptError
        (py "snapshot metadata integrity hash does not match encoded bytes")
      .ok digest) := by
    apply (field_raises hintegrity (by simp)).bind
    intro digestValue _
    apply (parseHash_raises _ _).bind
    intro digest _
    exact (Raises.of_require snapshotError_corrupt).bind fun _ _ => .ok
  split
  · exact (Raises.of_require snapshotError_corrupt).bind fun _ _ => hrest
  · exact raises_corrupt.bind fun _ _ => hrest

omit [JsonRuntime] in
theorem decodePayload_raises {envelope : List (Text × Json)} {u : Unit} {name : Text}
    (hkeys : requireExactKeys envelope [py "integrity", py "payload"] name = .ok u)
    (digest : ContentHash) : Raises SnapshotError (decodePayload envelope digest) := by
  have hjson : ∀ value, Raises SnapshotError (canonicalJson value) := by
    intro value
    unfold canonicalJson
    split
    · exact .ok
    · exact raises_corrupt
  unfold decodePayload
  apply (field_raises hkeys (by simp)).bind
  intro payloadValue _
  apply (requireObject_raises _ _).bind
  intro payload _
  apply (hjson _).bind
  intro payloadBytes _
  apply (Raises.of_require snapshotError_corrupt).bind
  intro _ _
  exact (requireExactKeys_raises _ _ _).bind fun _ _ => .ok

/-- The keys of a payload, which `_require_exact_keys` has checked. -/
def payloadKeys : List Text :=
  [py "entries", py "node_count", py "revision", py "root_hash", py "schema_version",
    py "total_bytes"]

omit [JsonRuntime] in
theorem decodePayload_keys {envelope payload : List (Text × Json)} {digest : ContentHash}
    (h : decodePayload envelope digest = .ok payload) :
    requireExactKeys payload payloadKeys (py "snapshot payload") = .ok () := by
  simp only [decodePayload, Except.bind_eq_ok_iff, Except.ok.injEq] at h
  obtain ⟨-, -, items, -, -, -, -, -, u, hkeys, rfl⟩ := h
  exact hkeys

omit [Sha256] [JsonRuntime] in
theorem decodeStats_raises {payload : List (Text × Json)} {u : Unit} {name : Text}
    (hkeys : requireExactKeys payload payloadKeys name = .ok u) (data : WorkspaceSnapshotData) :
    Raises SnapshotError (decodeStats payload data) := by
  unfold decodeStats
  apply (field_raises hkeys (by simp [payloadKeys])).bind
  intro versionValue _
  apply (requireInteger_raises _ _).bind
  intro schemaVersion _
  apply (Raises.of_require snapshotError_corrupt).bind
  intro _ _
  apply (Raises.of_require (.inr (.inl rfl))).bind
  intro _ _
  apply (field_raises hkeys (by simp [payloadKeys])).bind
  intro revisionValue _
  apply (requireInteger_raises _ _).bind
  intro revision _
  apply (field_raises hkeys (by simp [payloadKeys])).bind
  intro rootHashValue _
  apply (parseHash_raises _ _).bind
  intro rootHash _
  apply (Raises.of_require snapshotError_corrupt).bind
  intro _ _
  apply (Raises.of_require snapshotError_corrupt).bind
  intro _ _
  apply (field_raises hkeys (by simp [payloadKeys])).bind
  intro totalBytesValue _
  apply (requireInteger_raises _ _).bind
  intro totalBytes _
  apply (field_raises hkeys (by simp [payloadKeys])).bind
  intro nodeCountValue _
  exact (requireInteger_raises _ _).bind fun _ _ => .ok

omit [JsonRuntime] in
theorem decodeTree_raises {payload : List (Text × Json)} {u : Unit} {name : Text}
    (hkeys : requireExactKeys payload payloadKeys name = .ok u) (limits : WorkspaceLimits) :
    Raises SnapshotError (decodeTree payload limits (resolver limits)) := by
  unfold decodeTree
  apply (field_raises hkeys (by simp [payloadKeys])).bind
  intro value _
  split
  · exact (Raises.of_require snapshotError_tooLarge).bind fun _ _ => decodeEntries_raises _ _ _ _
  · exact raises_corrupt

/-- The bytes are within the limit, and the JSON reader fails on them. -/
def JsonFails (data : WorkspaceSnapshotData) (limits : WorkspaceLimits) : Prop :=
  data.encoded.length ≤ limits.maxSnapshotBytes ∧ ReaderFails data.encoded

theorem readEntries_raises {data : WorkspaceSnapshotData} {limits : WorkspaceLimits}
    (h : ¬ JsonFails data limits) :
    Raises SnapshotError (readEntries data limits (resolver limits)) := by
  unfold readEntries
  apply Raises.bind (Raises.of_require snapshotError_tooLarge)
  intro _ hsize
  have hreader : ¬ ReaderFails data.encoded := fun hfails => h ⟨require_eq_ok.mp hsize, hfails⟩
  apply (loadJsonObject_raises hreader).bind
  intro envelope _
  apply (requireExactKeys_raises _ _ _).bind
  intro _ hkeys
  apply (decodeIntegrity_raises hkeys _).bind
  intro digest _
  apply (decodePayload_raises hkeys _).bind
  intro payload hpayload
  have hpayloadKeys := decodePayload_keys hpayload
  apply (decodeStats_raises hpayloadKeys _).bind
  intro declared _
  exact (decodeTree_raises hpayloadKeys _).bind fun _ _ => .ok

theorem readEntries_spec {data : WorkspaceSnapshotData} {limits : WorkspaceLimits}
    {declared : WorkspaceStats} {entries : List WorkspaceSnapshotEntry}
    (h : readEntries data limits (resolver limits) = .ok (declared, entries)) :
    ∀ entry ∈ entries, entry.path.value ≠ [] ∧ limits.Allows entry.path.parts := by
  simp only [readEntries, Except.bind_eq_ok_iff, Except.ok.injEq, Prod.mk.injEq] at h
  obtain ⟨-, -, -, -, -, -, -, -, payload, -, -, -, entries', htree, -, rfl⟩ := h
  simp only [decodeTree, Except.bind_eq_ok_iff] at htree
  obtain ⟨value, -, htree⟩ := htree
  split at htree
  · simp only [Except.bind_eq_ok_iff] at htree
    obtain ⟨-, -, hentries⟩ := htree
    exact decodeEntries_spec hentries
  · exact absurd htree raise_ne_ok

/-- The payload is accepted and its entries make a tree, and a segment of one of
    them has a length that does not take four bytes. -/
def LongSegment (data : WorkspaceSnapshotData) (limits : WorkspaceLimits) : Prop :=
  ∃ declared entries, readEntries data limits (resolver limits) = .ok (declared, entries) ∧
    (∃ root totalBytes, addEntries (sorted (·.path.value) entries) [] 0 = .ok (root, totalBytes)) ∧
    ∃ entry ∈ entries, ∃ segment ∈ entry.path.parts, ∃ n, utf8Length segment = some n ∧ 2 ^ 32 ≤ n

/-- Exactly when `decode` raises nothing but the three errors. -/
theorem decode_fails_iff (data : WorkspaceSnapshotData) (limits : WorkspaceLimits) :
    (∀ e, decode data limits (resolver limits) = .error e → SnapshotError e.cls) ↔
      ¬ JsonFails data limits ∧ ¬ LongSegment data limits := by
  rw [decode_eq]
  have hhash : ∀ cls, IsHashError cls → ¬ SnapshotError cls := by
    intro cls hcls
    rcases hcls with rfl | rfl | rfl <;> simp [SnapshotError]
  constructor
  · intro h
    refine ⟨?_, ?_⟩
    · intro hfails
      obtain ⟨hsize, hreader⟩ := hfails
      obtain ⟨e, hload, hcls⟩ := loadJsonObject_of_readerFails hreader
      apply hcls
      apply h
      simp only [readEntries, requireSnapshotSize, require, if_pos hsize, hload, bind, Except.bind]
    · intro hlong
      obtain ⟨declared, entries, hread, ⟨root, totalBytes, hadd⟩, entry, hentry, segment, hsegment,
        n, hn, hle⟩ := hlong
      have hvalue := fun entry hentry => (readEntries_spec hread entry hentry).1
      obtain ⟨hdistinct, hclosed⟩ := closed_of_addEntries hvalue hadd
      cases hmeasure : measureWorkspaceEntries entries with
      | ok stats =>
        have hall := (measureWorkspaceEntries_isOk_iff hvalue hdistinct hclosed).mp ⟨stats, hmeasure⟩
        obtain ⟨-, bytes, hbytes, hlt⟩ := hall entry hentry segment hsegment
        rw [utf8Length, hbytes, Option.map_some, Option.some.injEq] at hn
        omega
      | error e =>
        have hraises := measureWorkspaceEntries_raises_of_closed hvalue hdistinct hclosed
        apply hhash _ (hraises.of_error e hmeasure)
        apply h
        simp only [hread, checkMeasured, hmeasure, bind, Except.bind]
  · intro h
    obtain ⟨hjson, hshort⟩ := h
    have hraises : Raises SnapshotError (do
        let read ← readEntries data limits (resolver limits)
        checkMeasured read.1 read.2) := by
      apply (readEntries_raises hjson).bind
      intro read hread
      obtain ⟨declared, entries⟩ := read
      have hspec := readEntries_spec hread
      have hvalue := fun entry hentry => (hspec entry hentry).1
      have hmeasure : Raises SnapshotError (measureWorkspaceEntries entries) := by
        cases hadd : addEntries (sorted (·.path.value) entries) [] 0 with
        | error e =>
          have herror : measureWorkspaceEntries entries = .error e := by
            simp only [measureWorkspaceEntries, hadd, bind, Except.bind]
          rw [herror]
          have hcorrupt := (addEntries_raises _ _ _).of_error e hadd
          exact Raises.error_iff.mpr (.inl hcorrupt)
        | ok built =>
          obtain ⟨hdistinct, hclosed⟩ := closed_of_addEntries hvalue hadd
          have hall : ∀ entry ∈ entries, ∀ part ∈ entry.path.parts, HashableName part := by
            intro entry hentry part hpart
            obtain ⟨hproper, hallows⟩ := hspec entry hentry
            obtain ⟨n, hn, -⟩ := hallows.segments part (List.mem_cons_of_mem _ hpart)
            obtain ⟨bytes, hbytes, rfl⟩ := Option.map_eq_some_iff.mp hn
            refine ⟨(SandboxPath.value_eq_render hproper).2 part hpart, bytes, hbytes, ?_⟩
            by_contra hle
            exact hshort ⟨declared, entries, hread, ⟨built.1, built.2, hadd⟩, entry, hentry, part,
              hpart, _, hn, by omega⟩
          obtain ⟨stats, hstats⟩ :=
            (measureWorkspaceEntries_isOk_iff hvalue hdistinct hclosed).mpr hall
          rw [hstats]
          exact .ok
      unfold checkMeasured
      apply hmeasure.bind
      intro measured _
      apply (Raises.of_require snapshotError_corrupt).bind
      intro _ _
      apply (Raises.of_require snapshotError_corrupt).bind
      intro _ _
      exact (Raises.of_require snapshotError_corrupt).bind fun _ _ => .ok
    exact hraises.of_error

end JsonWorkspaceSnapshotCodec

/-! ## Section 5: A restore that fails -/

namespace MemoryWorkspace

variable [Sha256] [JsonRuntime]

/-- A restore that is not prepared leaves the workspace as it was. -/
theorem prepareRestore_outcome (w : MemoryWorkspace) (data : WorkspaceSnapshotData)
    (requiredDirectory : SandboxPath) :
    Call.Outcome (prepareRestore data requiredDirectory) w fun _ _ => True := by
  unfold prepareRestore
  rw [Call.outcome_get_bind]
  apply Call.outcome_lift_bind
  intro _ _
  apply Call.outcome_lift_bind
  intro decoded _
  exact (prepareRestoreCandidate_outcome w _ _ _).mono fun _ _ _ => trivial

end MemoryWorkspace
