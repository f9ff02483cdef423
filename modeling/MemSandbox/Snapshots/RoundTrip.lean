import MemSandbox.Snapshots.Codec

/-! # Encoding and decoding a session snapshot

    The object that `decode` reads from an accepted payload prints like the
    object that `encode` builds from the decoded state, field by field; and
    the object that `encode` prints is read back as it is.  Together they are
    `codec_inverse`. -/

open Python

namespace JsonSessionSnapshotCodec

/-! ## Section 1: The steps -/

theorem canonicalJson_eq_ok {value : Json} {bytes : Bytes} :
    canonicalJson value = .ok bytes ↔
      ∃ text, value.dumps = some text ∧ encodeUtf8 text = some bytes := by
  unfold canonicalJson
  cases hdumps : value.dumps with
  | none => simp [corrupt, raise]
  | some text =>
    cases hencode : encodeUtf8 text with
    | none => simp [hencode, corrupt, raise]
    | some bytes' => simp [hencode]

/-- Values that print alike have the same canonical bytes. -/
theorem canonicalJson_congr {value value' : Json} (h : value.dumps = value'.dumps) :
    canonicalJson value = canonicalJson value' := by
  rw [canonicalJson, canonicalJson, h]

theorem field_eq_ok {items : List (Text × Json)} {key : Text} {value : Json} :
    field items key = .ok value ↔ Dict.get? key items = some value := by
  unfold field JsonWorkspaceSnapshotCodec.field
  cases Dict.get? key items <;> simp

theorem object_eq_ok {value : Json} {name : Text} {items : List (Text × Json)} :
    object value name = .ok items ↔ value = .dict items := by
  unfold object
  split <;> simp_all [corrupt]

theorem text_eq_ok {value : Json} {name s : Text} : text value name = .ok s ↔ value = .str s := by
  unfold text
  split <;> simp_all [corrupt]

theorem integer_eq_ok {value : Json} {name : Text} {n : Nat} :
    integer value name = .ok n ↔ value = .int n := by
  unfold integer
  split
  · simp only [Except.ok.injEq, Json.int.injEq, Int.ofNat_eq_natCast, Nat.cast_inj]
  · next hne =>
    simp only [corrupt, raise_ne_ok, false_iff]
    intro h
    exact hne n h

theorem hashOf_eq_ok {value : Json} {name : Text} {hash : ContentHash} :
    hashOf value name = .ok hash ↔ value = .str hash.value := by
  simp only [hashOf, Except.bind_eq_ok_iff, text_eq_ok]
  constructor
  · intro h
    obtain ⟨digest, rfl, hnew⟩ := h
    unfold ContentHash.new at hnew
    split at hnew
    · rw [← Except.ok.inj hnew]
    · exact absurd hnew raise_ne_ok
  · intro h
    exact ⟨hash.value, h, ContentHash.new_value hash⟩

theorem mem_of_requireKeys {items : List (Text × Json)} {keys : List Text} {name : Text} {u : Unit} :
    requireKeys items keys name = .ok u ↔ ∀ k, k ∈ Dict.keys items ↔ k ∈ keys := by
  rw [requireKeys, require_eq_ok]
  exact ⟨fun h k => ⟨h.1 k, h.2 k⟩, fun h => ⟨fun k => (h k).mp, fun k => (h k).mpr⟩⟩

theorem requireVersions_eq_ok {schemaVersion capabilityVersion : Nat} {u : Unit} :
    requireVersions schemaVersion capabilityVersion = .ok u ↔
      schemaVersion = SCHEMA_VERSION ∧ capabilityVersion = CAPABILITY_PROFILE_VERSION := by
  simp only [requireVersions, Except.bind_eq_ok_iff, require_eq_ok]
  constructor
  · intro h
    obtain ⟨-, hschema, hcapability⟩ := h
    exact ⟨hschema, hcapability⟩
  · exact fun h => ⟨(), h⟩

/-! ## Section 2: What is read prints as what is written -/

/-- A dictionary with exactly the given keys prints like one with those keys,
    when each member prints like its counterpart. -/
theorem dumps_dict_eq {items items' : List (Text × Json)} {keys : List Text} {name : Text} {u : Unit}
    (hunique : Dict.UniqueKeys items) (hkeys : requireKeys items keys name = .ok u)
    (hkeys' : Dict.keys items' = keys) (hnodup : keys.Nodup)
    (h : ∀ k ∈ keys, ∃ v v', Dict.get? k items = some v ∧ Dict.get? k items' = some v' ∧
      v.dumps = v'.dumps) :
    Json.dumps (.dict items) = Json.dumps (.dict items') := by
  have hmem := mem_of_requireKeys.mp hkeys
  refine Json.PrintAlike.dumps_eq ⟨hunique, ?_, ?_, ?_⟩
  · rw [Dict.UniqueKeys, hkeys']
    exact hnodup
  · intro k
    rw [hkeys', hmem k]
  · intro k v v' hget hget'
    have hk : k ∈ keys := (hmem k).mp (Dict.mem_keys_of_mem (Dict.mem_of_get? hget))
    obtain ⟨w, w', hw, hw', hprint⟩ := h k hk
    rw [hget] at hw
    rw [hget'] at hw'
    rw [Option.some.inj hw, Option.some.inj hw', hprint]

/-- An accepted environment entry prints like its value. -/
theorem environmentEntry_dumps {entry : Json} (hdistinct : entry.Distinct)
    {item : EnvironmentValue} (h : environmentEntry entry = .ok item) :
    entry.dumps = (serializeValue item).dumps := by
  simp only [environmentEntry, Except.bind_eq_ok_iff, object_eq_ok, field_eq_ok, text_eq_ok] at h
  obtain ⟨items, rfl, u, hkeys, _, hname, name, rfl, _, hvalue, value, rfl, hnew⟩ := h
  obtain ⟨rfl, rfl⟩ := EnvironmentValue.new_eq_ok.mp hnew
  apply dumps_dict_eq hdistinct.keys hkeys rfl (by decide)
  intro k hk
  simp only [List.mem_cons, List.not_mem_nil, or_false] at hk
  rcases hk with rfl | rfl
  · exact ⟨_, _, hname, rfl, rfl⟩
  · exact ⟨_, _, hvalue, rfl, rfl⟩

theorem environmentEntries_dumps {entries : List Json} (hdistinct : ∀ entry ∈ entries, entry.Distinct)
    {items : List EnvironmentValue} (h : environmentEntries entries = .ok items) :
    List.Forall₂ (fun a b => Json.dumps a = Json.dumps b) entries (items.map serializeValue) := by
  induction entries generalizing items with
  | nil =>
    rw [environmentEntries, Except.ok.injEq] at h
    subst h
    exact .nil
  | cons entry rest ih =>
    obtain ⟨hentry, hrest⟩ := List.forall_mem_cons.mp hdistinct
    simp only [environmentEntries, Except.bind_eq_ok_iff, Except.ok.injEq] at h
    obtain ⟨item, hitem, items', hitems, rfl⟩ := h
    exact .cons (environmentEntry_dumps hentry hitem) (ih hrest hitems)

/-- An accepted environment prints like the values, which are in order. -/
theorem environment_dumps {value : Json} (hdistinct : value.Distinct)
    {approved : CommandEnvironment} (h : environment value = .ok approved) :
    value.dumps = Json.dumps
      (.list ((sorted EnvironmentValue.name approved.values).map serializeValue)) := by
  unfold environment at h
  split at h
  · next entries =>
    simp only [Except.bind_eq_ok_iff, require_eq_ok] at h
    obtain ⟨items, hitems, -, hordered, hnew⟩ := h
    have hvalues := CommandEnvironment.new_eq_ok.mp hnew
    have hsorted : sorted EnvironmentValue.name approved.values = items := by
      rw [hvalues]
      exact sorted_eq_self (List.pairwise_map.mp hordered)
    rw [hsorted]
    exact Json.dumpsAll_congr (environmentEntries_dumps hdistinct.items hitems)
  · exact absurd h raise_ne_ok

/-- An accepted workspace prints like its data. -/
theorem workspaceSnapshot_dumps {items : List (Text × Json)} (hunique : Dict.UniqueKeys items)
    {name : Text} {u : Unit}
    (hkeys : requireKeys items [py "encoded_base64", py "integrity_hash", py "root_hash",
      py "schema_version", py "workspace_revision"] name = .ok u)
    {workspace : WorkspaceSnapshotData} (h : workspaceSnapshot items = .ok workspace) :
    Json.dumps (.dict items) = (serializeWorkspace workspace).dumps := by
  simp only [workspaceSnapshot, Except.bind_eq_ok_iff, field_eq_ok] at h
  obtain ⟨encodedField, hencoded, h⟩ := h
  split at h
  · next encodedValue =>
    split at h
    · exact absurd h raise_ne_ok
    · next encoded hbase =>
      simp only [workspaceData, Except.bind_eq_ok_iff, require_eq_ok, rewrap_eq_ok, field_eq_ok,
        integer_eq_ok, hashOf_eq_ok, Except.ok.injEq] at h
      obtain ⟨-, hcanonical, _, hversion, version, rfl, _, hintegrity, integrityHash, rfl,
        _, hrevision, revision, rfl, _, hroot, rootHash, rfl, rfl⟩ := h
      apply dumps_dict_eq hunique hkeys rfl (by decide)
      intro k hk
      simp only [List.mem_cons, List.not_mem_nil, or_false] at hk
      rcases hk with rfl | rfl | rfl | rfl | rfl
      · exact ⟨_, _, hencoded, rfl, by rw [hcanonical]⟩
      · exact ⟨_, _, hintegrity, rfl, rfl⟩
      · exact ⟨_, _, hroot, rfl, rfl⟩
      · exact ⟨_, _, hversion, rfl, rfl⟩
      · exact ⟨_, _, hrevision, rfl, rfl⟩
  · exact absurd h raise_ne_ok

/-- The hook of the reader makes dictionaries with distinct keys. -/
theorem uniqueObject_distinct {rest result : List (Text × Json)} (hresult : Dict.UniqueKeys result)
    {value : Json} (h : JsonWorkspaceSnapshotCodec.uniqueObject.go rest result = .ok value) :
    value = .dict (result ++ rest) ∧ Dict.UniqueKeys (result ++ rest) := by
  induction rest generalizing result with
  | nil =>
    rw [JsonWorkspaceSnapshotCodec.uniqueObject.go, Except.ok.injEq] at h
    rw [List.append_nil]
    exact ⟨h.symm, hresult⟩
  | cons item rest ih =>
    obtain ⟨key, v⟩ := item
    rw [JsonWorkspaceSnapshotCodec.uniqueObject.go] at h
    by_cases hkey : key ∈ Dict.keys result
    · rw [if_pos hkey] at h
      exact absurd h raise_ne_ok
    · rw [if_neg hkey] at h
      have hset := Dict.uniqueKeys_set hresult key v
      rw [Dict.set_of_not_mem hkey] at h hset
      have hsplit : result ++ (key, v) :: rest = (result ++ [(key, v)]) ++ rest := by simp
      rw [hsplit]
      exact ih hset h

variable [JsonRuntime]

/-- What is loaded has distinct keys, at every depth. -/
theorem loads_distinct {t : Text} {value : Json} (h : Json.loads reader t = .ok value) :
    value.Distinct := by
  refine (Json.loads_makes (E := fun _ => True) (V := Json.Distinct) ?_ t).1 value h
  refine ⟨trivial, fun _ => trivial, trivial, .null, .bool, .int, .float, .str,
    fun items => .list, ?_⟩
  intro items hitems
  refine ⟨?_, fun _ _ => trivial⟩
  intro value' hvalue
  obtain ⟨rfl, hkeys⟩ := uniqueObject_distinct Dict.uniqueKeys_nil hvalue
  exact .dict hkeys hitems

theorem loadObject_distinct {payload : Bytes} {items : List (Text × Json)}
    (h : loadObject payload = .ok items) : Json.Distinct (.dict items) := by
  simp only [loadObject] at h
  split at h
  · exact absurd h raise_ne_ok
  · simp only [Except.bind_eq_ok_iff, rewrap_eq_ok, object_eq_ok] at h
    obtain ⟨value, hloads, rfl⟩ := h
    exact loads_distinct hloads

/-! ## Section 3: Encoding undoes decoding -/

variable [Sha256]

/-- A state that was decoded is encoded to the payload it was decoded from. -/
theorem encode_decode {codec : JsonSessionSnapshotCodec} {snapshot : SandboxSnapshot}
    {state : SessionSnapshotState} (h : codec.decode snapshot = .ok state) :
    ∃ payload, codec.encode state = .ok payload ∧ payload.payload = snapshot.payload := by
  simp only [decode, Except.bind_eq_ok_iff, Except.ok.injEq] at h
  obtain ⟨value, hobject, ⟨schemaVersion, capabilityVersion⟩, hversions, workspace, hworkspace,
    ⟨cwd, approved⟩, hstate, rfl⟩ := h
  simp only [decodeObject, Except.bind_eq_ok_iff, require_eq_ok, Except.ok.injEq] at hobject
  obtain ⟨u, hsize, -, -, -, -, -, -, items, hload, canonical, hcanonical, -, rfl, u', hkeys, rfl⟩ :=
    hobject
  simp only [decodeVersions, Except.bind_eq_ok_iff, field_eq_ok, integer_eq_ok, require_eq_ok,
    requireVersions_eq_ok, Except.ok.injEq, Prod.mk.injEq] at hversions
  obtain ⟨_, hschemaField, version, rfl, _, hcapabilityField, capability, rfl, -, -, -,
    ⟨hschema, hcapability⟩, rfl, rfl⟩ := hversions
  simp only [decodeWorkspace, Except.bind_eq_ok_iff, field_eq_ok, object_eq_ok, require_eq_ok,
    Except.ok.injEq] at hworkspace
  obtain ⟨_, hworkspaceField, workspaceItems, rfl, u'', hworkspaceKeys, workspace', hsnapshot, -, -,
    rfl⟩ := hworkspace
  simp only [decodeState, Except.bind_eq_ok_iff, field_eq_ok] at hstate
  obtain ⟨cwdField, hcwdField, hstate⟩ := hstate
  split at hstate
  · next cwdValue =>
    simp only [rewrap_eq_ok, Except.bind_eq_ok_iff, field_eq_ok, SandboxPath.new_eq_ok,
      Except.ok.injEq, Prod.mk.injEq] at hstate
    obtain ⟨cwd', hcwd, environmentField, henvironmentField, approved', henvironment, rfl, rfl⟩ :=
      hstate
    have hdistinct := loadObject_distinct hload
    have hmember : ∀ {k v}, Dict.get? k items = some v → v.Distinct :=
      fun hget => hdistinct.values _ (Dict.mem_of_get? hget)
    have hdumps : Json.dumps (.dict items) =
        (document ⟨workspace', cwd', approved', version, capability⟩).dumps := by
      apply dumps_dict_eq hdistinct.keys hkeys rfl (by decide)
      intro k hk
      simp only [List.mem_cons, List.not_mem_nil, or_false] at hk
      rcases hk with rfl | rfl | rfl | rfl | rfl
      · exact ⟨_, _, henvironmentField, rfl,
          environment_dumps (hmember henvironmentField) henvironment⟩
      · exact ⟨_, _, hcapabilityField, rfl, rfl⟩
      · exact ⟨_, _, hcwdField, rfl, by rw [hcwd]⟩
      · exact ⟨_, _, hschemaField, rfl, rfl⟩
      · exact ⟨_, _, hworkspaceField, rfl,
          workspaceSnapshot_dumps (hmember hworkspaceField).keys hworkspaceKeys hsnapshot⟩
    rw [canonicalJson_congr hdumps] at hcanonical
    refine ⟨⟨snapshot.payload, .fromBytes snapshot.payload, py "json", version,
      workspace'.workspaceRevision⟩, ?_, rfl⟩
    simp only [encode, Except.bind_eq_ok_iff, requireVersions_eq_ok, Except.ok.injEq]
    exact ⟨(), ⟨hschema, hcapability⟩, _, hcanonical, u, hsize, rfl⟩
  · exact absurd hstate raise_ne_ok

/-! ## Section 4: Decoding undoes encoding -/

omit [JsonRuntime] [Sha256] in
/-- The object nests three deep: the environment, and one of its values. -/
theorem document_readable (state : SessionSnapshotState) : Json.Readable 3 (document state) := by
  apply Json.Readable.dict_of_keys [py "approved_environment", py "capability_profile_version",
    py "cwd", py "schema_version", py "workspace"] rfl (by decide)
  intro item hitem
  simp only [List.mem_cons, List.not_mem_nil, or_false] at hitem
  rcases hitem with rfl | rfl | rfl | rfl | rfl
  · apply Json.Readable.list
    intro value hvalue
    obtain ⟨entry, -, rfl⟩ := List.mem_map.mp hvalue
    apply Json.Readable.dict_of_keys [py "name", py "value"] rfl (by decide)
    intro item hitem
    simp only [List.mem_cons, List.not_mem_nil, or_false] at hitem
    rcases hitem with rfl | rfl <;> exact .str _
  · exact .int _
  · exact .str _
  · exact .int _
  · apply Json.Readable.dict_of_keys [py "encoded_base64", py "integrity_hash", py "root_hash",
      py "schema_version", py "workspace_revision"] rfl (by decide)
    intro item hitem
    simp only [List.mem_cons, List.not_mem_nil, or_false] at hitem
    rcases hitem with rfl | rfl | rfl | rfl | rfl
    · exact .str _
    · exact .str _
    · exact .str _
    · exact .int _
    · exact .int _

omit [JsonRuntime] [Sha256] in
theorem requireKeys_of_keys {items : List (Text × Json)} {keys : List Text}
    (h : Dict.keys items = keys) (name : Text) : requireKeys items keys name = .ok () :=
  mem_of_requireKeys.mpr fun k => by rw [h]

omit [JsonRuntime] [Sha256] in
theorem environmentEntries_serialize (values : List EnvironmentValue) :
    environmentEntries (values.map serializeValue) = .ok values := by
  induction values with
  | nil => rfl
  | cons item rest ih =>
    have hitem : environmentEntry (serializeValue item) = .ok item := by
      simp only [environmentEntry, Except.bind_eq_ok_iff, object_eq_ok, field_eq_ok, text_eq_ok]
      exact ⟨_, rfl, (), requireKeys_of_keys rfl _, _, rfl, _, rfl, _, rfl, _, rfl,
        EnvironmentValue.new_eq_ok.mpr ⟨rfl, rfl⟩⟩
    simp only [List.map_cons, environmentEntries, hitem, ih, bind, Except.bind]

/-- The environment with its values in order. -/
def sortedEnvironment (approved : CommandEnvironment) : CommandEnvironment where
  values := sorted EnvironmentValue.name approved.values
  distinct := ((sorted_perm _ _).map _).nodup_iff.mpr approved.distinct

omit [JsonRuntime] [Sha256] in
theorem environment_serialize (approved : CommandEnvironment) :
    environment (.list ((sorted EnvironmentValue.name approved.values).map serializeValue)) =
      .ok (sortedEnvironment approved) := by
  simp only [environment, Except.bind_eq_ok_iff, require_eq_ok]
  refine ⟨_, environmentEntries_serialize _, (), ?_, CommandEnvironment.new_eq_ok.mpr rfl⟩
  exact List.pairwise_map.mpr (sorted_pairwise _ _)

omit [JsonRuntime] [Sha256] in
/-- The members of an encoded workspace. -/
theorem serializeWorkspace_dict (workspace : WorkspaceSnapshotData) :
    ∃ items, serializeWorkspace workspace = .dict items ∧
      Dict.keys items = [py "encoded_base64", py "integrity_hash", py "root_hash",
        py "schema_version", py "workspace_revision"] ∧
      Dict.get? (py "encoded_base64") items = some (.str (Base64.encode workspace.encoded)) ∧
      Dict.get? (py "integrity_hash") items = some (.str workspace.integrityHash.value) ∧
      Dict.get? (py "root_hash") items = some (.str workspace.rootHash.value) ∧
      Dict.get? (py "schema_version") items = some (.int workspace.schemaVersion) ∧
      Dict.get? (py "workspace_revision") items = some (.int workspace.workspaceRevision) :=
  ⟨_, rfl, rfl, rfl, rfl, rfl, rfl, rfl⟩

omit [JsonRuntime] [Sha256] in
/-- The members of an encoded state. -/
theorem document_dict (state : SessionSnapshotState) :
    ∃ items, document state = .dict items ∧
      Dict.keys items = [py "approved_environment", py "capability_profile_version", py "cwd",
        py "schema_version", py "workspace"] ∧
      Dict.get? (py "approved_environment") items = some (.list
        ((sorted EnvironmentValue.name state.approvedEnvironment.values).map serializeValue)) ∧
      Dict.get? (py "capability_profile_version") items =
        some (.int state.capabilityProfileVersion) ∧
      Dict.get? (py "cwd") items = some (.str state.cwd.value) ∧
      Dict.get? (py "schema_version") items = some (.int state.schemaVersion) ∧
      Dict.get? (py "workspace") items = some (serializeWorkspace state.workspace) :=
  ⟨_, rfl, rfl, rfl, rfl, rfl, rfl, rfl⟩

omit [JsonRuntime] [Sha256] in
theorem workspaceSnapshot_serialize {workspace : WorkspaceSnapshotData}
    (hversion : 0 ≤ workspace.schemaVersion) :
    ∃ items, serializeWorkspace workspace = .dict items ∧
      Dict.keys items = [py "encoded_base64", py "integrity_hash", py "root_hash",
        py "schema_version", py "workspace_revision"] ∧
      workspaceSnapshot items = .ok workspace := by
  obtain ⟨items, hitems, hkeys, hencoded, hintegrity, hroot, hschema, hrevision⟩ :=
    serializeWorkspace_dict workspace
  obtain ⟨n, hn⟩ := Int.eq_ofNat_of_zero_le hversion
  refine ⟨items, hitems, hkeys, ?_⟩
  have hdata : workspaceData items workspace.encoded = .ok workspace := by
    simp only [workspaceData, Except.bind_eq_ok_iff, field_eq_ok, integer_eq_ok, hashOf_eq_ok,
      Except.ok.injEq]
    exact ⟨_, hschema, n, by rw [hn], _, hintegrity, _, rfl, _, hrevision, _, rfl, _, hroot, _, rfl,
      by rw [← hn]⟩
  simp only [workspaceSnapshot, Except.bind_eq_ok_iff, field_eq_ok]
  refine ⟨_, hencoded, ?_⟩
  simp only [Base64.decode_encode, Except.bind_eq_ok_iff, require_eq_ok, rewrap_eq_ok]
  exact ⟨(), trivial, hdata⟩

/-- A snapshot that was made from an encoded payload, as a store keeps it. -/
structure BuiltFrom (payload : SnapshotPayload) (snapshot : SandboxSnapshot) : Prop where
  payload_eq : snapshot.payload = payload.payload
  contentHash : snapshot.contentHash = payload.contentHash
  formatName : snapshot.metadata.formatName = payload.formatName
  payloadBytes : snapshot.metadata.payloadBytes = payload.payload.length
  schemaVersion : snapshot.schemaVersion = payload.schemaVersion
  workspaceRevision : snapshot.workspaceRevision = payload.workspaceRevision

/-- A state that was encoded is decoded to itself, with its environment in order. -/
theorem decode_encode (hdepth : 3 ≤ JsonRuntime.maxDepth) {codec : JsonSessionSnapshotCodec}
    {state : SessionSnapshotState} (hversion : 0 ≤ state.workspace.schemaVersion)
    {payload : SnapshotPayload} (h : codec.encode state = .ok payload) {snapshot : SandboxSnapshot}
    (hbuilt : BuiltFrom payload snapshot) :
    codec.decode snapshot = .ok { state with
      approvedEnvironment := sortedEnvironment state.approvedEnvironment } := by
  simp only [encode, Except.bind_eq_ok_iff, requireVersions_eq_ok, Except.ok.injEq] at h
  obtain ⟨-, ⟨hschema, hcapability⟩, bytes, hbytes, u, hsize, rfl⟩ := h
  obtain ⟨hpayload, hhash, hformat, hlength, hversions, hrevision⟩ := hbuilt
  simp only at hpayload hhash hformat hlength hversions hrevision
  obtain ⟨items, hitems, hkeys, henvironment, hcapabilityField, hcwd, hschemaField,
    hworkspaceField⟩ := document_dict state
  obtain ⟨workspaceItems, hworkspaceItems, hworkspaceKeys, hsnapshot⟩ :=
    workspaceSnapshot_serialize hversion
  have hload : loadObject bytes = .ok items := by
    obtain ⟨text, hdumps, hencode⟩ := canonicalJson_eq_ok.mp hbytes
    have hloads := Json.loads_dumps JsonWorkspaceSnapshotCodec.reader_keepsDistinct
      ((document_readable state).mono hdepth) hdumps
    simp only [loadObject, decodeUtf8_encodeUtf8 hencode, Except.bind_eq_ok_iff, rewrap_eq_ok,
      object_eq_ok]
    exact ⟨_, hloads, hitems⟩
  rw [hitems] at hbytes
  have hobject : codec.decodeObject snapshot = .ok items := by
    simp only [decodeObject, Except.bind_eq_ok_iff, require_eq_ok, Except.ok.injEq, hpayload]
    exact ⟨(), hsize, (), hformat, (), hlength, (), hhash, items, hload, bytes, hbytes, (), rfl, (),
      requireKeys_of_keys hkeys _, rfl⟩
  have hdecodedVersions : decodeVersions items snapshot =
      .ok (state.schemaVersion, state.capabilityProfileVersion) := by
    simp only [decodeVersions, Except.bind_eq_ok_iff, field_eq_ok, integer_eq_ok, require_eq_ok,
      requireVersions_eq_ok]
    exact ⟨_, hschemaField, _, rfl, _, hcapabilityField, _, rfl, (), hversions, (),
      ⟨hschema, hcapability⟩, rfl⟩
  have hdecodedWorkspace : decodeWorkspace items snapshot = .ok state.workspace := by
    simp only [decodeWorkspace, Except.bind_eq_ok_iff, field_eq_ok, object_eq_ok, require_eq_ok]
    exact ⟨_, hworkspaceField, _, hworkspaceItems, (), requireKeys_of_keys hworkspaceKeys _, _,
      hsnapshot, (), hrevision, rfl⟩
  have hdecodedState : decodeState items =
      .ok (state.cwd, sortedEnvironment state.approvedEnvironment) := by
    simp only [decodeState, Except.bind_eq_ok_iff, field_eq_ok]
    refine ⟨_, hcwd, ?_⟩
    simp only [rewrap_eq_ok, Except.bind_eq_ok_iff, SandboxPath.new_eq_ok, field_eq_ok]
    exact ⟨_, rfl, _, henvironment, _, environment_serialize _, rfl⟩
  simp only [decode, Except.bind_eq_ok_iff]
  exact ⟨_, hobject, _, hdecodedVersions, _, hdecodedWorkspace, _, hdecodedState, rfl⟩

/-- Encoding and decoding undo each other: a state comes back with its
    environment in order, and an accepted payload comes back as it was. -/
theorem codec_inverse (hdepth : 3 ≤ JsonRuntime.maxDepth) (codec : JsonSessionSnapshotCodec) :
    (∀ state payload snapshot, 0 ≤ state.workspace.schemaVersion →
      codec.encode state = .ok payload → BuiltFrom payload snapshot →
      ∃ decoded, codec.decode snapshot = .ok decoded ∧ decoded.workspace = state.workspace ∧
        decoded.cwd = state.cwd ∧ decoded.schemaVersion = state.schemaVersion ∧
        decoded.capabilityProfileVersion = state.capabilityProfileVersion ∧
        decoded.approvedEnvironment.values =
          sorted EnvironmentValue.name state.approvedEnvironment.values) ∧
    ∀ snapshot state, codec.decode snapshot = .ok state →
      ∃ payload, codec.encode state = .ok payload ∧ payload.payload = snapshot.payload := by
  refine ⟨?_, ?_⟩
  · intro state payload snapshot hversion hencode hbuilt
    exact ⟨_, decode_encode hdepth hversion hencode hbuilt, rfl, rfl, rfl, rfl, rfl⟩
  · intro snapshot state hdecode
    exact encode_decode hdecode

end JsonSessionSnapshotCodec

/-! ## Section 5: A snapshot -/

namespace JsonSessionSnapshotCodec.OneVariable

open NewWorkspace

def codec : JsonSessionSnapshotCodec := ⟨DEFAULT_MAX_PAYLOAD_BYTES, by decide⟩

/-- The working directory is the root, and one variable is approved. -/
def state : SessionSnapshotState where
  workspace := ⟨[1, 2], 1, .fromBytes [], 7, .fromBytes []⟩
  cwd := .root
  approvedEnvironment := ⟨[⟨py "HOME", py "/workspace", by decide, by decide⟩], by decide⟩
  schemaVersion := 1
  capabilityProfileVersion := 1

/-- The snapshot that is built from an encoded payload. -/
def snapshot (payload : SnapshotPayload) : SandboxSnapshot where
  schemaVersion := payload.schemaVersion
  workspaceRevision := payload.workspaceRevision
  contentHash := payload.contentHash
  payload := payload.payload
  metadata := ⟨payload.formatName, payload.payload.length⟩

theorem codec_inverse_state : ∃ payload, codec.encode state = .ok payload ∧
    ∃ decoded, codec.decode (snapshot payload) = .ok decoded ∧ decoded.workspace = state.workspace ∧
      ∃ payload', codec.encode decoded = .ok payload' ∧ payload'.payload = payload.payload := by
  have hencode : (codec.encode state).toOption.isSome = true := by decide +kernel
  cases hpayload : codec.encode state with
  | error e =>
    rw [hpayload] at hencode
    cases hencode
  | ok payload =>
    obtain ⟨hforth, hback⟩ := codec_inverse (by decide) codec
    obtain ⟨decoded, hdecode, hworkspace, -⟩ :=
      hforth state payload (snapshot payload) (by decide) hpayload ⟨rfl, rfl, rfl, rfl, rfl, rfl⟩
    exact ⟨payload, rfl, decoded, hdecode, hworkspace, hback _ _ hdecode⟩

end JsonSessionSnapshotCodec.OneVariable
