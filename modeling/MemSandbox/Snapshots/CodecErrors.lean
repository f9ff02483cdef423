import MemSandbox.Snapshots.RoundTrip
import MemSandbox.Workspace.SnapshotErrors

/-! # Which exceptions leave the snapshot decoders

    `JsonSessionSnapshotCodec.decode` reads an object of fixed shape, and every
    wrong field is one of its three errors; as in the workspace's decoder, two
    exceptions of `json.loads` have no handler.  `decoders_raise_iff` is about
    both decoders. -/

open Python

namespace JsonSessionSnapshotCodec

/-- The errors that a caller of `decode` is told of. -/
def SnapshotError (cls : ErrorClass) : Prop :=
  cls = .snapshotCorrupt ∨ cls = .snapshotIncompatible ∨ cls = .snapshotTooLarge

theorem snapshotError_corrupt : SnapshotError .snapshotCorrupt := .inl rfl

theorem snapshotError_incompatible : SnapshotError .snapshotIncompatible := .inr (.inl rfl)

theorem raises_corrupt {message : Text} : Raises SnapshotError (corrupt message : Except PyError α) :=
  Raises.raise_iff.mpr snapshotError_corrupt

/-! ## Section 1: Fields -/

theorem object_raises (value : Json) (name : Text) : Raises SnapshotError (object value name) := by
  unfold object
  split
  · exact .ok
  · exact raises_corrupt

theorem text_raises (value : Json) (name : Text) : Raises SnapshotError (text value name) := by
  unfold text
  split
  · exact .ok
  · exact raises_corrupt

theorem integer_raises (value : Json) (name : Text) : Raises SnapshotError (integer value name) := by
  unfold integer
  split
  · exact .ok
  · exact raises_corrupt

theorem canonicalJson_raises (value : Json) : Raises SnapshotError (canonicalJson value) := by
  unfold canonicalJson
  split
  · exact .ok
  · exact raises_corrupt

theorem requireKeys_raises (value : List (Text × Json)) (keys : List Text) (name : Text) :
    Raises SnapshotError (requireKeys value keys name) :=
  Raises.of_require snapshotError_corrupt

theorem requireVersions_raises (schemaVersion capabilityVersion : Nat) :
    Raises SnapshotError (requireVersions schemaVersion capabilityVersion) :=
  (Raises.of_require snapshotError_incompatible).bind fun _ _ =>
    Raises.of_require snapshotError_incompatible

/-- A field whose presence has been checked is there. -/
theorem field_raises {items : List (Text × Json)} {keys : List Text} {name : Text} {u : Unit}
    (hkeys : requireKeys items keys name = .ok u) {key : Text} (hkey : key ∈ keys) :
    Raises SnapshotError (field items key) := by
  have hmem := (mem_of_requireKeys.mp hkeys key).mpr hkey
  cases hget : Dict.get? key items with
  | some value =>
    rw [field_eq_ok.mpr hget]
    exact .ok
  | none => exact absurd hmem (Dict.get?_eq_none_iff.mp hget)

/-- Inside a `try` block, what it catches may be raised as well. -/
def CaughtOr (caught : ErrorClass → Bool) (cls : ErrorClass) : Prop :=
  caught cls = true ∨ SnapshotError cls

theorem Raises.caughtOr {caught : ErrorClass → Bool} {x : Except PyError α}
    (h : Raises SnapshotError x) : Raises (CaughtOr caught) x := h.mono fun _ hcls => .inr hcls

theorem workspaceSnapshot_raises {items : List (Text × Json)} {name : Text} {u : Unit}
    (hkeys : requireKeys items [py "encoded_base64", py "integrity_hash", py "root_hash",
      py "schema_version", py "workspace_revision"] name = .ok u) :
    Raises SnapshotError (workspaceSnapshot items) := by
  have hhash : ∀ value name, Raises (CaughtOr isValueOrTypeError) (hashOf value name) := by
    intro value name
    apply (Raises.caughtOr (text_raises value name)).bind
    exact fun digest _ => ContentHash.new_raises (.inl rfl) digest
  have hdata : ∀ encoded, Raises (CaughtOr isValueOrTypeError) (workspaceData items encoded) := by
    intro encoded
    unfold workspaceData
    apply (Raises.caughtOr (field_raises hkeys (by simp))).bind
    intro versionValue _
    apply (Raises.caughtOr (integer_raises _ _)).bind
    intro schemaVersion _
    apply (Raises.caughtOr (field_raises hkeys (by simp))).bind
    intro integrityValue _
    apply (hhash _ _).bind
    intro integrityHash _
    apply (Raises.caughtOr (field_raises hkeys (by simp))).bind
    intro revisionValue _
    apply (Raises.caughtOr (integer_raises _ _)).bind
    intro workspaceRevision _
    apply (Raises.caughtOr (field_raises hkeys (by simp))).bind
    intro rootValue _
    exact (hhash _ _).bind fun _ _ => .ok
  unfold workspaceSnapshot
  apply (field_raises hkeys (by simp)).bind
  intro encodedField _
  split
  · split
    · exact raises_corrupt
    · apply (Raises.of_require snapshotError_corrupt).bind
      intro _ _
      exact Raises.of_rewrap snapshotError_corrupt (hdata _)
  · exact raises_corrupt

theorem environment_raises (value : Json) : Raises (CaughtOr isStateError) (environment value) := by
  have hentry : ∀ entry, Raises (CaughtOr isStateError) (environmentEntry entry) := by
    intro entry
    unfold environmentEntry
    apply (Raises.caughtOr (object_raises _ _)).bind
    intro item _
    apply (Raises.caughtOr (requireKeys_raises _ _ _)).bind
    intro _ hkeys
    apply (Raises.caughtOr (field_raises hkeys (by simp))).bind
    intro nameValue _
    apply (Raises.caughtOr (text_raises _ _)).bind
    intro name _
    apply (Raises.caughtOr (field_raises hkeys (by simp))).bind
    intro valueValue _
    apply (Raises.caughtOr (text_raises _ _)).bind
    intro value _
    exact EnvironmentValue.new_raises (.inl rfl) _ _
  have hentries : ∀ entries, Raises (CaughtOr isStateError) (environmentEntries entries) := by
    intro entries
    induction entries with
    | nil => exact .ok
    | cons entry rest ih =>
      unfold environmentEntries
      apply (hentry entry).bind
      intro item _
      exact ih.bind fun _ _ => .ok
  unfold environment
  split
  · apply (hentries _).bind
    intro result _
    apply (Raises.caughtOr (Raises.of_require snapshotError_corrupt)).bind
    intro _ _
    exact CommandEnvironment.new_raises (.inl rfl) _
  · exact Raises.caughtOr raises_corrupt

/-! ## Section 2: Decoding -/

variable [Sha256] [JsonRuntime]

/-- The snapshot agrees with its metadata, and the JSON reader fails on its bytes. -/
def JsonFails (codec : JsonSessionSnapshotCodec) (snapshot : SandboxSnapshot) : Prop :=
  snapshot.payload.length ≤ codec.maxPayloadBytes ∧ snapshot.metadata.formatName = py "json" ∧
    snapshot.metadata.payloadBytes = snapshot.payload.length ∧
    snapshot.contentHash = .fromBytes snapshot.payload ∧
    JsonWorkspaceSnapshotCodec.ReaderFails snapshot.payload

omit [Sha256] in
theorem loadObject_raises {payload : Bytes}
    (h : ¬ JsonWorkspaceSnapshotCodec.ReaderFails payload) :
    Raises SnapshotError (loadObject payload) := by
  unfold loadObject
  simp only []
  split
  · exact raises_corrupt
  · next text hdecode =>
    apply Raises.bind
    · apply Raises.of_rewrap snapshotError_corrupt
      refine ⟨fun e he => ?_⟩
      rcases JsonWorkspaceSnapshotCodec.loads_raises he with hjson | ⟨digits, rfl⟩ | rfl
      · exact .inl hjson
      · exact absurd ⟨text, hdecode, .inl ⟨digits, he⟩⟩ h
      · exact absurd ⟨text, hdecode, .inr he⟩ h
    · exact fun value _ => object_raises value _

omit [Sha256] in
theorem loadObject_of_readerFails {payload : Bytes}
    (h : JsonWorkspaceSnapshotCodec.ReaderFails payload) :
    ∃ e, loadObject payload = .error e ∧ ¬ SnapshotError e.cls := by
  obtain ⟨text, hdecode, hfails⟩ := h
  rcases hfails with ⟨digits, hloads⟩ | hloads
  · refine ⟨reader.tooLong digits, ?_, by simp [SnapshotError, reader, JsonWorkspaceSnapshotCodec.reader]⟩
    simp only [loadObject, hdecode, hloads]
    rfl
  · refine ⟨reader.tooDeep, ?_, by simp [SnapshotError, reader, JsonWorkspaceSnapshotCodec.reader]⟩
    simp only [loadObject, hdecode, hloads]
    rfl

theorem decodeObject_raises {codec : JsonSessionSnapshotCodec} {snapshot : SandboxSnapshot}
    (h : ¬ codec.JsonFails snapshot) : Raises SnapshotError (codec.decodeObject snapshot) := by
  unfold decodeObject
  apply Raises.bind (Raises.of_require (.inr (.inr rfl)))
  intro _ hsize
  apply Raises.bind (Raises.of_require snapshotError_incompatible)
  intro _ hformat
  apply Raises.bind (Raises.of_require snapshotError_corrupt)
  intro _ hlength
  apply Raises.bind (Raises.of_require snapshotError_corrupt)
  intro _ hhash
  have hreader : ¬ JsonWorkspaceSnapshotCodec.ReaderFails snapshot.payload := fun hfails =>
    h ⟨require_eq_ok.mp hsize, require_eq_ok.mp hformat, require_eq_ok.mp hlength,
      require_eq_ok.mp hhash, hfails⟩
  apply (loadObject_raises hreader).bind
  intro value _
  apply (canonicalJson_raises _).bind
  intro canonical _
  apply Raises.bind (Raises.of_require snapshotError_corrupt)
  intro _ _
  exact (requireKeys_raises _ _ _).bind fun _ _ => .ok

/-- The keys of the object that is decoded. -/
theorem decodeObject_keys {codec : JsonSessionSnapshotCodec} {snapshot : SandboxSnapshot}
    {value : List (Text × Json)} (h : codec.decodeObject snapshot = .ok value) :
    requireKeys value [py "approved_environment", py "capability_profile_version", py "cwd",
      py "schema_version", py "workspace"] (py "session snapshot") = .ok () := by
  simp only [decodeObject, Except.bind_eq_ok_iff, Except.ok.injEq] at h
  obtain ⟨-, -, -, -, -, -, -, -, items, -, canonical, -, -, -, u, hkeys, rfl⟩ := h
  exact hkeys

/-- Exactly when `decode` raises nothing but its three errors. -/
theorem decode_fails_iff (codec : JsonSessionSnapshotCodec) (snapshot : SandboxSnapshot) :
    (∀ e, codec.decode snapshot = .error e → SnapshotError e.cls) ↔ ¬ codec.JsonFails snapshot := by
  constructor
  · intro h hfails
    obtain ⟨hsize, hformat, hlength, hhash, hreader⟩ := hfails
    obtain ⟨e, hload, hcls⟩ := loadObject_of_readerFails hreader
    apply hcls
    apply h
    simp only [decode, decodeObject, checkSize, require, if_pos hsize, if_pos hformat,
      if_pos hlength, if_pos hhash, hload, bind, Except.bind]
  · intro h
    have hraises : Raises SnapshotError (codec.decode snapshot) := by
      unfold decode
      apply (decodeObject_raises h).bind
      intro value hobject
      have hkeys := decodeObject_keys hobject
      apply Raises.bind
      · unfold decodeVersions
        apply (field_raises hkeys (by simp)).bind
        intro versionValue _
        apply (integer_raises _ _).bind
        intro schemaVersion _
        apply (field_raises hkeys (by simp)).bind
        intro capabilityValue _
        apply (integer_raises _ _).bind
        intro capabilityVersion _
        apply (Raises.of_require snapshotError_corrupt).bind
        intro _ _
        exact (requireVersions_raises _ _).bind fun _ _ => .ok
      intro versions _
      apply Raises.bind
      · unfold decodeWorkspace
        apply (field_raises hkeys (by simp)).bind
        intro workspaceField _
        apply (object_raises _ _).bind
        intro workspaceValue _
        apply (requireKeys_raises _ _ _).bind
        intro _ hworkspaceKeys
        apply (workspaceSnapshot_raises hworkspaceKeys).bind
        intro workspace _
        exact (Raises.of_require snapshotError_corrupt).bind fun _ _ => .ok
      intro workspace _
      apply Raises.bind
      · unfold decodeState
        apply (field_raises hkeys (by simp)).bind
        intro cwdValue _
        split
        · apply Raises.of_rewrap snapshotError_corrupt
          have hcwd : ∀ text, Raises (CaughtOr isStateError) (SandboxPath.new text) := by
            intro text
            unfold SandboxPath.new
            split
            · exact .ok
            · exact Raises.raise_iff.mpr (.inl rfl)
          apply (hcwd _).bind
          intro cwd _
          apply (Raises.caughtOr (field_raises hkeys (by simp))).bind
          intro environmentField _
          exact (environment_raises _).bind fun _ _ => .ok
        · exact raises_corrupt
      exact fun _ _ => .ok
    exact hraises.of_error

/-- Exactly when the two decoders raise nothing but their snapshot errors; and
    a restore that is not prepared leaves the workspace as it was. -/
theorem decoders_raise_iff (codec : JsonSessionSnapshotCodec) (snapshot : SandboxSnapshot)
    (data : WorkspaceSnapshotData) (limits : WorkspaceLimits) :
    ((∀ e, JsonWorkspaceSnapshotCodec.decode data limits
        (JsonWorkspaceSnapshotCodec.resolver limits) = .error e →
        JsonWorkspaceSnapshotCodec.SnapshotError e.cls) ↔
      ¬ JsonWorkspaceSnapshotCodec.JsonFails data limits ∧
        ¬ JsonWorkspaceSnapshotCodec.LongSegment data limits) ∧
    ((∀ e, codec.decode snapshot = .error e → SnapshotError e.cls) ↔ ¬ codec.JsonFails snapshot) ∧
    ∀ (w w' : MemoryWorkspace) (requiredDirectory : SandboxPath) (e : PyError),
      MemoryWorkspace.prepareRestore data requiredDirectory w = (.error e, w') → w' = w := by
  refine ⟨JsonWorkspaceSnapshotCodec.decode_fails_iff data limits,
    decode_fails_iff codec snapshot, ?_⟩
  intro w w' requiredDirectory e h
  exact (MemoryWorkspace.prepareRestore_outcome w data requiredDirectory).of_eq_error h

end JsonSessionSnapshotCodec

/-! ## Section 3: A long number -/

namespace JsonSessionSnapshotCodec.LongNumber

open NewWorkspace

/-- A JSON number of 4301 digits. -/
def payload : Bytes := List.replicate 4301 49

def data : WorkspaceSnapshotData := ⟨payload, 1, .fromBytes payload, 0, .fromBytes []⟩

def snapshot : SandboxSnapshot := ⟨1, 0, .fromBytes payload, payload, py "json", 4301⟩

theorem encodeUtf8_ones (n : Nat) :
    encodeUtf8 (List.replicate n 49) = some (List.replicate n 49) := by
  induction n with
  | zero => rfl
  | succ n ih => exact encodeUtf8_cons_eq_some.mpr ⟨[49], _, rfl, ih, rfl⟩

/-- The reader refuses the number with an exception that is not its own. -/
theorem readerFails : JsonWorkspaceSnapshotCodec.ReaderFails payload := by
  refine ⟨List.replicate 4301 49, decodeUtf8_encodeUtf8 (encodeUtf8_ones 4301), .inl ?_⟩
  have hcls : (match Json.loads reader (List.replicate 4301 49) with
      | .error e => decide (e.cls = .valueError)
      | .ok _ => false) = true := by
    decide +kernel
  cases hloads : Json.loads reader (List.replicate 4301 49) with
  | ok value =>
    rw [hloads] at hcls
    cases hcls
  | error e =>
    rw [hloads] at hcls
    have hvalue : e.cls = .valueError := of_decide_eq_true hcls
    rcases JsonWorkspaceSnapshotCodec.loads_raises hloads with hjson | ⟨digits, rfl⟩ | rfl
    · rw [hvalue] at hjson
      cases hjson
    · exact ⟨digits, rfl⟩
    · cases hvalue

/-- The `ValueError` of `json.loads` leaves both decoders. -/
theorem decode_raises_valueError :
    (¬ ∀ e, JsonWorkspaceSnapshotCodec.decode data .default
        (JsonWorkspaceSnapshotCodec.resolver .default) = .error e →
        JsonWorkspaceSnapshotCodec.SnapshotError e.cls) ∧
      ¬ ∀ e, OneVariable.codec.decode snapshot = .error e → SnapshotError e.cls := by
  have hlength : payload.length = 4301 := List.length_replicate
  refine ⟨?_, ?_⟩
  · intro h
    refine ((JsonWorkspaceSnapshotCodec.decode_fails_iff data .default).mp h).1 ⟨?_, readerFails⟩
    show payload.length ≤ 32 * 1024 * 1024
    rw [hlength]
    decide
  · intro h
    refine (decode_fails_iff OneVariable.codec snapshot).mp h ⟨?_, rfl, ?_, rfl, readerFails⟩
    · show payload.length ≤ DEFAULT_MAX_PAYLOAD_BYTES
      rw [hlength]
      decide
    · exact hlength.symm

end JsonSessionSnapshotCodec.LongNumber
