import MemSandbox.Workspace.ArchiveDecoding
import MemSandbox.Workspace.Runs

/-! # Which exceptions leave the archive decoder

    Every function of `workspace/archive_codec.py` that `decode` calls raises
    the three snapshot errors only, or what one of the two `except` lists
    turns into one.  Two classes are in neither list: the `zlib.error` of the
    gzip reader, and the `OverflowError` of a segment whose length does not
    take four bytes.  `decode_raises_iff` says when they leave it. -/

open Python Tar FileMap Node

namespace PortableWorkspaceArchiveCodec

/-- The errors that a caller of `decode` is told of. -/
def DomainError (cls : ErrorClass) : Prop :=
  cls = .snapshotCorruptError ∨ cls = .snapshotIncompatibleError ∨ cls = .snapshotTooLargeError

/-! ## Section 1: Names -/

/-- Predicates on classes that hold of the two errors that most checks raise. -/
structure Admits (P : ErrorClass → Prop) : Prop where
  corrupt : P .snapshotCorruptError
  tooLarge : P .snapshotTooLargeError

theorem admits_domainError : Admits DomainError := ⟨.inl rfl, .inr (.inr rfl)⟩

section

variable {P : ErrorClass → Prop} (hP : Admits P)

include hP

theorem raises_corrupt {message : Text} : Raises P (corrupt message : Except PyError α) :=
  Raises.raise_iff.mpr hP.corrupt

theorem raises_requireSound {condition : Prop} [Decidable condition] {message : Text} :
    Raises P (requireSound condition message) :=
  Raises.of_require hP.corrupt

theorem raises_requireBounded {condition : Prop} [Decidable condition] {message : Text} :
    Raises P (requireBounded condition message) :=
  Raises.of_require hP.tooLarge

theorem raises_canonicalName (rawName : Text) (isDirectory : Bool) :
    Raises P (canonicalName rawName isDirectory) := by
  have hseparator : ∀ name, Raises P (withoutSeparator name isDirectory) := by
    intro name
    unfold withoutSeparator
    split
    · split
      · exact .ok
      · exact raises_corrupt hP
    · exact .ok
  have hparts : ∀ parts, Raises P (requirePortableParts parts) :=
    fun parts => (raises_requireSound hP).bind fun _ _ => raises_requireSound hP
  unfold canonicalName
  apply (raises_requireSound hP).bind
  intro _ _
  apply (raises_requireSound hP).bind
  intro _ _
  apply (raises_requireSound hP).bind
  intro _ _
  apply (raises_requireSound hP).bind
  intro _ _
  apply (hseparator _).bind
  intro name _
  exact (hparts _).bind fun _ _ => .ok

theorem raises_canonicalMemberName (rawName : Text) (isDirectory : Bool) :
    Raises P (canonicalMemberName rawName isDirectory) := by
  unfold canonicalMemberName
  split
  · split
    · exact .ok
    · exact raises_corrupt hP
  · exact (raises_canonicalName hP _ _).bind fun _ _ => .ok

theorem raises_validateRawHeaderName (rawName : Text) (isDirectory allow : Bool) :
    Raises P (validateRawHeaderName rawName isDirectory allow) :=
  (raises_canonicalMemberName hP _ _).bind fun _ _ => .ok

theorem raises_memberPath (rawName : Text) (isDirectory : Bool) (limits : WorkspaceLimits) :
    Raises P (memberPath rawName isDirectory limits) := by
  unfold memberPath
  apply (raises_canonicalMemberName hP _ _).bind
  intro found _
  cases found with
  | none => exact .ok
  | some name =>
    apply (raises_requireSound hP).bind
    intro _ _
    apply (raises_requireBounded hP).bind
    intro _ _
    apply (raises_requireBounded hP).bind
    intro _ _
    apply Raises.bind
    · apply Raises.of_rewrap hP.corrupt
      unfold SandboxPath.new
      split
      · exact .ok
      · exact Raises.raise_iff.mpr (.inl rfl)
    · exact fun _ _ => .ok

/-! ## Section 2: The scan -/

theorem raises_decodeHeaderPathField (field : Bytes) : Raises P (decodeHeaderPathField field) := by
  unfold decodeHeaderPathField
  apply (raises_requireSound hP).bind
  intro _ _
  cases decodeUtf8 (untilNul field) with
  | none => exact raises_corrupt hP
  | some text => exact .ok

theorem raises_rawHeaderName (header : Bytes) : Raises P (rawHeaderName header) := by
  unfold rawHeaderName
  apply (raises_decodeHeaderPathField hP _).bind
  intro name _
  apply (raises_decodeHeaderPathField hP _).bind
  intro fieldPrefix _
  split
  · exact .ok
  · split
    · exact (raises_requireSound hP).bind fun _ _ => .ok
    · exact (raises_requireSound hP).bind fun _ _ => .ok

theorem raises_paxRecordOf (payload : Bytes) : Raises P (paxRecordOf payload) := by
  have hlength : ∀ digits, Raises P (paxLength digits) := fun digits =>
    (raises_requireSound hP).bind fun _ _ => (raises_requireSound hP).bind fun _ _ => .ok
  unfold paxRecordOf
  apply (raises_requireSound hP).bind
  intro _ _
  apply (hlength _).bind
  intro recordLength _
  apply (raises_requireSound hP).bind
  intro _ _
  apply (raises_requireSound hP).bind
  intro _ _
  exact (raises_requireSound hP).bind fun _ _ => .ok

theorem raises_paxPathOf (record : PaxRecord) (limits : WorkspaceLimits) :
    Raises P (paxPathOf record limits) := by
  have hprecheck : ∀ value, Raises P (precheckEncodedMemberPath value limits) := by
    intro value
    unfold precheckEncodedMemberPath
    split
    · exact .ok
    · exact (raises_requireBounded hP).bind fun _ _ => raises_requireBounded hP
  unfold paxPathOf
  cases decodeUtf8 record.key with
  | none => exact raises_corrupt hP
  | some key =>
    apply (raises_requireSound hP).bind
    intro _ _
    split
    · apply (hprecheck _).bind
      intro _ _
      cases decodeUtf8 record.value with
      | none => exact raises_corrupt hP
      | some value => exact (raises_canonicalMemberName hP _ _).bind fun _ _ => .ok
    · exact .ok

omit hP in
/-- A record takes at least one byte of its payload. -/
theorem length_rest_lt {payload : Bytes} {record : PaxRecord}
    (h : paxRecordOf payload = .ok record) : record.rest.length < payload.length := by
  simp only [paxRecordOf, Except.bind_eq_ok_iff, requireSound_eq_ok, Except.ok.injEq] at h
  obtain ⟨-, hseparator, recordLength, -, -, ⟨hlower, -⟩, -, -, -, -, rfl⟩ := h
  show (payload.drop recordLength).length < payload.length
  rw [List.length_drop]
  omega

theorem raises_paxLoop {limits : WorkspaceLimits} {maxRecords fuel : Nat} {payload : Bytes}
    (hfuel : payload.length ≤ fuel) (path : Option Text) (recordCount : Nat) :
    Raises P (paxLoop limits maxRecords fuel payload path recordCount) := by
  induction fuel generalizing payload path recordCount with
  | zero =>
    have hnil : payload = [] := List.eq_nil_of_length_eq_zero (by omega)
    subst hnil
    unfold paxLoop
    exact .ok
  | succ fuel ih =>
    cases payload with
    | nil =>
      unfold paxLoop
      exact .ok
    | cons b payload =>
      unfold paxLoop
      apply (raises_requireBounded hP).bind
      intro _ _
      apply (raises_paxRecordOf hP _).bind
      intro record hrecord
      apply (raises_paxPathOf hP _ _).bind
      intro found _
      have hrest := length_rest_lt hrecord
      exact ih (by omega) _ _

theorem raises_requireCompleteTar (encoded : Bytes) (contentEnd : Nat) :
    Raises P (requireCompleteTar encoded contentEnd) :=
  raises_requireSound hP

theorem raises_scanBlock (limits : WorkspaceLimits) (header payload : Bytes) (info : TarInfo)
    (s : ScanState) : Raises P (scanBlock limits header payload info s) := by
  have hpax : ∀ maxRecords, Raises P (paxPathFromPayload payload limits maxRecords) :=
    fun _ => raises_paxLoop hP le_rfl _ _
  have hlocal : Raises P (scanLocalPax limits payload s) :=
    (raises_requireSound hP).bind fun _ _ => (hpax _).bind fun _ _ => .ok
  have hglobal : Raises P (scanGlobalPax limits payload s) :=
    (raises_requireSound hP).bind fun _ _ => (raises_requireSound hP).bind fun _ _ =>
      (hpax _).bind fun _ _ => (raises_requireSound hP).bind fun _ _ => .ok
  have hmember : Raises P (scanMember limits header info s) := by
    unfold scanMember
    apply (raises_rawHeaderName hP _).bind
    intro rawName _
    apply (raises_validateRawHeaderName hP _ _ _).bind
    intro _ _
    apply (raises_canonicalMemberName hP _ _).bind
    intro _ _
    exact (raises_requireBounded hP).bind fun _ _ => .ok
  unfold scanBlock
  split
  · exact hlocal
  · split
    · exact hglobal
    · split
      · exact raises_corrupt hP
      · exact hmember

/-- The scan takes a block from each header, so its fuel lasts.  The induction
    is on the fuel; what is left of the archive is less than that many blocks. -/
theorem raises_scanLoop {encoded : Bytes} {limits : WorkspaceLimits} {fuel cursor : Nat}
    (hfuel : encoded.length < cursor + BLOCKSIZE * fuel) (hcursor : cursor ≤ encoded.length)
    (s : ScanState) : Raises P (scanLoop encoded limits fuel cursor s) := by
  induction fuel generalizing cursor s with
  | zero => omega
  | succ fuel ih =>
    unfold scanLoop
    split
    · simp only []
      split
      · apply (raises_requireSound hP).bind
        intro _ _
        exact (raises_requireCompleteTar hP _ _).bind fun _ _ => .ok
      · cases frombuf (slice encoded cursor (cursor + BLOCKSIZE)) with
        | none => exact raises_corrupt hP
        | some info =>
          apply (raises_requireSound hP).bind
          intro _ _
          apply (raises_requireSound hP).bind
          intro _ hbounds
          rw [requireSound_eq_ok] at hbounds
          apply (raises_requireSound hP).bind
          intro _ _
          apply (raises_scanBlock hP _ _ _ _ _).bind
          intro next _
          apply ih
          · rw [Nat.mul_succ] at hfuel
            omega
          · exact hbounds.2
    · exact raises_corrupt hP

theorem raises_scanTarMembers (encoded : Bytes) (limits : WorkspaceLimits) :
    Raises P (scanTarMembers encoded limits) := by
  apply raises_scanLoop hP _ (Nat.zero_le _)
  have hdiv := Nat.div_add_mod encoded.length BLOCKSIZE
  have hmod := Nat.mod_lt encoded.length (show BLOCKSIZE > 0 by decide)
  rw [Nat.mul_succ]
  omega

/-! ## Section 3: The limits of a tree -/

theorem raises_validateTreeLimits (entries : List WorkspaceSnapshotEntry) (totalBytes : Nat)
    (limits : WorkspaceLimits) : Raises P (validateTreeLimits entries totalBytes limits) := by
  have hpath : ∀ path, Raises P (validateEntryPathLimits path limits) := fun path =>
    (raises_requireSound hP).bind fun _ _ => (raises_requireBounded hP).bind fun _ _ =>
      raises_requireBounded hP
  have hentries : Raises P (validateEntries limits entries) := by
    induction entries with
    | nil => exact .ok
    | cons entry rest ih =>
      unfold validateEntries
      apply (raises_memberPath hP _ _ _).bind
      intro portablePath _
      apply (raises_requireSound hP).bind
      intro _ _
      apply (hpath _).bind
      intro _ _
      exact (raises_requireBounded hP).bind fun _ _ => ih
  exact (raises_requireBounded hP).bind fun _ _ => (raises_requireBounded hP).bind fun _ _ =>
    hentries

end

/-! ## Section 4: The members -/

/-- What may be raised inside the `try` block of `_decode_tar`. -/
def MemberError (cls : ErrorClass) : Prop := isTarReaderError cls = true ∨ DomainError cls

theorem admits_memberError : Admits MemberError := ⟨.inr (.inl rfl), .inr (.inr (.inr rfl))⟩

/-- A library call that raises what `_decode_tar` catches. -/
abbrev ReaderRaises (x : Except PyError α) : Prop :=
  Raises (fun cls => isTarReaderError cls = true) x

/-- The exceptions of the library at a member: those of `extractfile`, and the
    one that ends its stream. -/
structure PayloadErrors (member : TarMember) : Prop where
  extract : ReaderRaises member.payload
  stream : ∀ stream, member.payload = .ok (some stream) → ∀ e, stream.failure = some e →
    isTarReaderError e.cls = true

theorem raises_reservePathMetadata (path : SandboxPath) (retained : Nat)
    (limits : WorkspaceLimits) : Raises MemberError (reservePathMetadata path retained limits) := by
  unfold reservePathMetadata
  apply (encode_raises (.inl rfl)).bind
  intro bytes _
  exact (raises_requireBounded admits_memberError).bind fun _ _ => .ok

theorem raises_new (path : SandboxPath) (value : Entry Bytes) :
    Raises MemberError (WorkspaceSnapshotEntry.new path value) := by
  unfold WorkspaceSnapshotEntry.new
  split
  · exact .ok
  · exact Raises.raise_iff.mpr (.inl rfl)

/-- The ancestors of a path within the limits join one after the other. -/
theorem raises_ensureParents {limits : WorkspaceLimits} {segments : List Text}
    {parent : SandboxPath} (hparent : parent.value ≠ [])
    (hsegments : ∀ segment ∈ segments, SandboxPath.ValidSegment segment)
    (hallows : limits.Allows (parent.parts ++ segments)) (s : DecodeState) :
    Raises MemberError (ensureParents limits segments parent s) := by
  induction segments generalizing parent s with
  | nil => exact .ok
  | cons segment rest ih =>
    obtain ⟨hsegment, hrest⟩ := List.forall_mem_cons.mp hsegments
    have hprefix : parent.parts ++ [segment] <+: parent.parts ++ segment :: rest := ⟨rest, by simp⟩
    obtain ⟨next, hjoin⟩ := join_of_allows hparent hsegment (hallows.of_isPrefix hprefix)
    obtain ⟨hvalue, hparts⟩ := join_segment hsegment hjoin
    have hnext : limits.Allows (next.parts ++ rest) := by
      rw [hparts, List.append_assoc]
      exact hallows
    unfold ensureParents
    rw [hjoin]
    dsimp only [bind, Except.bind]
    cases Dict.get? next s.entries with
    | some existing =>
      apply (raises_requireSound admits_memberError).bind
      exact fun _ _ => ih hvalue hrest hnext s
    | none =>
      apply (raises_reservePathMetadata _ _ _).bind
      intro retained _
      apply (raises_new _ _).bind
      intro entry _
      apply (raises_requireBounded admits_memberError).bind
      exact fun _ _ => ih hvalue hrest hnext _

theorem raises_readMember {stream : TarStream}
    (hstream : ∀ e, stream.failure = some e → isTarReaderError e.cls = true) (size : Nat) :
    Raises MemberError (readMember stream size) := by
  have hloop : ∀ fuel remaining content,
      Raises MemberError (readMemberLoop stream.failure size fuel remaining content) := by
    intro fuel
    induction fuel with
    | zero => exact fun _ _ => .ok
    | succ fuel ih =>
      intro remaining content
      unfold readMemberLoop
      split
      · simp only []
        split
        · cases hfailure : stream.failure with
          | none => exact raises_corrupt admits_memberError
          | some e => exact Raises.error_iff.mpr (.inl (hstream e hfailure))
        · exact ih _ _
      · exact .ok
  unfold readMember
  apply (hloop _ _ _).bind
  intro content _
  exact (raises_requireSound admits_memberError).bind fun _ _ => .ok

theorem raises_memberEntry {member : TarMember} (hmember : PayloadErrors member)
    (kind : NodeKind) (path : SandboxPath) (totalBytes : Nat) (limits : WorkspaceLimits) :
    Raises MemberError (memberEntry member kind path totalBytes limits) := by
  cases kind with
  | directory => exact (raises_requireSound admits_memberError).bind fun _ _ => .ok
  | file =>
    have hcontent : Raises MemberError (fileContent member path totalBytes limits) := by
      unfold fileContent
      apply (raises_requireSound admits_memberError).bind
      intro _ _
      apply (raises_requireBounded admits_memberError).bind
      intro _ _
      apply (raises_requireBounded admits_memberError).bind
      intro _ _
      apply (hmember.extract.mono fun _ h => .inl h).bind
      intro found hfound
      cases found with
      | none => exact raises_corrupt admits_memberError
      | some stream =>
        apply (raises_readMember (hmember.stream stream hfound) _).bind
        exact fun _ _ => .ok
    exact hcontent.bind fun _ _ => .ok

theorem raises_decodePathMember {member : TarMember} (hmember : PayloadErrors member)
    {path : SandboxPath} {limits : WorkspaceLimits}
    (hvalid : ∀ segment ∈ path.parts, SandboxPath.ValidSegment segment)
    (hallows : limits.Allows path.parts) (s : DecodeState) :
    Raises MemberError (decodePathMember member path s limits) := by
  have hparents : Raises MemberError (ensureParentDirectories path s limits) := by
    apply raises_ensureParents
    · exact SandboxPath.render_ne_nil []
    · exact fun segment hsegment => hvalid segment (List.dropLast_subset _ hsegment)
    · rw [SandboxPath.parts_root, List.nil_append]
      exact hallows.of_isPrefix (List.dropLast_prefix _)
  unfold decodePathMember
  apply hparents.bind
  intro s₁ _
  apply Raises.bind
  · unfold memberKind
    split
    · exact .ok
    · split
      · exact .ok
      · exact raises_corrupt admits_memberError
  intro kind _
  cases Dict.get? path s₁.entries with
  | some existing =>
    show Raises MemberError (mergeExisting member kind path existing s₁)
    unfold mergeExisting
    split
    · exact (raises_requireSound admits_memberError).bind fun _ _ => .ok
    · split
      · exact raises_corrupt admits_memberError
      · exact raises_corrupt admits_memberError
  | none =>
    show Raises MemberError (addMember member kind path s₁ limits)
    unfold addMember
    apply (raises_requireBounded admits_memberError).bind
    intro _ _
    apply (raises_reservePathMetadata _ _ _).bind
    intro retained _
    apply (raises_memberEntry hmember _ _ _ _).bind
    intro entry _
    apply (raises_new _ _).bind
    intro _ _
    exact (raises_requireBounded admits_memberError).bind fun _ _ => .ok

theorem raises_decodeMembers {limits : WorkspaceLimits} {members : List TarMember}
    (hmembers : ∀ member ∈ members, PayloadErrors member) (memberCount : Nat)
    (scannedMembers : List ScannedTarMember) (s : DecodeState) :
    Raises MemberError (decodeMembers limits members memberCount scannedMembers s) := by
  induction members generalizing memberCount scannedMembers s with
  | nil => exact .ok
  | cons member rest ih =>
    obtain ⟨hmember, hrest⟩ := List.forall_mem_cons.mp hmembers
    unfold decodeMembers
    apply (raises_requireBounded admits_memberError).bind
    intro _ _
    apply (raises_requireSound admits_memberError).bind
    intro _ _
    cases scannedMembers with
    | nil => exact raises_corrupt admits_memberError
    | cons scanned scannedMembers =>
      apply Raises.bind
      · unfold decodeMember
        apply (raises_canonicalMemberName admits_memberError _ _).bind
        intro parsedName _
        apply (raises_canonicalMemberName admits_memberError _ _).bind
        intro expectedName _
        apply (raises_requireSound admits_memberError).bind
        intro _ _
        apply (raises_memberPath admits_memberError _ _ _).bind
        intro found hfound
        cases found with
        | none =>
          apply (raises_requireSound admits_memberError).bind
          intro _ _
          exact (raises_requireSound admits_memberError).bind fun _ _ => .ok
        | some path =>
          obtain ⟨name, hname, hvalue, hallows⟩ := memberPath_eq_some.mp hfound
          have hportable := canonicalMemberName_portable hname
          have hparts := parts_of_memberPath hportable hvalue
          apply raises_decodePathMember hmember
          · rw [hparts]
            exact fun segment hsegment => (hportable.segments segment hsegment).valid
          · rw [hparts]
            exact hallows
      · exact fun next _ => ih hrest _ _ _

/-! ## Section 5: The gzip reader -/

/-- Asked for the next chunk, the reader reports invalid deflate data, or it
    delivers a chunk within the limit and reports them later. -/
inductive InflateFails (read : List Nat → Except PyError Bytes) (maxBytes : Nat) :
    List Nat → Bytes → Prop where
  | now {asked : List Nat} {content : Bytes} {e : PyError}
      (hread : read (asked ++ [min CHUNK_BYTES (maxBytes - content.length + 1)]) = .error e)
      (hcls : e.cls = .zlibError) : InflateFails read maxBytes asked content
  | later {asked : List Nat} {content chunk : Bytes}
      (hread : read (asked ++ [min CHUNK_BYTES (maxBytes - content.length + 1)]) = .ok chunk)
      (hne : chunk ≠ []) (hle : content.length + chunk.length ≤ maxBytes)
      (hrest : InflateFails read maxBytes
        (asked ++ [min CHUNK_BYTES (maxBytes - content.length + 1)]) (content ++ chunk)) :
      InflateFails read maxBytes asked content

section

variable {read : List Nat → Except PyError Bytes} {maxBytes fuel : Nat} {asked : List Nat}
  {content : Bytes}

theorem readLoop_error {e : PyError}
    (h : read (asked ++ [min CHUNK_BYTES (maxBytes - content.length + 1)]) = .error e) :
    readLoop read maxBytes (fuel + 1) asked content = .error e := by
  simp only [readLoop, h, bind, Except.bind]

theorem readLoop_end
    (h : read (asked ++ [min CHUNK_BYTES (maxBytes - content.length + 1)]) = .ok []) :
    readLoop read maxBytes (fuel + 1) asked content = .ok content := by
  simp only [readLoop, h, bind, Except.bind, if_true]

theorem readLoop_chunk {chunk : Bytes}
    (h : read (asked ++ [min CHUNK_BYTES (maxBytes - content.length + 1)]) = .ok chunk)
    (hne : chunk ≠ []) :
    readLoop read maxBytes (fuel + 1) asked content = (do
      requireBounded (content.length + chunk.length ≤ maxBytes)
        (py "archive expands beyond the " ++ Text.ofNat maxBytes ++ py "-byte limit")
      readLoop read maxBytes fuel (asked ++ [min CHUNK_BYTES (maxBytes - content.length + 1)])
        (content ++ chunk)) := by
  simp only [readLoop, h, bind, Except.bind, if_neg hne]

theorem readLoop_of_inflateFails
    (h : InflateFails read maxBytes asked content) (hle : content.length ≤ maxBytes)
    (hfuel : maxBytes < fuel + content.length) :
    ∃ e, readLoop read maxBytes fuel asked content = .error e ∧ e.cls = .zlibError := by
  induction h generalizing fuel with
  | @now asked content e hread hcls =>
    obtain ⟨fuel, rfl⟩ : ∃ n, fuel = n + 1 := ⟨fuel - 1, by omega⟩
    exact ⟨e, readLoop_error hread, hcls⟩
  | @later asked content chunk hread hne hbound hrest ih =>
    obtain ⟨fuel, rfl⟩ : ∃ n, fuel = n + 1 := ⟨fuel - 1, by omega⟩
    have hlength : 0 < chunk.length := List.length_pos_iff.mpr hne
    have hle' : (content ++ chunk).length ≤ maxBytes := by
      rw [List.length_append]
      omega
    have hfuel' : maxBytes < fuel + (content ++ chunk).length := by
      rw [List.length_append]
      omega
    obtain ⟨e, hloop, hcls⟩ := ih hle' hfuel'
    refine ⟨e, ?_, hcls⟩
    rw [readLoop_chunk hread hne, requireBounded, require, if_pos hbound]
    exact hloop

/-- The loop ends for every reader, and raises what the reader raises, or that
    the limit is exceeded. -/
theorem raises_readLoop
    (hread : ∀ sizes, Raises (fun cls => isGzipError cls = true ∨ cls = .zlibError) (read sizes))
    (hle : content.length ≤ maxBytes) (hfuel : maxBytes < fuel + content.length) :
    Raises (fun cls => isGzipError cls = true ∨ DomainError cls ∨
        cls = .zlibError ∧ InflateFails read maxBytes asked content)
      (readLoop read maxBytes fuel asked content) := by
  induction fuel generalizing asked content with
  | zero => omega
  | succ fuel ih =>
    cases hchunk : read (asked ++ [min CHUNK_BYTES (maxBytes - content.length + 1)]) with
    | error e =>
      rw [readLoop_error hchunk]
      apply Raises.error_iff.mpr
      rcases (hread _).of_error e hchunk with hgzip | hzlib
      · exact .inl hgzip
      · exact .inr (.inr ⟨hzlib, .now hchunk hzlib⟩)
    | ok chunk =>
      by_cases hne : chunk = []
      · subst hne
        rw [readLoop_end hchunk]
        exact .ok
      · have hlength : 0 < chunk.length := List.length_pos_iff.mpr hne
        rw [readLoop_chunk hchunk hne]
        apply Raises.bind
        · exact Raises.of_require (.inr (.inl (.inr (.inr rfl))))
        · intro _ hbound
          rw [requireBounded_eq_ok] at hbound
          apply (ih (by rw [List.length_append]; omega) (by rw [List.length_append]; omega)).mono
          intro cls hcls
          rcases hcls with hgzip | hdomain | ⟨hzlib, hfails⟩
          · exact .inl hgzip
          · exact .inr (.inl hdomain)
          · exact .inr (.inr ⟨hzlib, .later hchunk hne hbound hfails⟩)

end

/-! ## Section 6: The names of an accepted archive -/

theorem subset_set {s : DecodeState} {path : SandboxPath} {entry : WorkspaceSnapshotEntry}
    (hnew : Dict.get? path s.entries = none) : s.entries ⊆ Dict.set path entry s.entries := by
  rw [Dict.set_of_not_mem (Dict.get?_eq_none_iff.mp hnew)]
  exact List.subset_append_left _ _

theorem ensureParents_subset {limits : WorkspaceLimits} {segments : List Text}
    {parent : SandboxPath} {s s' : DecodeState}
    (h : ensureParents limits segments parent s = .ok s') : s.entries ⊆ s'.entries := by
  induction segments generalizing parent s with
  | nil =>
    rw [ensureParents, Except.ok.injEq] at h
    rw [h]
    exact List.Subset.refl _
  | cons segment rest ih =>
    simp only [ensureParents, Except.bind_eq_ok_iff] at h
    obtain ⟨next, -, h⟩ := h
    cases hget : Dict.get? next s.entries with
    | some existing =>
      simp only [hget, Except.bind_eq_ok_iff] at h
      obtain ⟨-, -, h⟩ := h
      exact ih h
    | none =>
      simp only [hget, Except.bind_eq_ok_iff] at h
      obtain ⟨retained, -, entry, -, -, -, h⟩ := h
      exact List.Subset.trans (subset_set hget) (ih h)

/-- A member's name has its entry, and is within the limits. -/
theorem decodeMember_names {member : TarMember} {scanned : ScannedTarMember}
    {limits : WorkspaceLimits} {s s' : DecodeState}
    (h : decodeMember member scanned s limits = .ok s') :
    s.entries ⊆ s'.entries ∧
      ∀ name, canonicalMemberName member.name member.isdir = .ok (some name) →
        limits.Allows (split slash name) ∧ ∃ item ∈ s'.entries, item.1.parts = split slash name := by
  simp only [decodeMember, Except.bind_eq_ok_iff, requireSound_eq_ok] at h
  obtain ⟨parsedName, hparsed, expectedName, hexpected, -, heq, found, hfound, h⟩ := h
  cases found with
  | none =>
    simp only [decodeRootMarker, Except.bind_eq_ok_iff, Except.ok.injEq] at h
    obtain ⟨-, -, -, -, rfl⟩ := h
    refine ⟨List.Subset.refl _, ?_⟩
    intro name hname
    -- the scanned name is the same one, and has no path
    rw [hname, Except.ok.injEq] at hparsed
    rw [← heq, ← hparsed] at hexpected
    simp only [memberPath, hexpected, Except.bind_eq_ok_iff, Except.ok.injEq, exists_eq_left',
      reduceCtorEq, and_false, exists_false] at hfound
  | some path =>
    obtain ⟨name, hname, hvalue, hallows⟩ := memberPath_eq_some.mp hfound
    have hparts := parts_of_memberPath (canonicalMemberName_portable hname) hvalue
    simp only [decodePathMember, ensureParentDirectories, Except.bind_eq_ok_iff] at h
    obtain ⟨s₁, hensure, kind, -, h⟩ := h
    have hsub := ensureParents_subset hensure
    have hadded : s₁.entries ⊆ s'.entries ∧ ∃ item ∈ s'.entries, item.1 = path := by
      cases hget : Dict.get? path s₁.entries with
      | some existing =>
        simp only [hget] at h
        rw [mergeExisting_entries h]
        exact ⟨List.Subset.refl _, _, Dict.mem_of_get? hget, rfl⟩
      | none =>
        simp only [hget] at h
        obtain ⟨entry, -, hentries⟩ := addMember_entries h
        rw [hentries]
        exact ⟨subset_set hget, _, Dict.mem_of_get? (Dict.get?_set_self _ _ _), rfl⟩
    refine ⟨List.Subset.trans hsub hadded.1, ?_⟩
    intro name' hname'
    have hsame : name' = name := by
      rw [hname', Except.ok.injEq] at hparsed
      rw [hname, Except.ok.injEq, ← heq, ← hparsed] at hexpected
      exact (Option.some.inj hexpected).symm
    obtain ⟨item, hitem, rfl⟩ := hadded.2
    exact hsame ▸ ⟨hallows, item, hitem, hparts⟩

theorem decodeMembers_names {limits : WorkspaceLimits} {members : List TarMember}
    {memberCount : Nat} {scannedMembers omitted : List ScannedTarMember} {s s' : DecodeState}
    (h : decodeMembers limits members memberCount scannedMembers s = .ok (omitted, s')) :
    s.entries ⊆ s'.entries ∧
      ∀ member ∈ members, ∀ name,
        canonicalMemberName member.name member.isdir = .ok (some name) →
        limits.Allows (split slash name) ∧ ∃ item ∈ s'.entries, item.1.parts = split slash name := by
  induction members generalizing memberCount scannedMembers s with
  | nil =>
    simp only [decodeMembers, Except.ok.injEq, Prod.mk.injEq] at h
    rw [h.2]
    exact ⟨List.Subset.refl _, by simp⟩
  | cons member rest ih =>
    simp only [decodeMembers, Except.bind_eq_ok_iff] at h
    obtain ⟨-, -, -, -, h⟩ := h
    cases scannedMembers with
    | nil => exact absurd h corrupt_ne_ok
    | cons scanned scannedMembers =>
      simp only [Except.bind_eq_ok_iff] at h
      obtain ⟨next, hstep, h⟩ := h
      obtain ⟨hsub, hnames⟩ := decodeMember_names hstep
      obtain ⟨hsub', hrest⟩ := ih h
      refine ⟨List.Subset.trans hsub hsub', List.forall_mem_cons.mpr ⟨?_, hrest⟩⟩
      intro name hname
      obtain ⟨hallows, item, hitem, hparts⟩ := hnames name hname
      exact ⟨hallows, item, hsub' hitem, hparts⟩

/-- The errors of the hash are not among the three. -/
theorem not_domainError_of_hash {cls : ErrorClass} (h : IsHashError cls) :
    ¬ DomainError cls := by
  rcases h with rfl | rfl | rfl <;> simp [DomainError]

variable [TarReader]

/-- Every name that the reader gives a member is the path of an entry. -/
theorem decodeTar_names {encoded : Bytes} {limits : WorkspaceLimits}
    {entries : List WorkspaceSnapshotEntry} (h : decodeTar encoded limits = .ok entries)
    {name : Text} (hname : EffectiveName encoded name) :
    limits.Allows (split slash name) ∧ ∃ entry ∈ entries, entry.path.parts = split slash name := by
  simp only [decodeTar, Except.bind_eq_ok_iff, rewrap_eq_ok, Except.ok.injEq] at h
  obtain ⟨scannedMembers, -, s, hread, rfl⟩ := h
  simp only [readMembers, Except.bind_eq_ok_iff, Except.ok.injEq] at hread
  obtain ⟨⟨omitted, s₁⟩, hmembers, offset, -, -, -, -, -, rfl⟩ := hread
  have hs : Decoding (EffectiveName encoded) s₁ :=
    decodeMembers_decoding .start (fun member hmember name hname => ⟨member, hmember, hname⟩) hmembers
  obtain ⟨member, hmember, hcanonical⟩ := hname
  obtain ⟨hallows, item, hitem, hparts⟩ := (decodeMembers_names hmembers).2 member hmember name hcanonical
  refine ⟨hallows, item.2, List.mem_map_of_mem (mem_sorted.mpr hitem), ?_⟩
  rw [(hs.keyed item hitem).1]
  exact hparts

/-- A name with a segment whose length does not take four bytes. -/
def LongName (name : Text) : Prop :=
  ∃ segment ∈ split slash name, ∃ n, utf8Length segment = some n ∧ 2 ^ 32 ≤ n

/-- The entries can be hashed when no name is that long. -/
theorem decodeTar_hashable_iff {encoded : Bytes} {limits : WorkspaceLimits}
    {entries : List WorkspaceSnapshotEntry} (h : decodeTar encoded limits = .ok entries) :
    (∀ entry ∈ entries, ∀ part ∈ entry.path.parts, HashableName part) ↔
      ¬ ∃ name, EffectiveName encoded name ∧ LongName name := by
  obtain ⟨-, hspec⟩ := decodeTar_spec h
  constructor
  · intro hall hlong
    obtain ⟨name, hname, segment, hsegment, n, hn, hle⟩ := hlong
    obtain ⟨-, entry, hentry, hparts⟩ := decodeTar_names h hname
    obtain ⟨-, bytes, hbytes, hlt⟩ := hall entry hentry segment (hparts ▸ hsegment)
    rw [utf8Length, hbytes, Option.map_some, Option.some.injEq] at hn
    omega
  · intro hshort entry hentry part hpart
    obtain ⟨hvalue, ⟨name, hname, hprefix⟩, -⟩ := hspec entry hentry
    have hsegment := hprefix.subset hpart
    obtain ⟨hallows, -⟩ := decodeTar_names h hname
    obtain ⟨n, hn, -⟩ := hallows.segments part (List.mem_cons_of_mem _ hsegment)
    refine ⟨(SandboxPath.value_eq_render hvalue).2 part hpart, ?_⟩
    obtain ⟨bytes, hbytes, rfl⟩ := Option.map_eq_some_iff.mp hn
    refine ⟨bytes, hbytes, ?_⟩
    by_contra hle
    exact hshort ⟨name, hname, part, hsegment, _, hn, by omega⟩

/-! ## Section 7: Decoding -/

theorem raises_decodeTar (hreader : ∀ encoded, ReaderRaises (TarReader.read encoded).2)
    (hmembers : ∀ encoded, ∀ member ∈ (TarReader.read encoded).1, PayloadErrors member)
    (encoded : Bytes) (limits : WorkspaceLimits) : Raises DomainError (decodeTar encoded limits) := by
  have hread : ∀ scannedMembers, Raises MemberError (readMembers encoded scannedMembers limits) := by
    intro scannedMembers
    unfold readMembers
    apply (raises_decodeMembers (hmembers encoded) _ _ _).bind
    intro _ _
    apply ((hreader encoded).mono fun _ h => .inl h).bind
    intro offset _
    apply (raises_requireSound admits_memberError).bind
    intro _ _
    exact (raises_requireCompleteTar admits_memberError _ _).bind fun _ _ => .ok
  unfold decodeTar
  apply (raises_scanTarMembers admits_domainError _ _).bind
  intro scannedMembers _
  exact (Raises.of_rewrap (.inl rfl) (hread _)).bind fun _ _ => .ok

/-- The entries of an accepted archive are measured, unless a name is too long. -/
theorem measure_decodeTar [Sha256] {tarBytes : Bytes} {limits : WorkspaceLimits}
    {entries : List WorkspaceSnapshotEntry} (h : decodeTar tarBytes limits = .ok entries) :
    ((∃ stats, measureWorkspaceEntries entries = .ok stats) ↔
      ¬ ∃ name, EffectiveName tarBytes name ∧ LongName name) ∧
    Raises IsHashError (measureWorkspaceEntries entries) := by
  obtain ⟨hsorted, hspec⟩ := decodeTar_spec h
  have hvalue : ∀ entry ∈ entries, entry.path.value ≠ [] :=
    fun entry hentry => (hspec entry hentry).1
  have hdistinct : (entries.map fun entry => entry.path.value).Nodup :=
    List.Pairwise.map _ (fun _ _ hlt => ne_of_lt hlt) hsorted
  have hclosed := fun entry hentry => (hspec entry hentry).2.2
  rw [measureWorkspaceEntries_isOk_iff hvalue hdistinct hclosed, decodeTar_hashable_iff h]
  exact ⟨Iff.rfl, measureWorkspaceEntries_raises_of_closed hvalue hdistinct hclosed⟩

variable [GzipReader]

/-- The archive is gzip, and the reader meets invalid deflate data within what
    the codec reads of it. -/
def DeflateFails (encoded : Bytes) (limits : WorkspaceLimits) : Prop :=
  encoded.length ≤ limits.maxSnapshotBytes ∧ startsWith encoded GZIP_MAGIC = true ∧
    InflateFails (GzipReader.read encoded) limits.maxSnapshotBytes [] []

/-- The archive is expanded and its members are accepted, and one of their names
    has a segment whose length does not take four bytes. -/
def LongSegment (encoded : Bytes) (limits : WorkspaceLimits) : Prop :=
  encoded.length ≤ limits.maxSnapshotBytes ∧
    ∃ tarBytes, expandArchive encoded limits.maxSnapshotBytes = .ok tarBytes ∧
      (∃ entries, decodeTar tarBytes limits = .ok entries) ∧
      ∃ name, EffectiveName tarBytes name ∧ LongName name

/-- The exceptions that the standard library's readers are documented to raise. -/
structure ReaderErrors : Prop where
  iterate : ∀ encoded, ReaderRaises (TarReader.read encoded).2
  payload : ∀ encoded, ∀ member ∈ (TarReader.read encoded).1, PayloadErrors member
  inflate : ∀ encoded sizes, Raises (fun cls => isGzipError cls = true ∨ cls = .zlibError)
    (GzipReader.read encoded sizes)

theorem raises_expandArchive (hreaders : ReaderErrors) {encoded : Bytes} {limits : WorkspaceLimits}
    (hlength : encoded.length ≤ limits.maxSnapshotBytes) :
    Raises (fun cls => DomainError cls ∨ cls = .zlibError ∧ DeflateFails encoded limits)
      (expandArchive encoded limits.maxSnapshotBytes) := by
  unfold expandArchive
  by_cases hmagic : startsWith encoded GZIP_MAGIC = true
  · rw [if_pos hmagic]
    apply Raises.of_rewrap (.inl (.inl rfl))
    apply (raises_readLoop (hreaders.inflate encoded) (Nat.zero_le _) (by simp)).mono
    intro cls hcls
    rcases hcls with hgzip | hdomain | ⟨hzlib, hfails⟩
    · exact .inl hgzip
    · exact .inr (.inl hdomain)
    · exact .inr (.inr ⟨hzlib, hlength, hmagic, hfails⟩)
  · rw [if_neg hmagic]
    split
    · exact Raises.raise_iff.mpr (.inl (.inr (.inl rfl)))
    · exact .ok

/-- Exactly when `decode` raises nothing but the three errors. -/
theorem decode_raises_iff [Sha256] (hreaders : ReaderErrors) (encoded : Bytes) (limits : WorkspaceLimits) :
    (∀ e, decode encoded limits = .error e → DomainError e.cls) ↔
      ¬ DeflateFails encoded limits ∧ ¬ LongSegment encoded limits := by
  constructor
  · intro h
    refine ⟨?_, ?_⟩
    · intro hfails
      obtain ⟨hlength, hmagic, hfails⟩ := hfails
      obtain ⟨e, hloop, hcls⟩ := readLoop_of_inflateFails hfails (Nat.zero_le _)
        (show limits.maxSnapshotBytes < (limits.maxSnapshotBytes + 1) + 0 by omega)
      have huncaught : isGzipError e.cls = false := by
        rw [hcls]
        rfl
      have hexpand : expandArchive encoded limits.maxSnapshotBytes = .error e := by
        rw [expandArchive, if_pos hmagic, readBounded, hloop, rewrap, huncaught]
        rfl
      have hdecode : decode encoded limits = .error e := by
        simp only [decode, requireBounded, require, if_pos hlength, hexpand, bind, Except.bind]
      have hdomain := h e hdecode
      rw [DomainError, hcls] at hdomain
      simp at hdomain
    · intro hlong
      obtain ⟨hlength, tarBytes, hexpand, ⟨entries, htar⟩, hname⟩ := hlong
      obtain ⟨hmeasured, hraises⟩ := measure_decodeTar htar
      cases hresult : measureWorkspaceEntries entries with
      | ok stats => exact hmeasured.mp ⟨stats, hresult⟩ hname
      | error e =>
        have hdecode : decode encoded limits = .error e := by
          simp only [decode, requireBounded, require, if_pos hlength, hexpand, htar, hresult, bind,
            Except.bind]
        exact not_domainError_of_hash (hraises.of_error e hresult) (h e hdecode)
  · intro h
    obtain ⟨hinflate, hshort⟩ := h
    have hraises : Raises DomainError (decode encoded limits) := by
      unfold decode
      apply (raises_requireBounded admits_domainError).bind
      intro _ hlength
      rw [requireBounded_eq_ok] at hlength
      apply Raises.bind
      · apply (raises_expandArchive hreaders hlength).mono
        intro cls hcls
        exact hcls.resolve_right fun hzlib => hinflate hzlib.2
      intro tarBytes hexpand
      apply (raises_decodeTar hreaders.iterate hreaders.payload _ _).bind
      intro entries htar
      have hname : ¬ ∃ name, EffectiveName tarBytes name ∧ LongName name :=
        fun hname => hshort ⟨hlength, tarBytes, hexpand, ⟨entries, htar⟩, hname⟩
      obtain ⟨stats, hstats⟩ := (measure_decodeTar htar).1.mpr hname
      rw [hstats]
      apply Raises.bind .ok
      intro _ _
      exact (raises_validateTreeLimits admits_domainError _ _ _).bind fun _ _ => .ok
    exact hraises.of_error

end PortableWorkspaceArchiveCodec

/-! ## Section 8: A damaged archive -/

namespace PortableWorkspaceArchiveCodec.DamagedArchive

open NewWorkspace

/-- A gzip header, and a deflate block of a type that does not exist. -/
def archive : Bytes := [0x1F, 0x8B, 8, 0, 0, 0, 0, 0, 0, 0xFF, 0xFF]

scoped instance gzip : GzipReader where
  read encoded _ :=
    if encoded = archive then
      raise .zlibError (py "Error -3 while decompressing data: invalid block type")
    else
      raise .osError (py "Not a gzipped file")

scoped instance tar : TarReader where
  read _ := ([], raise .tarError (py "empty file"))

theorem readerErrors : ReaderErrors where
  iterate _ := Raises.raise_iff.mpr rfl
  payload _ member hmember := by cases hmember
  inflate encoded sizes := by
    show Raises _ (if encoded = archive then _ else _)
    split
    · exact Raises.raise_iff.mpr (.inr rfl)
    · exact Raises.raise_iff.mpr (.inl rfl)

/-- The error of the gzip reader leaves `decode` as it is. -/
theorem decode_raises_zlibError :
    ReaderErrors ∧ ¬ ∀ e, decode archive .default = .error e → DomainError e.cls := by
  refine ⟨readerErrors, ?_⟩
  intro h
  have hdecode : decode archive .default =
      .error ⟨.zlibError, py "Error -3 while decompressing data: invalid block type"⟩ := rfl
  have hdomain := h _ hdecode
  simp [DomainError] at hdomain

theorem decode_raises_iff_archive :
    (∀ e, decode archive .default = .error e → DomainError e.cls) ↔
      ¬ DeflateFails archive .default ∧ ¬ LongSegment archive .default :=
  decode_raises_iff readerErrors archive .default

end PortableWorkspaceArchiveCodec.DamagedArchive
