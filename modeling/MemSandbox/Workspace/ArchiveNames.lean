import MemSandbox.Workspace.SnapshotTree

/-! # Names of archive members

    The name grammar of `workspace/archive_codec.py`: canonical member names,
    the raw name of a physical header, and the path a member stands for. -/

open Python

namespace PortableWorkspaceArchiveCodec

/-! ## Section 1: The grammar -/

/-- `raise SnapshotCorruptError(message)`. -/
def corrupt (message : Text) : Except PyError α := raise .snapshotCorruptError message

/-- `if not condition: raise SnapshotCorruptError(message)`. -/
def requireSound (condition : Prop) [Decidable condition] (message : Text) : Except PyError Unit :=
  require condition .snapshotCorruptError message

/-- `if not condition: raise SnapshotTooLargeError(message)`. -/
def requireBounded (condition : Prop) [Decidable condition] (message : Text) :
    Except PyError Unit :=
  require condition .snapshotTooLargeError message

def backslash : CodePoint := 0x5C
def colon : CodePoint := 0x3A

/-- `PureWindowsPath(text).drive` is not empty, for a text without backslash
    and with no separator in front. -/
def hasDrive (text : Text) : Bool := text[1]? = some colon

/-- The name without the separator that may end a directory's. -/
def withoutSeparator (rawName : Text) (isDirectory : Bool) : Except PyError Text :=
  if endsWith rawName (py "/") then
    if isDirectory then
      .ok rawName.dropLast
    else
      corrupt (py "archive file path must not end with a separator")
  else
    .ok rawName

/-- The segments of a name that may stand for a path. -/
def requirePortableParts (parts : List Text) : Except PyError Unit := do
  requireSound (∀ part ∈ parts, part ≠ [] ∧ part ≠ py "." ∧ part ≠ py "..")
    (py "archive member path contains traversal or aliases")
  requireSound (∀ part ∈ parts, hasDrive part = false)
    (py "archive member path contains Windows drive syntax")

/-- `_canonical_member_name`, after the root marker has been told apart. -/
def canonicalName (rawName : Text) (isDirectory : Bool) : Except PyError Text := do
  let rawName := if startsWith rawName (py "./") then rawName.drop 2 else rawName
  requireSound (rawName ≠ [] ∧ nul ∉ rawName)
    (py "archive member path must not be empty or contain NUL")
  requireSound (startsWith rawName (py "/") = false) (py "archive member path must be relative")
  requireSound (backslash ∉ rawName ∧ hasDrive rawName = false)
    (py "archive member path must use portable POSIX syntax")
  requireSound (contains (py "//") rawName = false) (py "archive member path must be canonical")
  let name ← withoutSeparator rawName isDirectory
  requirePortableParts (split slash name)
  .ok name

/-- `_canonical_member_name`; `none` stands for the root marker. -/
def canonicalMemberName (rawName : Text) (isDirectory : Bool) : Except PyError (Option Text) :=
  if rawName = py "." ∨ rawName = py "./" then
    if isDirectory then
      .ok none
    else
      corrupt (py "archive root marker must be a directory")
  else do
    let name ← canonicalName rawName isDirectory
    .ok (some name)

/-- A text of at most so many UTF-8 bytes; a text with surrogates is not one. -/
def FitsBytes (limit : Nat) (text : Text) : Prop := ∃ n ∈ utf8Length text, n ≤ limit

instance (limit : Nat) (text : Text) : Decidable (FitsBytes limit text) :=
  inferInstanceAs (Decidable (∃ n ∈ utf8Length text, n ≤ limit))

/-- The message of a segment that is too long. -/
def segmentMessage (limits : WorkspaceLimits) : Text :=
  py "archive member path segment exceeds " ++ Text.ofNat limits.maxSegmentBytes ++
    py " UTF-8 bytes"

/-- The message of a path that is too long. -/
def pathMessage (limits : WorkspaceLimits) : Text :=
  py "archive member path exceeds " ++ Text.ofNat limits.maxPathBytes ++ py " UTF-8 bytes"

/-- `_member_path`; `none` stands for the root marker. -/
def memberPath (rawName : Text) (isDirectory : Bool) (limits : WorkspaceLimits) :
    Except PyError (Option SandboxPath) := do
  match ← canonicalMemberName rawName isDirectory with
  | none => .ok none
  | some canonicalName => do
    let parts := split slash canonicalName
    let absolute := SandboxPath.ROOT ++ py "/" ++ canonicalName
    requireSound ((∀ part ∈ parts, ValidUtf8 part) ∧ ValidUtf8 absolute)
      (py "archive member path must be valid UTF-8")
    requireBounded (∀ part ∈ parts, FitsBytes limits.maxSegmentBytes part) (segmentMessage limits)
    requireBounded (FitsBytes limits.maxPathBytes absolute) (pathMessage limits)
    let path ← rewrap (SandboxPath.new absolute) (· = .invalidPathError) .snapshotCorruptError
      (py "archive member contains an invalid path")
    .ok (some path)

/-- `_validate_raw_header_name`. -/
def validateRawHeaderName (rawName : Text) (isDirectory allowTruncatedFileSeparator : Bool) :
    Except PyError Unit := do
  let truncated := allowTruncatedFileSeparator && !isDirectory && endsWith rawName (py "/") &&
    !endsWith rawName (py "//")
  let _ ← canonicalMemberName (if truncated then rawName.dropLast else rawName) isDirectory
  .ok ()

/-! ## Section 2: What a name is -/

/-- A segment that an archive may hold. -/
structure PortableSegment (s : Text) : Prop where
  valid : SandboxPath.ValidSegment s
  no_backslash : backslash ∉ s
  no_drive : hasDrive s = false

/-- Segments that a canonical name consists of. -/
structure PortableParts (parts : List Text) : Prop where
  ne_nil : parts ≠ []
  segments : ∀ s ∈ parts, PortableSegment s

/-- The name without the marker of the current directory in front. -/
def withoutMarker (rawName : Text) : Text :=
  if startsWith rawName (py "./") then rawName.drop 2 else rawName

theorem requireSound_eq_ok {condition : Prop} [Decidable condition] {message : Text} {u : Unit} :
    requireSound condition message = .ok u ↔ condition := require_eq_ok

theorem requireBounded_eq_ok {condition : Prop} [Decidable condition] {message : Text}
    {u : Unit} : requireBounded condition message = .ok u ↔ condition := require_eq_ok

theorem corrupt_ne_ok {message : Text} {a : α} : corrupt message ≠ .ok a := raise_ne_ok

theorem withoutSeparator_eq_ok {rawName name : Text} {isDirectory : Bool} :
    withoutSeparator rawName isDirectory = .ok name ↔
      (rawName = name ∧ ¬ py "/" <:+ name) ∨ (isDirectory = true ∧ rawName = name ++ py "/") := by
  unfold withoutSeparator
  by_cases hend : endsWith rawName (py "/") = true
  · obtain ⟨front, hfront⟩ := endsWith_iff.mp hend
    have hdrop : rawName.dropLast = front := by
      rw [← hfront]
      exact List.dropLast_concat
    rw [if_pos hend]
    by_cases hdir : isDirectory = true
    · rw [if_pos hdir, hdrop, Except.ok.injEq]
      constructor
      · intro h
        exact .inr ⟨hdir, by rw [← h, hfront]⟩
      · intro h
        rcases h with ⟨rfl, hno⟩ | ⟨-, hraw⟩
        · exact absurd (endsWith_iff.mp hend) hno
        · exact List.append_cancel_right (hfront.trans hraw)
    · rw [if_neg hdir]
      constructor
      · intro h
        exact absurd h corrupt_ne_ok
      · intro h
        rcases h with ⟨rfl, hno⟩ | ⟨hyes, -⟩
        · exact absurd (endsWith_iff.mp hend) hno
        · exact absurd hyes hdir
  · rw [if_neg hend, Except.ok.injEq]
    rw [endsWith_iff] at hend
    constructor
    · intro h
      subst h
      exact .inl ⟨rfl, hend⟩
    · intro h
      rcases h with ⟨h, -⟩ | ⟨-, hraw⟩
      · exact h
      · exact absurd ⟨name, hraw.symm⟩ hend

theorem slash_text : py "/" = [slash] := rfl

/-- The pieces of a name are not empty, so no separator doubles, leads or ends. -/
theorem PortableParts.no_double {name : Text} (h : PortableParts (split slash name)) :
    ¬ py "//" <:+: name ∧ ¬ py "/" <+: name ∧ ¬ py "/" <:+ name := by
  have hne : [] ∉ split slash name := fun hmem => (h.segments [] hmem).valid.ne_nil rfl
  have hpiece : ∀ front back : Text, front ++ slash :: back = name →
      [] ∉ split slash front ∧ [] ∉ split slash back := by
    intro front back heq
    rw [← heq, split_append_cons, List.mem_append, not_or] at hne
    exact hne
  have hnil : [] ∈ split slash [] := by simp [split]
  refine ⟨?_, ?_, ?_⟩
  · intro hinfix
    obtain ⟨front, back, heq⟩ := hinfix
    have hsplit := hpiece front (slash :: back) (by rw [← heq]; simp [py, slash])
    rw [split_cons_sep] at hsplit
    exact hsplit.2 List.mem_cons_self
  · intro hprefix
    obtain ⟨back, heq⟩ := hprefix
    exact (hpiece [] back heq).1 hnil
  · intro hsuffix
    obtain ⟨front, heq⟩ := hsuffix
    exact (hpiece front [] heq).2 hnil

/-- A directory's separator does not bring a double one. -/
theorem PortableParts.no_double_concat {name : Text} (h : PortableParts (split slash name)) :
    ¬ py "//" <:+: name ++ py "/" := by
  intro hinfix
  obtain ⟨hinner, -, hend⟩ := h.no_double
  obtain ⟨front, back, heq⟩ := hinfix
  rcases List.eq_nil_or_concat back with rfl | ⟨back, last, rfl⟩
  · have hcut : front ++ py "/" = name := by
      have hconcat : (front ++ py "/") ++ py "/" = name ++ py "/" := by
        rw [← heq]
        simp [py]
      exact List.append_cancel_right hconcat
    exact hend ⟨front, hcut⟩
  · have hcut : front ++ py "//" ++ back = name := by
      have hconcat : (front ++ py "//" ++ back) ++ [last] = name ++ py "/" := by
        rw [← heq]
        simp
      exact List.append_inj_left' hconcat rfl
    exact hinner ⟨front, back, hcut⟩

theorem hasDrive_append {head rest : Text} (hne : head ≠ []) (hno : hasDrive head = false)
    (hrest : rest.head? ≠ some colon) : hasDrive (head ++ rest) = false := by
  unfold hasDrive at hno ⊢
  rw [decide_eq_false_iff_not] at hno ⊢
  match head with
  | [] => exact absurd rfl hne
  | [_] => simpa [List.head?_eq_getElem?] using hrest
  | _ :: c :: _ => simpa using hno

/-- No drive in front, when the first piece has none. -/
theorem PortableParts.no_drive {name : Text} (h : PortableParts (split slash name)) :
    hasDrive name = false ∧ hasDrive (name ++ py "/") = false := by
  cases hsplit : split slash name with
  | nil => exact absurd hsplit (split_ne_nil slash name)
  | cons head tail =>
    have hhead := h.segments head (by simp [hsplit])
    have hjoin := join_split slash name
    rw [hsplit, join_cons] at hjoin
    have hslash : slash ≠ colon := by decide
    have hrest : ∀ last : Text, last.head? ≠ some colon →
        ((tail.flatMap fun s => [slash] ++ s) ++ last).head? ≠ some colon := by
      intro last hlast
      cases tail with
      | nil => simpa using hlast
      | cons next tail => simpa using hslash
    rw [← hjoin]
    refine ⟨?_, ?_⟩
    · have hdrive := hasDrive_append hhead.valid.ne_nil hhead.no_drive (hrest [] (by simp))
      rwa [List.append_nil] at hdrive
    · rw [List.append_assoc]
      exact hasDrive_append hhead.valid.ne_nil hhead.no_drive (hrest (py "/") (by decide))

theorem requirePortableParts_eq_ok {parts : List Text} {u : Unit} :
    requirePortableParts parts = .ok u ↔
      ∀ part ∈ parts, (part ≠ [] ∧ part ≠ py "." ∧ part ≠ py "..") ∧ hasDrive part = false := by
  simp only [requirePortableParts, Except.bind_eq_ok_iff, requireSound_eq_ok]
  constructor
  · intro h part hpart
    obtain ⟨-, hnames, hdrives⟩ := h
    exact ⟨hnames part hpart, hdrives part hpart⟩
  · intro h
    exact ⟨(), fun part hpart => (h part hpart).1, fun part hpart => (h part hpart).2⟩

/-- A canonical name is portable segments joined by single separators; what is
    given may have the marker in front, and a directory's a separator behind. -/
theorem canonicalName_eq_ok {rawName name : Text} {isDirectory : Bool} :
    canonicalName rawName isDirectory = .ok name ↔
      PortableParts (split slash name) ∧ (withoutMarker rawName = name ∨
        (isDirectory = true ∧ withoutMarker rawName = name ++ py "/")) := by
  have hunfold : canonicalName rawName isDirectory = .ok name ↔
      (withoutMarker rawName ≠ [] ∧ nul ∉ withoutMarker rawName) ∧
      startsWith (withoutMarker rawName) (py "/") = false ∧
      (backslash ∉ withoutMarker rawName ∧ hasDrive (withoutMarker rawName) = false) ∧
      contains (py "//") (withoutMarker rawName) = false ∧
      withoutSeparator (withoutMarker rawName) isDirectory = .ok name ∧
      requirePortableParts (split slash name) = .ok () := by
    simp only [canonicalName, Except.bind_eq_ok_iff, requireSound_eq_ok, ← withoutMarker.eq_1,
      Except.ok.injEq]
    constructor
    · intro h
      obtain ⟨-, h₁, -, h₂, -, h₃, -, h₄, name', h₅, u, h₆, rfl⟩ := h
      exact ⟨h₁, h₂, h₃, h₄, h₅, h₆⟩
    · intro h
      obtain ⟨h₁, h₂, h₃, h₄, h₅, h₆⟩ := h
      exact ⟨(), h₁, (), h₂, (), h₃, (), h₄, name, h₅, (), h₆, rfl⟩
  rw [hunfold, withoutSeparator_eq_ok, requirePortableParts_eq_ok]
  generalize withoutMarker rawName = given
  constructor
  · intro h
    obtain ⟨⟨-, hnul⟩, -, ⟨hback, -⟩, -, hgiven, hparts⟩ := h
    have hsub : name ⊆ given := by
      rcases hgiven with ⟨rfl, -⟩ | ⟨-, rfl⟩
      · exact fun _ hc => hc
      · exact List.subset_append_left _ _
    refine ⟨⟨split_ne_nil _ _, ?_⟩, hgiven.imp_left And.left⟩
    intro s hs
    obtain ⟨⟨hnil, hdot, hdotdot⟩, hdrive⟩ := hparts s hs
    obtain ⟨hsep, hpiece⟩ := mem_split hs
    exact ⟨⟨hnil, hdot, hdotdot, hsep, fun hmem => hnul (hsub (hpiece hmem))⟩,
      fun hmem => hback (hsub (hpiece hmem)), hdrive⟩
  · intro h
    obtain ⟨hportable, hgiven⟩ := h
    have hchar : ∀ c ∈ name, c = slash ∨ ∃ s ∈ split slash name, c ∈ s := by
      intro c hc
      rw [← join_split slash name] at hc
      cases hsplit : split slash name with
      | nil => exact absurd hsplit (split_ne_nil slash name)
      | cons head tail =>
        rw [hsplit, join_cons, List.mem_append] at hc
        rcases hc with hc | hc
        · exact .inr ⟨head, List.mem_cons_self, hc⟩
        · obtain ⟨s, hs, hc⟩ := List.mem_flatMap.mp hc
          rcases List.mem_cons.mp hc with rfl | hc
          · exact .inl rfl
          · exact .inr ⟨s, List.mem_cons_of_mem _ hs, hc⟩
    have hclean : ∀ bad : CodePoint, bad ≠ slash → (∀ s ∈ split slash name, bad ∉ s) →
        bad ∉ name := by
      intro bad hbad hall hmem
      rcases hchar bad hmem with heq | ⟨s, hs, hin⟩
      · exact hbad heq
      · exact hall s hs hin
    have hnul := hclean nul (by decide) fun s hs => (hportable.segments s hs).valid.no_nul
    have hback := hclean backslash (by decide) fun s hs => (hportable.segments s hs).no_backslash
    have hne : name ≠ [] := by
      intro hnil
      have hempty := hportable.segments [] (by simp [hnil, split])
      exact hempty.valid.ne_nil rfl
    obtain ⟨hinner, hfront, hend⟩ := hportable.no_double
    obtain ⟨hdrive, hdrive'⟩ := hportable.no_drive
    have hparts : ∀ part ∈ split slash name,
        (part ≠ [] ∧ part ≠ py "." ∧ part ≠ py "..") ∧ hasDrive part = false := by
      intro part hpart
      obtain ⟨hvalid, -, hno⟩ := hportable.segments part hpart
      exact ⟨⟨hvalid.ne_nil, hvalid.ne_dot, hvalid.ne_dotdot⟩, hno⟩
    simp only [Bool.eq_false_iff, ne_eq, startsWith_iff, contains_iff] at *
    rcases hgiven with rfl | ⟨hdir, rfl⟩
    · exact ⟨⟨hne, hnul⟩, hfront, ⟨hback, hdrive⟩, hinner, .inl ⟨rfl, hend⟩, hparts⟩
    · refine ⟨⟨by simp [hne], ?_⟩, ?_, ⟨?_, hdrive'⟩, hportable.no_double_concat,
        .inr ⟨hdir, rfl⟩, hparts⟩
      · intro hmem
        rcases List.mem_append.mp hmem with hmem | hmem
        · exact hnul hmem
        · exact absurd hmem (by decide)
      · intro hprefix
        obtain ⟨c, rest, rfl⟩ := List.exists_cons_of_ne_nil hne
        refine hfront ?_
        obtain ⟨rest', hrest⟩ := hprefix
        refine ⟨rest, ?_⟩
        simp only [py] at hrest ⊢
        exact congrArg (· :: rest) (List.cons.inj hrest).1
      · intro hmem
        rcases List.mem_append.mp hmem with hmem | hmem
        · exact hback hmem
        · exact absurd hmem (by decide)

theorem canonicalMemberName_eq_some {rawName name : Text} {isDirectory : Bool} :
    canonicalMemberName rawName isDirectory = .ok (some name) ↔
      (rawName ≠ py "." ∧ rawName ≠ py "./") ∧ canonicalName rawName isDirectory = .ok name := by
  unfold canonicalMemberName
  by_cases hmarker : rawName = py "." ∨ rawName = py "./"
  · rw [if_pos hmarker]
    have hne : (if isDirectory = true then Except.ok none
        else corrupt (py "archive root marker must be a directory")) ≠
          (.ok (some name) : Except PyError (Option Text)) := by
      split
      · simp
      · exact corrupt_ne_ok
    constructor
    · intro h
      exact absurd h hne
    · intro h
      rcases hmarker with hdot | hslash
      · exact absurd hdot h.1.1
      · exact absurd hslash h.1.2
  · rw [if_neg hmarker, not_or] at *
    simp only [Except.bind_eq_ok_iff, Except.ok.injEq, Option.some.injEq, exists_eq_right]
    exact ⟨fun h => ⟨hmarker, h⟩, fun h => h.2⟩

theorem canonicalMemberName_portable {rawName name : Text} {isDirectory : Bool}
    (h : canonicalMemberName rawName isDirectory = .ok (some name)) :
    PortableParts (split slash name) :=
  (canonicalName_eq_ok.mp (canonicalMemberName_eq_some.mp h).2).1

theorem fitsBytes_iff {limit : Nat} {text : Text} :
    FitsBytes limit text ↔ ∃ n, utf8Length text = some n ∧ n ≤ limit := Iff.rfl

theorem FitsBytes.validUtf8 {limit : Nat} {text : Text} (h : FitsBytes limit text) :
    ValidUtf8 text := by
  obtain ⟨n, hn, -⟩ := h
  unfold utf8Length at hn
  unfold ValidUtf8
  cases hencode : encodeUtf8 text with
  | none => simp [hencode] at hn
  | some b => rfl

/-- Below the root, a canonical name is the rendering of its segments. -/
theorem render_split (name : Text) :
    SandboxPath.ROOT ++ py "/" ++ name = SandboxPath.render (split slash name) := by
  cases hsplit : split slash name with
  | nil => exact absurd hsplit (split_ne_nil slash name)
  | cons head tail =>
    have hjoin := join_split slash name
    rw [hsplit, join_cons] at hjoin
    rw [← hjoin, slash_text]
    simp [SandboxPath.render]

theorem allows_iff {limits : WorkspaceLimits} {parts : List Text} :
    limits.Allows parts ↔ (∀ part ∈ parts, FitsBytes limits.maxSegmentBytes part) ∧
      FitsBytes limits.maxPathBytes (SandboxPath.render parts) := by
  constructor
  · intro h
    exact ⟨fun part hpart => h.segments part (List.mem_cons_of_mem _ hpart), h.path⟩
  · intro h
    obtain ⟨hsegments, hpath⟩ := h
    refine ⟨?_, hpath⟩
    intro s hs
    rcases List.mem_cons.mp hs with rfl | hs
    · exact limits.allows_root.segments _ List.mem_cons_self
    · exact hsegments s hs

/-- The path of a member: its canonical name below the root, within the limits. -/
theorem memberPath_eq_some {rawName : Text} {isDirectory : Bool} {limits : WorkspaceLimits}
    {path : SandboxPath} :
    memberPath rawName isDirectory limits = .ok (some path) ↔
      ∃ name, canonicalMemberName rawName isDirectory = .ok (some name) ∧
        path.value = SandboxPath.render (split slash name) ∧
        limits.Allows (split slash name) := by
  have hstep : ∀ name, PortableParts (split slash name) →
      (((do
        requireSound ((∀ part ∈ split slash name, ValidUtf8 part) ∧
            ValidUtf8 (SandboxPath.ROOT ++ py "/" ++ name))
          (py "archive member path must be valid UTF-8")
        requireBounded (∀ part ∈ split slash name, FitsBytes limits.maxSegmentBytes part)
          (segmentMessage limits)
        requireBounded (FitsBytes limits.maxPathBytes (SandboxPath.ROOT ++ py "/" ++ name))
          (pathMessage limits)
        let path ← rewrap (SandboxPath.new (SandboxPath.ROOT ++ py "/" ++ name))
          (· = .invalidPathError) .snapshotCorruptError
          (py "archive member contains an invalid path")
        .ok (some path)) : Except PyError (Option SandboxPath)) = .ok (some path) ↔
      path.value = SandboxPath.render (split slash name) ∧ limits.Allows (split slash name)) := by
    intro name hportable
    have hvalid : ∀ s ∈ split slash name, SandboxPath.ValidSegment s :=
      fun s hs => (hportable.segments s hs).valid
    have hcanonical := SandboxPath.canonicalAbsolute_render hvalid
    have hnew : SandboxPath.new (SandboxPath.render (split slash name)) =
        .ok (.ofSegments _ hvalid) := by
      unfold SandboxPath.new
      rw [dif_pos hcanonical]
      rfl
    simp only [render_split, hnew, rewrap, Except.bind_eq_ok_iff, requireSound_eq_ok,
      requireBounded_eq_ok, Except.ok.injEq, Option.some.injEq, exists_eq_left', allows_iff]
    constructor
    · intro h
      obtain ⟨-, -, -, hsegments, -, hpath, rfl⟩ := h
      exact ⟨rfl, hsegments, hpath⟩
    · intro h
      obtain ⟨hvalue, hsegments, hpath⟩ := h
      exact ⟨(), ⟨fun part hpart => (hsegments part hpart).validUtf8, hpath.validUtf8⟩, (),
        hsegments, (), hpath, SandboxPath.ext_value hvalue.symm⟩
  unfold memberPath
  rw [Except.bind_eq_ok_iff]
  constructor
  · intro h
    obtain ⟨found, hfound, h⟩ := h
    cases found with
    | none => simp at h
    | some name => exact ⟨name, hfound, (hstep name (canonicalMemberName_portable hfound)).mp h⟩
  · intro h
    obtain ⟨name, hname, h⟩ := h
    exact ⟨some name, hname, (hstep name (canonicalMemberName_portable hname)).mpr h⟩

/-- The segments of a member's path are those of its name. -/
theorem parts_of_memberPath {name : Text} {path : SandboxPath}
    (hportable : PortableParts (split slash name))
    (h : path.value = SandboxPath.render (split slash name)) : path.parts = split slash name :=
  SandboxPath.parts_of_value (fun s hs => (hportable.segments s hs).valid) h

end PortableWorkspaceArchiveCodec
