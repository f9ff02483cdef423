import MemSandbox.Workspace.Models

/-! # Unified diffs

    `workspace/patching.py` and `workspace/text.py`: the parser of the
    constrained multi-file diff format and the application of one file's
    hunks.

    The parser's index into the list of lines is the list of the lines that
    remain.  Its two outer loops consume at least one line a turn; their fuel
    is the number of lines. -/

open Python

/-! ## Section 1: Lines -/

/-- `"\n"`. -/
def newline : CodePoint := CodePoint.ofChar '\n'

/-- `normalize_line_endings`. -/
def normalizeLineEndings (text : Text) : Text :=
  replace (replace text (py "\r\n") (py "\n")) (py "\r") (py "\n")

/-- `split_normalized_lines`. -/
def splitNormalizedLines (text : Text) : List Text × Bool :=
  let normalized := normalizeLineEndings text
  if normalized = [] then
    ([], false)
  else
    let hadTrailingNewline := endsWith normalized (py "\n")
    let lines := split newline normalized
    (if hadTrailingNewline then lines.dropLast else lines, hadTrailingNewline)

/-! ## Section 2: The parsed patch -/

/-- One context, removal, or addition line. -/
structure PatchLine where
  sign : CodePoint
  content : Text
  deriving DecidableEq

/-- One validated unified-diff hunk. -/
structure PatchHunk where
  oldStart : Nat
  oldCount : Nat
  newStart : Nat
  newCount : Nat
  lines : List PatchLine
  deriving DecidableEq

/-- All hunks targeting one existing UTF-8 file. -/
structure FilePatch where
  path : SandboxPath
  hunks : List PatchHunk
  deriving DecidableEq

/-! ## Section 3: Hunk headers -/

section Parser

variable [UnicodeData]

/-- A group `(?P<start>\d+)(?:,(?P<count>\d+))?` and what follows it. -/
def matchRange (t : Text) : Option (Text × Option Text × Text) :=
  let start := t.takeWhile isDecimal
  let rest := t.dropWhile isDecimal
  if start = [] then
    none
  else if startsWith rest (py ",") then
    let count := (rest.drop 1).takeWhile isDecimal
    if count = [] then none else some (start, some count, (rest.drop 1).dropWhile isDecimal)
  else
    some (start, none, rest)

/-- `_HUNK_HEADER.fullmatch`: old start, old count, new start, new count. -/
def matchHunkHeader (line : Text) : Option (Text × Option Text × Text × Option Text) := do
  guard (startsWith line (py "@@ -"))
  let (oldStart, oldCount, rest) ← matchRange (line.drop 4)
  guard (startsWith rest (py " +"))
  let (newStart, newCount, rest) ← matchRange (rest.drop 2)
  guard (startsWith rest (py " @@"))
  guard (rest.drop 3 = [] ∨ startsWith (rest.drop 3) (py " "))
  return (oldStart, oldCount, newStart, newCount)

/-- `int(digits)`, which refuses a text of more than 4300 digits. -/
def parseInt (digits : Text) : Except PyError Nat := do
  require (digits.length ≤ 4300) .valueError
    (py "Exceeds the limit (4300 digits) for integer string conversion: value has " ++
      Text.ofNat digits.length ++
      py " digits; use sys.set_int_max_str_digits() to increase the limit")
  .ok (numeral digits)

/-- `_validate_hunk_range`. -/
def validateHunkRange (oldStart oldCount newStart newCount : Nat) : Except PyError Unit := do
  require ((if oldCount = 0 then 0 else 1) ≤ oldStart) .invalidPatchError
    (py "patch hunk old range is invalid")
  require ((if newCount = 0 then 0 else 1) ≤ newStart) .invalidPatchError
    (py "patch hunk new range is invalid")

/-! ## Section 4: The parser -/

/-- The loop over the lines of one hunk: its lines, whether it changes
    anything, and the lines that remain. -/
def parseHunkLines (oldCount newCount : Nat) :
    List Text → Nat → Nat → Bool → List PatchLine → Except PyError (List PatchLine × Bool × List Text)
  | remaining, oldSeen, newSeen, hasChange, hunkLines =>
    if oldSeen < oldCount ∨ newSeen < newCount then
      match remaining with
      | [] => raise .invalidPatchError (py "patch hunk ended before its declared line counts")
      | line :: rest =>
        if line = py "\\ No newline at end of file" then
          parseHunkLines oldCount newCount rest oldSeen newSeen hasChange hunkLines
        else
          match line with
          | [] => raise .invalidPatchError (py "patch hunk contains an unsupported line")
          | sign :: content =>
            if sign ∈ py " -+" then
              let oldSeen := if sign ∈ py " -" then oldSeen + 1 else oldSeen
              let newSeen := if sign ∈ py " +" then newSeen + 1 else newSeen
              let hasChange := hasChange || decide (sign ∈ py "-+")
              if oldSeen > oldCount ∨ newSeen > newCount then
                raise .invalidPatchError (py "patch hunk exceeds its declared line counts")
              else
                parseHunkLines oldCount newCount rest oldSeen newSeen hasChange
                  (hunkLines ++ [⟨sign, content⟩])
            else
              raise .invalidPatchError (py "patch hunk contains an unsupported line")
    else
      .ok (hunkLines, hasChange, remaining)

/-- One hunk, from its header line. -/
def parseHunk (header : Text) (rest : List Text) : Except PyError (PatchHunk × List Text) := do
  match matchHunkHeader header with
  | none => raise .invalidPatchError (py "invalid unified-diff hunk header")
  | some (oldStart, oldCount, newStart, newCount) =>
    let oldStart ← parseInt oldStart
    let oldCount ← parseInt (oldCount.getD (py "1"))
    let newStart ← parseInt newStart
    let newCount ← parseInt (newCount.getD (py "1"))
    validateHunkRange oldStart oldCount newStart newCount
    let (hunkLines, hasChange, rest) ← parseHunkLines oldCount newCount rest 0 0 false []
    require hasChange .invalidPatchError (py "patch hunk must contain at least one change")
    .ok (⟨oldStart, oldCount, newStart, newCount, hunkLines⟩, rest)

/-- The loop over the hunks of one file section. -/
def parseHunks : Nat → List Text → List PatchHunk → Except PyError (List PatchHunk × List Text)
  | _, [], hunks => .ok (hunks, [])
  | 0, _ :: _, _ => raise .runtimeError (py "unreachable")
  | fuel + 1, line :: rest, hunks =>
    if startsWith line (py "@@") then do
      let (hunk, rest) ← parseHunk line rest
      parseHunks fuel rest (hunks ++ [hunk])
    else
      .ok (hunks, line :: rest)

/-- `_parse_header_path`. -/
def parseHeaderPath (line marker : Text) (resolvePath : Text → Except PyError SandboxPath) :
    Except PyError SandboxPath := do
  let rawPath := (split (CodePoint.ofChar '\t') (line.drop marker.length)).headD []
  require (rawPath ≠ []) .invalidPatchError (py "patch file header path must not be empty")
  require (rawPath ≠ py "/dev/null") .invalidPatchError
    (py "file creation and deletion patches are unsupported")
  let rawPath :=
    if startsWith rawPath (py "a/") || startsWith rawPath (py "b/") then rawPath.drop 2 else rawPath
  rewrap (resolvePath rawPath) ErrorClass.isExpected .invalidPatchError
    (py "patch contains an invalid workspace path")

/-- The loop of `parse_unified_diff` over the file sections. -/
def parseFiles (resolvePath : Text → Except PyError SandboxPath) :
    Nat → List Text → List FilePatch → Except PyError (List FilePatch)
  | _, [], files => .ok files
  | 0, _ :: _, _ => raise .runtimeError (py "unreachable")
  | fuel + 1, line :: rest, files => do
    require (startsWith line (py "--- ")) .invalidPatchError
      (py "file section must begin with a --- header")
    let oldPath ← parseHeaderPath line (py "--- ") resolvePath
    match rest with
    | [] => raise .invalidPatchError (py "--- header must be followed by a +++ header")
    | line :: rest =>
      require (startsWith line (py "+++ ")) .invalidPatchError
        (py "--- header must be followed by a +++ header")
      let newPath ← parseHeaderPath line (py "+++ ") resolvePath
      require (oldPath = newPath) .invalidPatchError
        (py "file rename, creation, and deletion are unsupported")
      require (oldPath ∉ files.map FilePatch.path) .invalidPatchError
        (py "patch contains duplicate file section for " ++ oldPath.value)
      let (hunks, rest) ← parseHunks rest.length rest []
      require (hunks ≠ []) .invalidPatchError (py "file section must contain at least one hunk")
      require (rest.head?.all fun line => startsWith line (py "--- ")) .invalidPatchError
        (py "unexpected content between patch file sections")
      parseFiles resolvePath fuel rest (files ++ [⟨oldPath, hunks⟩])

/-- `parse_unified_diff`. -/
def parseUnifiedDiff (patch : Text) (resolvePath : Text → Except PyError SandboxPath) :
    Except PyError (List FilePatch) := do
  let lines := split newline (normalizeLineEndings patch)
  let lines := if lines.getLast? = some [] then lines.dropLast else lines
  require (lines ≠ []) .invalidPatchError (py "patch must contain at least one file section")
  parseFiles resolvePath lines.length lines []

end Parser

/-! ## Section 5: Application -/

/-- The loop over the lines of a hunk: the result so far, and the source index. -/
def applyLines (path : SandboxPath) (source : List Text) :
    List PatchLine → List Text × Nat → Except PyError (List Text × Nat)
  | [], state => .ok state
  | line :: rest, (result, sourceIndex) =>
    if line.sign = CodePoint.ofChar '+' then
      applyLines path source rest (result ++ [line.content], sourceIndex)
    else
      match source[sourceIndex]? with
      | none =>
        raise .patchContextMismatchError
          (py "patch context for " ++ path.value ++ py " extends beyond end of file")
      | some actual =>
        if actual ≠ line.content then
          raise .patchContextMismatchError
            (py "patch context for " ++ path.value ++ py " does not match at line " ++
              Text.ofNat (sourceIndex + 1))
        else
          applyLines path source rest
            (if line.sign = CodePoint.ofChar ' ' then result ++ [actual] else result,
              sourceIndex + 1)

/-- The loop over the hunks of a file. -/
def applyHunks (path : SandboxPath) (source : List Text) :
    List PatchHunk → List Text × Nat → Except PyError (List Text × Nat)
  | [], state => .ok state
  | hunk :: rest, (result, sourceIndex) => do
    let targetIndex := if hunk.oldCount = 0 then hunk.oldStart else hunk.oldStart - 1
    let expectedNewIndex := if hunk.newCount = 0 then hunk.newStart else hunk.newStart - 1
    require (sourceIndex ≤ targetIndex ∧ targetIndex ≤ source.length) .patchContextMismatchError
      (py "patch hunk for " ++ path.value ++ py " targets an invalid or overlapping range")
    let result := result ++ (source.take targetIndex).drop sourceIndex
    require (result.length = expectedNewIndex) .invalidPatchError
      (py "patch hunk for " ++ path.value ++ py " has inconsistent new line numbers")
    let state ← applyLines path source hunk.lines (result, targetIndex)
    applyHunks path source rest state

/-- `apply_file_patch`. -/
def applyFilePatch (content : Text) (filePatch : FilePatch) : Except PyError Text := do
  let (sourceLines, hadTrailingNewline) := splitNormalizedLines content
  let (result, sourceIndex) ← applyHunks filePatch.path sourceLines filePatch.hunks ([], 0)
  let patched := join (py "\n") (result ++ sourceLines.drop sourceIndex)
  .ok (if hadTrailingNewline then patched ++ py "\n" else patched)

/-! ## Section 6: What a parsed patch names -/

section ParsedPaths

variable [UnicodeData] {resolvePath : Text → Except PyError SandboxPath}

omit [UnicodeData] in
theorem parseHeaderPath_eq_ok {line marker : Text} {path : SandboxPath}
    (h : parseHeaderPath line marker resolvePath = .ok path) :
    ∃ value, resolvePath value = .ok path := by
  simp only [parseHeaderPath, Except.bind_eq_ok_iff, rewrap_eq_ok] at h
  obtain ⟨_, _, _, _, h⟩ := h
  exact ⟨_, h⟩

/-- The sections of a patch name different paths, all of them resolved. -/
theorem parseFiles_paths {fuel : Nat} {lines : List Text} {files out : List FilePatch}
    (h : parseFiles resolvePath fuel lines files = .ok out)
    (hnodup : (files.map FilePatch.path).Nodup)
    (hresolved : ∀ f ∈ files, ∃ value, resolvePath value = .ok f.path) :
    (out.map FilePatch.path).Nodup ∧ ∀ f ∈ out, ∃ value, resolvePath value = .ok f.path := by
  induction fuel generalizing lines files with
  | zero =>
    cases lines with
    | nil =>
      simp only [parseFiles, Except.ok.injEq] at h
      exact h ▸ ⟨hnodup, hresolved⟩
    | cons => simp [parseFiles] at h
  | succ fuel ih =>
    cases lines with
    | nil =>
      simp only [parseFiles, Except.ok.injEq] at h
      exact h ▸ ⟨hnodup, hresolved⟩
    | cons line rest =>
      cases rest with
      | nil => simp [parseFiles, Except.bind_eq_ok_iff] at h
      | cons line' rest =>
        simp only [parseFiles, Except.bind_eq_ok_iff, require_eq_ok] at h
        obtain ⟨_, -, oldPath, hold, _, -, newPath, -, _, -, _, hnew, ⟨hunks, rest'⟩, -, _, -, _,
          -, h⟩ := h
        refine ih h ?_ ?_
        · rw [List.map_append, List.nodup_append]
          refine ⟨hnodup, by simp, ?_⟩
          intro a ha b hb hab
          simp only [List.map_cons, List.map_nil, List.mem_singleton] at hb
          exact hnew (hb ▸ hab ▸ ha)
        · intro f hf
          rcases List.mem_append.mp hf with hf | hf
          · exact hresolved f hf
          · rw [List.mem_singleton.mp hf]
            exact parseHeaderPath_eq_ok hold

theorem parseUnifiedDiff_paths {patch : Text} {out : List FilePatch}
    (h : parseUnifiedDiff patch resolvePath = .ok out) :
    (out.map FilePatch.path).Nodup ∧ ∀ f ∈ out, ∃ value, resolvePath value = .ok f.path := by
  simp only [parseUnifiedDiff, Except.bind_eq_ok_iff] at h
  obtain ⟨_, _, h⟩ := h
  exact parseFiles_paths h (by simp) (by simp)

end ParsedPaths
