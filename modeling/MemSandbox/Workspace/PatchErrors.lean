import MemSandbox.Workspace.PatchRoundTrip
import MemSandbox.Workspace.SnapshotErrors

/-! # What the patch parser raises

    On every text the parser returns well-formed hunks under distinct paths or
    raises `InvalidPatchError`, unless it comes to a hunk header with a number
    that `int` refuses (`parseUnifiedDiff_total_iff`).

    To say when it comes to a header, the lines that it has accepted before
    are described by relations: whole hunks (`Hunks`), whole file sections
    (`Sections`) and the two lines that open a section (`Opens`). -/

open Python

/-! ## Section 1: Accepted lines -/

/-- The lines that complete a hunk, from what was seen of it on. -/
inductive HunkBody (oldCount newCount : Nat) : Nat → Nat → Bool → List Text → Prop
  | done : HunkBody oldCount newCount oldCount newCount true []
  | marker {oldSeen newSeen : Nat} {hasChange : Bool} {lines : List Text} :
      oldSeen < oldCount ∨ newSeen < newCount →
      HunkBody oldCount newCount oldSeen newSeen hasChange lines →
      HunkBody oldCount newCount oldSeen newSeen hasChange (noNewlineMarker :: lines)
  | line {oldSeen newSeen : Nat} {hasChange : Bool} {sign : CodePoint} {content : Text}
      {lines : List Text} :
      oldSeen < oldCount ∨ newSeen < newCount → sign ∈ py " -+" →
      (if sign ∈ py " -" then oldSeen + 1 else oldSeen) ≤ oldCount →
      (if sign ∈ py " +" then newSeen + 1 else newSeen) ≤ newCount →
      HunkBody oldCount newCount (if sign ∈ py " -" then oldSeen + 1 else oldSeen)
        (if sign ∈ py " +" then newSeen + 1 else newSeen)
        (hasChange || decide (sign ∈ py "-+")) lines →
      HunkBody oldCount newCount oldSeen newSeen hasChange ((sign :: content) :: lines)

section Accepted

variable [UnicodeData]

/-- The four numbers that a hunk header is read as. -/
def HeaderNumbers (line : Text) (oldStart oldCount newStart newCount : Text) : Prop :=
  ∃ oldGroup newGroup, matchHunkHeader line = some (oldStart, oldGroup, newStart, newGroup) ∧
    oldCount = oldGroup.getD (py "1") ∧ newCount = newGroup.getD (py "1")

/-- A hunk header with a number of more digits than `int` reads. -/
def OversizedHeader (line : Text) : Prop :=
  ∃ oldStart oldCount newStart newCount,
    HeaderNumbers line oldStart oldCount newStart newCount ∧
      ∃ digits ∈ [oldStart, oldCount, newStart, newCount], 4300 < digits.length

/-- A hunk header whose numbers are read and valid, with the counts it declares. -/
def ReadableHeader (line : Text) (oldCount newCount : Nat) : Prop :=
  ∃ oldStart oldDigits newStart newDigits,
    HeaderNumbers line oldStart oldDigits newStart newDigits ∧
      (∀ digits ∈ [oldStart, oldDigits, newStart, newDigits], digits.length ≤ 4300) ∧
      numeral oldDigits = oldCount ∧ numeral newDigits = newCount ∧
      validateHunkRange (numeral oldStart) oldCount (numeral newStart) newCount = .ok ()

/-- Whole hunks. -/
inductive Hunks : List Text → Prop
  | nil : Hunks []
  | cons {header : Text} {body lines : List Text} {oldCount newCount : Nat} :
      ReadableHeader header oldCount newCount → HunkBody oldCount newCount 0 0 false body →
      Hunks lines → Hunks (header :: (body ++ lines))

end Accepted

/-- The two lines that open a file section, and the path that both of them name. -/
structure Opens (resolvePath : Text → Except PyError SandboxPath) (old new : Text)
    (path : SandboxPath) : Prop where
  old_marker : startsWith old (py "--- ") = true
  new_marker : startsWith new (py "+++ ") = true
  old_path : parseHeaderPath old (py "--- ") resolvePath = .ok path
  new_path : parseHeaderPath new (py "+++ ") resolvePath = .ok path

/-- Whole file sections, with the paths that were seen before and after them. -/
inductive Sections [UnicodeData] (resolvePath : Text → Except PyError SandboxPath) :
    List SandboxPath → List Text → List SandboxPath → Prop
  | nil {seen : List SandboxPath} : Sections resolvePath seen [] seen
  | cons {seen out : List SandboxPath} {old new : Text} {path : SandboxPath}
      {hunks lines : List Text} :
      Opens resolvePath old new path → path ∉ seen → hunks ≠ [] → Hunks hunks →
      Sections resolvePath (seen ++ [path]) lines out →
      Sections resolvePath seen (old :: new :: (hunks ++ lines)) out

/-- After whole sections, an open one and whole hunks in it comes an oversized header. -/
def ReachesOversized [UnicodeData] (resolvePath : Text → Except PyError SandboxPath)
    (seen : List SandboxPath) (lines : List Text) : Prop :=
  ∃ sections paths old new path hunks header after,
    lines = sections ++ (old :: new :: (hunks ++ header :: after)) ∧
      Sections resolvePath seen sections paths ∧ Opens resolvePath old new path ∧ path ∉ paths ∧
      Hunks hunks ∧ OversizedHeader header

/-- The lines that the parser goes through. -/
def patchLines (patch : Text) : List Text :=
  let lines := split newline (normalizeLineEndings patch)
  if lines.getLast? = some [] then lines.dropLast else lines

/-- The parser comes to a hunk header with a number that `int` refuses. -/
def Oversized [UnicodeData] (patch : Text) (resolvePath : Text → Except PyError SandboxPath) : Prop :=
  ReachesOversized resolvePath [] (patchLines patch)

/-! ## Section 2: One hunk -/

theorem require_of {condition : Prop} [Decidable condition] {cls : ErrorClass} {message : Text}
    (h : condition) : require condition cls message = .ok () := require_eq_ok.mpr h

/-- The one domain error of the parser. -/
def IsInvalidPatch (cls : ErrorClass) : Prop := cls = .invalidPatchError

theorem isInvalidPatch : IsInvalidPatch .invalidPatchError := rfl

/-- The loop over the lines of a hunk reads its body. -/
theorem HunkBody.parse {oldCount newCount oldSeen newSeen : Nat} {hasChange : Bool}
    {body : List Text} (h : HunkBody oldCount newCount oldSeen newSeen hasChange body)
    (rest : List Text) (hunkLines : List PatchLine) :
    ∃ out, parseHunkLines oldCount newCount (body ++ rest) oldSeen newSeen hasChange hunkLines =
      .ok (out, true, rest) := by
  induction h generalizing hunkLines with
  | done => exact ⟨hunkLines, parseHunkLines_done rest rfl rfl⟩
  | marker hmore _ ih =>
    obtain ⟨out, hout⟩ := ih hunkLines
    refine ⟨out, ?_⟩
    unfold parseHunkLines
    rw [List.cons_append, if_pos hmore]
    exact hout
  | @line oldSeen newSeen hasChange sign content lines hmore hsign hold hnew _ ih =>
    obtain ⟨out, hout⟩ := ih (hunkLines ++ [⟨sign, content⟩])
    refine ⟨out, ?_⟩
    have hmarker : ¬ sign :: content = py "\\ No newline at end of file" :=
      @marker_ne_line ⟨sign, content⟩ hsign
    unfold parseHunkLines
    rw [List.cons_append, if_pos hmore]
    dsimp only
    rw [if_neg hmarker, if_pos hsign, if_neg (by omega)]
    exact hout

/-- What the loop over the lines of a hunk reads is the body of the hunk. -/
theorem hunkBody_of_parse {oldCount newCount oldSeen newSeen : Nat} {hasChange : Bool}
    {remaining rest : List Text} {hunkLines out : List PatchLine}
    (h : parseHunkLines oldCount newCount remaining oldSeen newSeen hasChange hunkLines =
      .ok (out, true, rest)) (hold : oldSeen ≤ oldCount) (hnew : newSeen ≤ newCount) :
    ∃ body, remaining = body ++ rest ∧
      HunkBody oldCount newCount oldSeen newSeen hasChange body := by
  induction remaining generalizing oldSeen newSeen hasChange hunkLines with
  | nil =>
    unfold parseHunkLines at h
    by_cases hmore : oldSeen < oldCount ∨ newSeen < newCount
    · rw [if_pos hmore] at h
      cases h
    · rw [if_neg hmore] at h
      obtain rfl : oldSeen = oldCount := by omega
      obtain rfl : newSeen = newCount := by omega
      cases h
      exact ⟨[], rfl, .done⟩
  | cons line remaining ih =>
    unfold parseHunkLines at h
    by_cases hmore : oldSeen < oldCount ∨ newSeen < newCount
    · rw [if_pos hmore] at h
      dsimp only at h
      by_cases hmarker : line = py "\\ No newline at end of file"
      · rw [if_pos hmarker] at h
        obtain ⟨body, rfl, hbody⟩ := ih h hold hnew
        exact ⟨line :: body, rfl, hmarker ▸ .marker hmore hbody⟩
      · rw [if_neg hmarker] at h
        cases line with
        | nil => cases h
        | cons sign content =>
          dsimp only at h
          by_cases hsign : sign ∈ py " -+"
          · rw [if_pos hsign] at h
            by_cases hover : (if sign ∈ py " -" then oldSeen + 1 else oldSeen) > oldCount ∨
                (if sign ∈ py " +" then newSeen + 1 else newSeen) > newCount
            · rw [if_pos hover] at h
              cases h
            · rw [if_neg hover] at h
              rw [not_or, Nat.not_lt, Nat.not_lt] at hover
              obtain ⟨body, rfl, hbody⟩ := ih h hover.1 hover.2
              exact ⟨_, rfl, .line hmore hsign hover.1 hover.2 hbody⟩
          · rw [if_neg hsign] at h
            cases h
    · rw [if_neg hmore] at h
      obtain rfl : oldSeen = oldCount := by omega
      obtain rfl : newSeen = newCount := by omega
      cases h
      exact ⟨[], rfl, .done⟩

theorem parseHunkLines_raises {oldCount newCount oldSeen newSeen : Nat} {hasChange : Bool}
    {remaining : List Text} {hunkLines : List PatchLine} :
    Raises IsInvalidPatch
      (parseHunkLines oldCount newCount remaining oldSeen newSeen hasChange hunkLines) := by
  induction remaining generalizing oldSeen newSeen hasChange hunkLines with
  | nil =>
    unfold parseHunkLines
    split
    · exact Raises.raise_iff.mpr isInvalidPatch
    · exact .ok
  | cons line remaining ih =>
    unfold parseHunkLines
    split
    · dsimp only
      split
      · exact ih
      · split
        · exact Raises.raise_iff.mpr isInvalidPatch
        · next sign content hne =>
          by_cases hsign : sign ∈ py " -+"
          · rw [if_pos hsign]
            by_cases hover : (if sign ∈ py " -" then oldSeen + 1 else oldSeen) > oldCount ∨
                (if sign ∈ py " +" then newSeen + 1 else newSeen) > newCount
            · rw [if_pos hover]
              exact Raises.raise_iff.mpr isInvalidPatch
            · rw [if_neg hover]
              exact ih
          · rw [if_neg hsign]
            exact Raises.raise_iff.mpr isInvalidPatch
    · exact .ok

section Hunk

variable [UnicodeData]

omit [UnicodeData] in
theorem validateHunkRange_raises {oldStart oldCount newStart newCount : Nat} :
    Raises IsInvalidPatch (validateHunkRange oldStart oldCount newStart newCount) :=
  (Raises.of_require isInvalidPatch).bind fun _ _ => Raises.of_require isInvalidPatch

theorem parseInt_eq {digits : Text} : parseInt digits = if digits.length ≤ 4300
    then .ok (numeral digits) else .error ⟨.valueError,
      py "Exceeds the limit (4300 digits) for integer string conversion: value has " ++
        Text.ofNat digits.length ++
        py " digits; use sys.set_int_max_str_digits() to increase the limit"⟩ := by
  unfold parseInt require
  split <;> rfl

/-- The rest of `parseHunk`, when its header has been matched. -/
theorem parseHunk_numbers {header oldStart oldDigits newStart newDigits : Text}
    (h : HeaderNumbers header oldStart oldDigits newStart newDigits) (rest : List Text) :
    parseHunk header rest = (do
      let oldStart ← parseInt oldStart
      let oldCount ← parseInt oldDigits
      let newStart ← parseInt newStart
      let newCount ← parseInt newDigits
      validateHunkRange oldStart oldCount newStart newCount
      let (hunkLines, hasChange, rest) ← parseHunkLines oldCount newCount rest 0 0 false []
      require hasChange .invalidPatchError (py "patch hunk must contain at least one change")
      .ok (⟨oldStart, oldCount, newStart, newCount, hunkLines⟩, rest)) := by
  obtain ⟨oldGroup, newGroup, hmatch, rfl, rfl⟩ := h
  unfold parseHunk
  rw [hmatch]

theorem parseHunk_oversized {header : Text} (h : OversizedHeader header) (rest : List Text) :
    ∃ e, parseHunk header rest = .error e ∧ e.cls = .valueError := by
  obtain ⟨oldStart, oldDigits, newStart, newDigits, hnumbers, digits, hdigits, hlong⟩ := h
  rw [parseHunk_numbers hnumbers]
  simp only [parseInt_eq]
  by_cases h1 : oldStart.length ≤ 4300
  · by_cases h2 : oldDigits.length ≤ 4300
    · by_cases h3 : newStart.length ≤ 4300
      · by_cases h4 : newDigits.length ≤ 4300
        · simp only [List.mem_cons, List.not_mem_nil, or_false] at hdigits
          rcases hdigits with rfl | rfl | rfl | rfl <;> omega
        · rw [if_pos h1, if_pos h2, if_pos h3, if_neg h4]
          exact ⟨_, rfl, rfl⟩
      · rw [if_pos h1, if_pos h2, if_neg h3]
        exact ⟨_, rfl, rfl⟩
    · rw [if_pos h1, if_neg h2]
      exact ⟨_, rfl, rfl⟩
  · rw [if_neg h1]
    exact ⟨_, rfl, rfl⟩

theorem parseHunk_complete {header : Text} {body : List Text} {oldCount newCount : Nat}
    (hheader : ReadableHeader header oldCount newCount)
    (hbody : HunkBody oldCount newCount 0 0 false body) (rest : List Text) :
    ∃ hunk, parseHunk header (body ++ rest) = .ok (hunk, rest) := by
  obtain ⟨oldStart, oldDigits, newStart, newDigits, hnumbers, hshort, rfl, rfl, hrange⟩ := hheader
  obtain ⟨out, hout⟩ := hbody.parse rest []
  simp only [List.forall_mem_cons] at hshort
  rw [parseHunk_numbers hnumbers]
  simp only [parseInt_eq, if_pos hshort.1, if_pos hshort.2.1, if_pos hshort.2.2.1,
    if_pos hshort.2.2.2.1, bind, Except.bind, hrange, hout]
  exact ⟨_, rfl⟩

/-- A hunk that is not refused is whole, or its header is oversized. -/
theorem parseHunk_cases (header : Text) (lines : List Text) :
    (∃ hunk rest body oldCount newCount, parseHunk header lines = .ok (hunk, rest) ∧
      lines = body ++ rest ∧ ReadableHeader header oldCount newCount ∧
      HunkBody oldCount newCount 0 0 false body) ∨
    OversizedHeader header ∨
    ∃ e, parseHunk header lines = .error e ∧ e.cls = .invalidPatchError := by
  cases hmatch : matchHunkHeader header with
  | none =>
    have hraise : parseHunk header lines =
        raise .invalidPatchError (py "invalid unified-diff hunk header") := by
      unfold parseHunk
      rw [hmatch]
    exact .inr (.inr ⟨_, hraise, rfl⟩)
  | some groups =>
    obtain ⟨oldStart, oldGroup, newStart, newGroup⟩ := groups
    have hnumbers : HeaderNumbers header oldStart (oldGroup.getD (py "1")) newStart
        (newGroup.getD (py "1")) := ⟨oldGroup, newGroup, hmatch, rfl, rfl⟩
    by_cases hlong : ∃ digits ∈ [oldStart, oldGroup.getD (py "1"), newStart,
        newGroup.getD (py "1")], 4300 < digits.length
    · exact .inr (.inl ⟨_, _, _, _, hnumbers, hlong⟩)
    · have hshort : ∀ digits ∈ [oldStart, oldGroup.getD (py "1"), newStart,
          newGroup.getD (py "1")], digits.length ≤ 4300 :=
        fun digits hdigits => Nat.not_lt.mp fun hlt => hlong ⟨digits, hdigits, hlt⟩
      have hread := hshort
      simp only [List.forall_mem_cons] at hread
      cases hparse : parseHunk header lines with
      | ok result =>
        obtain ⟨hunk, rest⟩ := result
        left
        rw [parseHunk_numbers hnumbers] at hparse
        simp only [parseInt_eq, if_pos hread.1, if_pos hread.2.1, if_pos hread.2.2.1,
          if_pos hread.2.2.2.1, Except.bind_eq_ok_iff, Except.ok.injEq, exists_eq_left',
          require_eq_ok] at hparse
        obtain ⟨_, hrange, ⟨out, change, rest'⟩, hloop, _, hchange, hresult⟩ := hparse
        cases hresult
        dsimp only at hchange
        rw [hchange] at hloop
        obtain ⟨body, hbody, hwhole⟩ := hunkBody_of_parse hloop (Nat.zero_le _) (Nat.zero_le _)
        exact ⟨_, _, body, _, _, rfl, hbody, ⟨_, _, _, _, hnumbers, hshort, rfl, rfl, hrange⟩, hwhole⟩
      | error e =>
        refine .inr (.inr ⟨e, rfl, ?_⟩)
        have hraises : Raises IsInvalidPatch (parseHunk header lines) := by
          rw [parseHunk_numbers hnumbers]
          simp only [parseInt_eq, if_pos hread.1, if_pos hread.2.1, if_pos hread.2.2.1,
            if_pos hread.2.2.2.1]
          refine Raises.ok.bind fun _ _ => Raises.ok.bind fun _ _ => Raises.ok.bind fun _ _ =>
            Raises.ok.bind fun _ _ => validateHunkRange_raises.bind fun _ _ =>
            parseHunkLines_raises.bind ?_
          intro result _
          exact (Raises.of_require isInvalidPatch).bind fun _ _ => .ok
        exact hraises.of_error e hparse

theorem startsWith_of_numbers {header oldStart oldDigits newStart newDigits : Text}
    (h : HeaderNumbers header oldStart oldDigits newStart newDigits) :
    startsWith header (py "@@") = true := by
  obtain ⟨oldGroup, newGroup, hmatch, -⟩ := h
  unfold matchHunkHeader at hmatch
  by_cases hopen : startsWith header (py "@@ -") = true
  · obtain ⟨tail, rfl⟩ := startsWith_iff.mp hopen
    exact startsWith_iff.mpr ⟨py " -" ++ tail, rfl⟩
  · simp [hopen] at hmatch

/-! ## Section 3: The hunks of a section -/

/-- The loop over the hunks goes through whole hunks. -/
theorem Hunks.parse {consumed : List Text} (h : Hunks consumed) {rest : List Text} {fuel : Nat}
    (hfuel : (consumed ++ rest).length ≤ fuel) (hunks : List PatchHunk) :
    ∃ fuel' more, parseHunks fuel (consumed ++ rest) hunks = parseHunks fuel' rest (hunks ++ more) ∧
      rest.length ≤ fuel' ∧ (consumed ≠ [] → more ≠ []) := by
  induction h generalizing fuel hunks with
  | nil => exact ⟨fuel, [], by rw [List.append_nil]; rfl, hfuel, fun h => absurd rfl h⟩
  | @cons header body lines oldCount newCount hheader hbody _ ih =>
    rw [List.cons_append, List.append_assoc] at hfuel ⊢
    rw [List.length_cons, List.length_append] at hfuel
    cases fuel with
    | zero => omega
    | succ fuel =>
      obtain ⟨hunk, hhunk⟩ := parseHunk_complete hheader hbody (lines ++ rest)
      obtain ⟨fuel', more, hmore, hfuel', -⟩ := @ih fuel (by omega) (hunks ++ [hunk])
      obtain ⟨_, _, _, _, hnumbers, -⟩ := hheader
      refine ⟨fuel', hunk :: more, ?_, hfuel', fun _ => List.cons_ne_nil _ _⟩
      rw [parseHunks, if_pos (startsWith_of_numbers hnumbers), hhunk]
      show parseHunks fuel (lines ++ rest) (hunks ++ [hunk]) = _
      rw [hmore, List.append_assoc]
      rfl

/-- The loop over the hunks ends behind whole hunks, comes to an oversized
    header behind whole hunks, or refuses the patch. -/
theorem parseHunks_cases {fuel : Nat} {lines : List Text} (hfuel : lines.length ≤ fuel)
    (hunks : List PatchHunk) :
    (∃ consumed rest more, parseHunks fuel lines hunks = .ok (hunks ++ more, rest) ∧
      lines = consumed ++ rest ∧ Hunks consumed ∧ (more ≠ [] → consumed ≠ [])) ∨
    (∃ consumed header after, lines = consumed ++ header :: after ∧ Hunks consumed ∧
      OversizedHeader header) ∨
    ∃ e, parseHunks fuel lines hunks = .error e ∧ e.cls = .invalidPatchError := by
  induction fuel generalizing lines hunks with
  | zero =>
    obtain rfl := List.length_eq_zero_iff.mp (Nat.le_zero.mp hfuel)
    exact .inl ⟨[], [], [], by rw [List.append_nil]; rfl, rfl, .nil, fun h => absurd rfl h⟩
  | succ fuel ih =>
    cases lines with
    | nil => exact .inl ⟨[], [], [], by rw [List.append_nil]; rfl, rfl, .nil, fun h => absurd rfl h⟩
    | cons line lines =>
      rw [List.length_cons] at hfuel
      by_cases hline : startsWith line (py "@@") = true
      · have hparse : parseHunks (fuel + 1) (line :: lines) hunks =
            parseHunk line lines >>= fun parsed => parseHunks fuel parsed.2 (hunks ++ [parsed.1]) := by
          rw [parseHunks, if_pos hline]
        rcases parseHunk_cases line lines with
          ⟨hunk, rest, body, oldCount, newCount, hhunk, rfl, hheader, hbody⟩ | hlong | ⟨e, he, hcls⟩
        · rw [List.length_append] at hfuel
          rw [hhunk] at hparse
          -- the loop goes on behind the hunk
          rcases @ih rest (by omega) (hunks ++ [hunk]) with
            ⟨consumed, rest', more, hrest, rfl, hhunks, -⟩ | ⟨consumed, header, after, rfl, hhunks,
              hlong⟩ | ⟨e, he, hcls⟩
          · refine .inl ⟨line :: (body ++ consumed), rest', hunk :: more, ?_, by simp,
              .cons hheader hbody hhunks, fun _ => List.cons_ne_nil _ _⟩
            rw [hparse]
            show parseHunks fuel (consumed ++ rest') (hunks ++ [hunk]) = _
            rw [hrest, List.append_assoc]
            rfl
          · exact .inr (.inl ⟨line :: (body ++ consumed), header, after, by simp,
              .cons hheader hbody hhunks, hlong⟩)
          · exact .inr (.inr ⟨e, hparse.trans he, hcls⟩)
        · exact .inr (.inl ⟨[], line, lines, rfl, .nil, hlong⟩)
        · rw [he] at hparse
          exact .inr (.inr ⟨e, hparse, hcls⟩)
      · refine .inl ⟨[], line :: lines, [], ?_, rfl, .nil, fun h => absurd rfl h⟩
        rw [parseHunks, if_neg hline, List.append_nil]

theorem parseHunks_oversized {consumed after : List Text} {header : Text} (h : Hunks consumed)
    (hlong : OversizedHeader header) {fuel : Nat}
    (hfuel : (consumed ++ header :: after).length ≤ fuel) (hunks : List PatchHunk) :
    ∃ e, parseHunks fuel (consumed ++ header :: after) hunks = .error e ∧ e.cls = .valueError := by
  obtain ⟨fuel', more, hparse, hfuel', -⟩ := h.parse hfuel hunks
  obtain ⟨e, he, hcls⟩ := parseHunk_oversized hlong after
  obtain ⟨_, _, _, _, hnumbers, -⟩ := hlong
  refine ⟨e, ?_, hcls⟩
  rw [hparse]
  cases fuel' with
  | zero => exact absurd hfuel' (by simp)
  | succ fuel' =>
    rw [parseHunks, if_pos (startsWith_of_numbers hnumbers), he]
    rfl

end Hunk

/-! ## Section 4: The sections of a patch -/

section Files

variable [UnicodeData] {resolvePath : Text → Except PyError SandboxPath}

omit [UnicodeData] in
theorem parseHeaderPath_raises (hresolve : ∀ value, Raises (fun c => c.isExpected = true) (resolvePath value))
    {line marker : Text} : Raises IsInvalidPatch (parseHeaderPath line marker resolvePath) :=
  (Raises.of_require isInvalidPatch).bind fun _ _ =>
    (Raises.of_require isInvalidPatch).bind fun _ _ =>
      Raises.of_rewrap isInvalidPatch ((hresolve _).mono fun _ h => .inl h)

/-- A round of the loop over the file sections, behind the lines that open one. -/
theorem parseFiles_opened {old new : Text} {path : SandboxPath} (h : Opens resolvePath old new path)
    (fuel : Nat) (rest : List Text) {files : List FilePatch}
    (hnew : path ∉ files.map FilePatch.path) :
    parseFiles resolvePath (fuel + 1) (old :: new :: rest) files = (do
      let (hunks, rest) ← parseHunks rest.length rest []
      require (hunks ≠ []) .invalidPatchError (py "file section must contain at least one hunk")
      require (rest.head?.all fun line => startsWith line (py "--- ")) .invalidPatchError
        (py "unexpected content between patch file sections")
      parseFiles resolvePath fuel rest (files ++ [⟨path, hunks⟩])) := by
  rw [parseFiles, require_of h.old_marker, h.old_path]
  dsimp only [bind, Except.bind]
  rw [require_of h.new_marker, h.new_path]
  dsimp only
  rw [require_of rfl, require_of hnew]

/-- A round of the loop is refused if no section opens, or the wrong one. -/
theorem parseFiles_unopened
    (hresolve : ∀ value, Raises (fun c => c.isExpected = true) (resolvePath value))
    (fuel : Nat) (line : Text) (rest : List Text) {files : List FilePatch}
    (h : ∀ old new rest' path, line :: rest = old :: new :: rest' → Opens resolvePath old new path →
      path ∈ files.map FilePatch.path) :
    ∃ e, parseFiles resolvePath (fuel + 1) (line :: rest) files = .error e ∧
      e.cls = .invalidPatchError := by
  cases hresult : parseFiles resolvePath (fuel + 1) (line :: rest) files with
  | error e =>
    refine ⟨e, rfl, ?_⟩
    have hraises : Raises IsInvalidPatch (parseFiles resolvePath (fuel + 1) (line :: rest) files) := by
      rw [parseFiles.eq_def]
      dsimp only
      refine (Raises.of_require isInvalidPatch).bind fun _ hold => ?_
      refine (parseHeaderPath_raises hresolve).bind fun oldPath holdPath => ?_
      cases rest with
      | nil => exact Raises.raise_iff.mpr isInvalidPatch
      | cons new rest =>
        dsimp only
        refine (Raises.of_require isInvalidPatch).bind fun _ hnew => ?_
        refine (parseHeaderPath_raises hresolve).bind fun newPath hnewPath => ?_
        refine (Raises.of_require isInvalidPatch).bind fun _ hsame => ?_
        rw [require_eq_ok] at hold hnew hsame
        subst hsame
        have hseen := h line new rest oldPath rfl ⟨hold, hnew, holdPath, hnewPath⟩
        refine (Raises.of_require isInvalidPatch).bind fun _ hfresh => ?_
        exact absurd hseen (require_eq_ok.mp hfresh)
    exact hraises.of_error e hresult
  | ok out =>
    rw [parseFiles.eq_def] at hresult
    dsimp only at hresult
    rw [Except.bind_eq_ok_iff] at hresult
    obtain ⟨_, hold, hresult⟩ := hresult
    rw [Except.bind_eq_ok_iff] at hresult
    obtain ⟨oldPath, holdPath, hresult⟩ := hresult
    cases rest with
    | nil => cases hresult
    | cons new rest =>
      simp only [Except.bind_eq_ok_iff, require_eq_ok] at hresult hold
      obtain ⟨_, hnew, newPath, hnewPath, _, hsame, _, hfresh, -⟩ := hresult
      subst hsame
      exact absurd (h line new rest oldPath rfl ⟨hold, hnew, holdPath, hnewPath⟩) hfresh

omit [UnicodeData] in
theorem Opens.endsHunks {old new : Text} {path : SandboxPath} (h : Opens resolvePath old new path)
    (rest : List Text) : EndsHunks (old :: rest) := h.old_marker

/-- The loop over the file sections goes through whole sections. -/
theorem Sections.parse {seen out : List SandboxPath} {sections : List Text}
    (h : Sections resolvePath seen sections out) {rest : List Text} (hrest : EndsHunks rest)
    {fuel : Nat} (hfuel : (sections ++ rest).length ≤ fuel) {files : List FilePatch}
    (hseen : files.map FilePatch.path = seen) :
    ∃ fuel' files', parseFiles resolvePath fuel (sections ++ rest) files =
      parseFiles resolvePath fuel' rest files' ∧ rest.length ≤ fuel' ∧
      files'.map FilePatch.path = out ∧ EndsHunks (sections ++ rest) := by
  induction h generalizing fuel files with
  | nil => exact ⟨fuel, files, rfl, hfuel, hseen, hrest⟩
  | @cons seen out old new path hunks lines hopens hfresh hne hhunks _ ih =>
    rw [List.cons_append, List.cons_append, List.append_assoc] at hfuel ⊢
    rw [List.length_cons, List.length_cons, List.length_append] at hfuel
    cases fuel with
    | zero => omega
    | succ fuel =>
      -- the next section, or what follows the last one, ends the hunks
      have hends : EndsHunks (lines ++ rest) := by
        obtain ⟨_, _, _, _, _, hends⟩ := @ih (lines ++ rest).length le_rfl
          (files ++ [⟨path, []⟩]) (by rw [List.map_append, hseen]; rfl)
        exact hends
      obtain ⟨fuel₁, parsed, hparse, hfuel₁, hparsed⟩ :=
        hhunks.parse (le_refl (hunks ++ (lines ++ rest)).length) []
      rw [parseHunks_end hends hfuel₁] at hparse
      obtain ⟨fuel', files', hfiles, hfuel', hout, -⟩ := @ih fuel (by omega)
        (files ++ [⟨path, parsed⟩]) (by rw [List.map_append, hseen]; rfl)
      refine ⟨fuel', files', ?_, hfuel', hout, hopens.endsHunks _⟩
      rw [parseFiles_opened hopens fuel _ (hseen.symm ▸ hfresh), hparse]
      dsimp only [bind, Except.bind]
      rw [List.nil_append, require_of (hparsed hne),
        require_of (show ((lines ++ rest).head?.all _) = true from hends)]
      exact hfiles

/-- The parser raises `InvalidPatchError`, unless it reaches an oversized header. -/
theorem parseFiles_cases
    (hresolve : ∀ value, Raises (fun c => c.isExpected = true) (resolvePath value))
    {fuel : Nat} {lines : List Text} (hfuel : lines.length ≤ fuel) (files : List FilePatch) :
    (∃ out, parseFiles resolvePath fuel lines files = .ok out) ∨
    ReachesOversized resolvePath (files.map FilePatch.path) lines ∨
    ∃ e, parseFiles resolvePath fuel lines files = .error e ∧ e.cls = .invalidPatchError := by
  induction fuel generalizing lines files with
  | zero =>
    obtain rfl := List.length_eq_zero_iff.mp (Nat.le_zero.mp hfuel)
    exact .inl ⟨files, rfl⟩
  | succ fuel ih =>
    cases lines with
    | nil => exact .inl ⟨files, rfl⟩
    | cons old lines =>
      by_cases hopens : ∃ new rest path, lines = new :: rest ∧ Opens resolvePath old new path ∧
          path ∉ files.map FilePatch.path
      · obtain ⟨new, rest, path, rfl, hopens, hfresh⟩ := hopens
        have hround := parseFiles_opened hopens fuel rest hfresh
        rw [List.length_cons, List.length_cons] at hfuel
        rcases parseHunks_cases (le_refl rest.length) [] with
          ⟨consumed, rest', parsed, hparse, rfl, hhunks, hne⟩ | ⟨consumed, header, after, rfl, hhunks,
            hlong⟩ | ⟨e, he, hcls⟩
        · rw [hparse] at hround
          dsimp only [bind, Except.bind] at hround
          rw [List.nil_append] at hround
          by_cases hparsed : parsed ≠ []
          · by_cases hends : (rest'.head?.all fun line => startsWith line (py "--- ")) = true
            · rw [require_of hparsed, require_of hends] at hround
              rw [List.length_append] at hfuel
              have hpaths : (files ++ [(⟨path, parsed⟩ : FilePatch)]).map FilePatch.path =
                  files.map FilePatch.path ++ [path] := by
                rw [List.map_append]
                rfl
              rcases @ih rest' (by omega) (files ++ [⟨path, parsed⟩]) with
                ⟨out, hout⟩ | hreaches | ⟨e, he, hcls⟩
              · exact .inl ⟨out, hround.trans hout⟩
              · rw [hpaths] at hreaches
                obtain ⟨sections, paths, old', new', path', hunks, header, after, rfl, hsections,
                  hrest⟩ := hreaches
                refine .inr (.inl ⟨old :: new :: (consumed ++ sections), paths, old', new', path',
                  hunks, header, after, by simp, ?_, hrest⟩)
                exact .cons hopens hfresh (hne hparsed) hhunks hsections
              · exact .inr (.inr ⟨e, hround.trans he, hcls⟩)
            · rw [require_of hparsed, require, if_neg hends] at hround
              exact .inr (.inr ⟨_, hround, rfl⟩)
          · rw [require, if_neg hparsed] at hround
            exact .inr (.inr ⟨_, hround, rfl⟩)
        · exact .inr (.inl ⟨[], _, old, new, path, consumed, header, after, rfl, .nil, hopens,
            hfresh, hhunks, hlong⟩)
        · rw [he] at hround
          exact .inr (.inr ⟨e, hround, hcls⟩)
      · refine .inr (.inr (parseFiles_unopened hresolve fuel old lines ?_))
        intro old' new rest path heq hopens'
        cases heq
        by_contra hfresh
        exact hopens ⟨new, rest, path, rfl, hopens', hfresh⟩

theorem parseFiles_oversized {lines : List Text} {files : List FilePatch}
    (h : ReachesOversized resolvePath (files.map FilePatch.path) lines) {fuel : Nat}
    (hfuel : lines.length ≤ fuel) :
    ∃ e, parseFiles resolvePath fuel lines files = .error e ∧ e.cls = .valueError := by
  obtain ⟨sections, paths, old, new, path, hunks, header, after, rfl, hsections, hopens, hfresh,
    hhunks, hlong⟩ := h
  obtain ⟨fuel', files', hparse, hfuel', hpaths, -⟩ :=
    hsections.parse (hopens.endsHunks _) hfuel rfl
  obtain ⟨e, he, hcls⟩ := parseHunks_oversized hhunks hlong
    (le_refl (hunks ++ header :: after).length) []
  refine ⟨e, ?_, hcls⟩
  rw [hparse]
  cases fuel' with
  | zero => exact absurd hfuel' (by simp)
  | succ fuel' =>
    rw [parseFiles_opened hopens fuel' _ (hpaths.symm ▸ hfresh), he]
    rfl

end Files

/-! ## Section 5: Every text -/

/-- The parser returns hunks that are as long as they declare, under distinct
    paths, or raises `InvalidPatchError`. -/
def ParsesOrRejects [UnicodeData] (patch : Text) (resolvePath : Text → Except PyError SandboxPath) :
    Prop :=
  match parseUnifiedDiff patch resolvePath with
  | .ok files => (files.map FilePatch.path).Nodup ∧ ∀ file ∈ files, ∀ hunk ∈ file.hunks,
      hunk.oldLines.length = hunk.oldCount ∧ hunk.newLines.length = hunk.newCount
  | .error e => e.cls = .invalidPatchError

/-- `patch` refuses a text that cannot be parsed with a domain error, and
    leaves the workspace as it was. -/
def RejectsMalformed [Sha256] [UnicodeData] (w : MemoryWorkspace) (request : WorkspacePatchRequest) :
    Prop :=
  (∀ files, parseUnifiedDiff request.patch
    (fun value => MemoryWorkspace.resolvePath w.limits value (some .root)) ≠ .ok files) →
  ∃ e, MemoryWorkspace.patch request w = (.error e, w) ∧ e.cls.isSandboxError = true

section Parser

variable [UnicodeData] {resolvePath : Text → Except PyError SandboxPath} {text : Text}

theorem parseUnifiedDiff_eq : parseUnifiedDiff text resolvePath = (do
    require (patchLines text ≠ []) .invalidPatchError
      (py "patch must contain at least one file section")
    parseFiles resolvePath (patchLines text).length (patchLines text) []) := rfl

theorem patchLines_ne_nil (h : Oversized text resolvePath) : patchLines text ≠ [] := by
  obtain ⟨sections, _, old, new, _, hunks, header, after, heq, -⟩ := h
  rw [heq]
  simp

theorem parseUnifiedDiff_oversized (h : Oversized text resolvePath) :
    ∃ e, parseUnifiedDiff text resolvePath = .error e ∧ e.cls = .valueError := by
  rw [parseUnifiedDiff_eq, require_of (patchLines_ne_nil h)]
  exact @parseFiles_oversized _ _ _ [] h _ le_rfl

theorem parseUnifiedDiff_cases
    (hresolve : ∀ value, Raises (fun c => c.isExpected = true) (resolvePath value)) (text : Text) :
    (∃ out, parseUnifiedDiff text resolvePath = .ok out) ∨ Oversized text resolvePath ∨
    ∃ e, parseUnifiedDiff text resolvePath = .error e ∧ e.cls = .invalidPatchError := by
  by_cases hne : patchLines text ≠ []
  · rw [parseUnifiedDiff_eq, require_of hne]
    exact parseFiles_cases hresolve le_rfl []
  · refine .inr (.inr ⟨⟨_, py "patch must contain at least one file section"⟩, ?_, rfl⟩)
    rw [parseUnifiedDiff_eq, require, if_neg hne]
    rfl

theorem parsesOrRejects_iff
    (hresolve : ∀ value, Raises (fun c => c.isExpected = true) (resolvePath value)) :
    ParsesOrRejects text resolvePath ↔ ¬ Oversized text resolvePath := by
  constructor
  · intro h hlong
    obtain ⟨e, he, hcls⟩ := parseUnifiedDiff_oversized hlong
    rw [ParsesOrRejects, he] at h
    dsimp only at h
    rw [hcls] at h
    cases h
  · intro hshort
    rcases parseUnifiedDiff_cases hresolve text with ⟨out, hout⟩ | hlong | ⟨e, he, hcls⟩
    · rw [ParsesOrRejects, hout]
      refine ⟨(parseUnifiedDiff_paths hout).1, ?_⟩
      intro file hfile hunk hhunk
      have hwell := parseUnifiedDiff_spec hout file hfile hunk hhunk
      exact ⟨hwell.oldCount_eq, hwell.newCount_eq⟩
    · exact absurd hlong hshort
    · rw [ParsesOrRejects, he]
      exact hcls

omit [UnicodeData] in
theorem resolvePath_expected (limits : WorkspaceLimits) (value : Text) :
    Raises (fun c => c.isExpected = true) (MemoryWorkspace.resolvePath limits value (some .root)) :=
  SandboxPath.resolve_raises (P := fun c => c.isExpected = true) rfl rfl rfl _ _ _ _

/-- What `patch` raises before it looks at the files. -/
theorem patch_error [Sha256] {w : MemoryWorkspace} {request : WorkspacePatchRequest} {e : PyError}
    (h : parseUnifiedDiff request.patch
      (fun value => MemoryWorkspace.resolvePath w.limits value (some .root)) = .error e) :
    ∃ e', MemoryWorkspace.patch request w = (.error e', w) ∧
      ((∃ n, utf8Length request.patch = some n ∧ n ≤ w.limits.maxPatchBytes) ∧ e' = e ∨
        (¬ ∃ n, utf8Length request.patch = some n ∧ n ≤ w.limits.maxPatchBytes) ∧
          e'.cls = .invalidPatchError) := by
  unfold MemoryWorkspace.patch
  rw [Call.bind_of_ok (Call.get_apply w)]
  cases hlength : utf8Length request.patch with
  | none => exact ⟨_, rfl, .inr ⟨by simp, rfl⟩⟩
  | some n =>
    dsimp only
    rw [Call.lift_bind_apply]
    by_cases hfits : n ≤ w.limits.maxPatchBytes
    · rw [require_of hfits]
      dsimp only
      rw [Call.lift_bind_apply, h]
      exact ⟨e, rfl, .inl ⟨⟨n, rfl, hfits⟩, rfl⟩⟩
    · rw [require, if_neg hfits]
      refine ⟨_, rfl, .inr ⟨?_, rfl⟩⟩
      rintro ⟨m, hm, hle⟩
      cases hm
      exact hfits hle

theorem rejectsMalformed_iff [Sha256] (w : MemoryWorkspace) (request : WorkspacePatchRequest) :
    RejectsMalformed w request ↔
      ¬ ((∃ n, utf8Length request.patch = some n ∧ n ≤ w.limits.maxPatchBytes) ∧
        Oversized request.patch
          fun value => MemoryWorkspace.resolvePath w.limits value (some .root)) := by
  constructor
  · rintro h ⟨hfits, hlong⟩
    obtain ⟨e, he, hcls⟩ := parseUnifiedDiff_oversized hlong
    obtain ⟨e', hpatch, hsame⟩ := patch_error he
    obtain ⟨e'', hpatch', hdomain⟩ := h (by rw [he]; simp)
    rw [hpatch] at hpatch'
    cases hpatch'
    obtain rfl : e' = e := (hsame.resolve_right fun h => h.1 hfits).2
    rw [hcls] at hdomain
    cases hdomain
  · intro h hmalformed
    have hdomain : ErrorClass.isSandboxError .invalidPatchError = true := rfl
    rcases parseUnifiedDiff_cases (resolvePath_expected w.limits) request.patch with
      ⟨out, hout⟩ | hlong | ⟨e, he, hcls⟩
    · exact absurd hout (hmalformed out)
    · obtain ⟨e, he, -⟩ := parseUnifiedDiff_oversized hlong
      obtain ⟨e', hpatch, hsame⟩ := patch_error he
      exact ⟨e', hpatch, (hsame.resolve_left fun hfits => h ⟨hfits.1, hlong⟩).2 ▸ hdomain⟩
    · obtain ⟨e', hpatch, ⟨-, rfl⟩ | ⟨-, hcls'⟩⟩ := patch_error he
      · exact ⟨e', hpatch, hcls ▸ hdomain⟩
      · exact ⟨e', hpatch, hcls' ▸ hdomain⟩

/-- The parser returns or raises its own error, and `patch` refuses what cannot be
    parsed, unless the parser comes to a number that `int` refuses. -/
theorem parseUnifiedDiff_total_iff (patch : Text) (resolvePath : Text → Except PyError SandboxPath)
    (hresolve : ∀ value, Raises (fun c => c.isExpected = true) (resolvePath value)) :
    (ParsesOrRejects patch resolvePath ↔ ¬ Oversized patch resolvePath) ∧
    ∀ [Sha256] (w : MemoryWorkspace) (request : WorkspacePatchRequest),
      RejectsMalformed w request ↔
        ¬ ((∃ n, utf8Length request.patch = some n ∧ n ≤ w.limits.maxPatchBytes) ∧
          Oversized request.patch
            fun value => MemoryWorkspace.resolvePath w.limits value (some .root)) :=
  ⟨parsesOrRejects_iff hresolve, fun w request => rejectsMalformed_iff w request⟩

end Parser

namespace PatchLaw

/-- A hunk header with a start of that many digits. -/
def longHeader (n : Nat) : Text :=
  py "@@ -" ++ (List.replicate n (CodePoint.ofChar '1') ++ py " +1 @@")

/-- A patch with that header. -/
def longPatch (n : Nat) : Text := renderLines [py "--- a/f", py "+++ b/f", longHeader n] true

theorem oversized_longHeader {n : Nat} (hn : 4300 < n) : OversizedHeader (longHeader n) := by
  have hdigits : ∀ c ∈ List.replicate n (CodePoint.ofChar '1'), isDecimal c = true := by
    intro c hc
    rw [List.eq_of_mem_replicate hc]
    rfl
  have hstops : Stops (py " +1 @@") := by
    intro c hc
    cases hc
    rfl
  have hlength : 4300 < (List.replicate n (CodePoint.ofChar '1')).length := by
    rwa [List.length_replicate]
  have hne : List.replicate n (CodePoint.ofChar '1') ≠ [] :=
    List.length_pos_iff.mp (Nat.zero_lt_of_lt hlength)
  have hrange : matchRange (List.replicate n (CodePoint.ofChar '1') ++ py " +1 @@") =
      some (List.replicate n (CodePoint.ofChar '1'), none, py " +1 @@") := by
    unfold matchRange
    dsimp only
    rw [(takeWhile_digits hdigits hstops).1, (takeWhile_digits hdigits hstops).2, if_neg hne]
    rfl
  have hmatch : matchHunkHeader (longHeader n) =
      some (List.replicate n (CodePoint.ofChar '1'), none, py "1", none) := by
    have hopen : startsWith (longHeader n) (py "@@ -") = true := startsWith_iff.mpr ⟨_, rfl⟩
    have hdrop : (longHeader n).drop 4 =
        List.replicate n (CodePoint.ofChar '1') ++ py " +1 @@" := rfl
    unfold matchHunkHeader
    rw [hopen, hdrop, hrange]
    rfl
  exact ⟨_, _, _, _, ⟨none, none, hmatch, rfl, rfl⟩, _, List.mem_cons_self, hlength⟩

theorem patchLines_longPatch (n : Nat) :
    patchLines (longPatch n) = [py "--- a/f", py "+++ b/f", longHeader n] := by
  refine lines_renderLines (List.cons_ne_nil _ _) ?_ true
  have hopening : py "@@ -" ⊆ py "@@ -1 +" := by decide
  have hclosing : py " +1 @@" ⊆ py "@@ -1 +" := by decide
  have hlong : ∀ c, c ∈ longHeader n → c ∈ py "@@ -1 +" := by
    intro c hc
    rcases List.mem_append.mp hc with hc | hc
    · exact hopening hc
    · rcases List.mem_append.mp hc with hc | hc
      · rw [List.eq_of_mem_replicate hc]
        decide
      · exact hclosing hc
  intro line hline
  simp only [List.mem_cons, List.not_mem_nil, or_false] at hline
  rcases hline with rfl | rfl | rfl
  · decide
  · decide
  · refine ⟨⟨fun h => ?_, fun h => ?_⟩, List.cons_ne_nil _ _⟩
    · exact absurd (hlong _ h) (by decide)
    · exact absurd (hlong _ h) (by decide)

theorem resolvePath_raises (value : Text) :
    Raises (fun c => c.isExpected = true) (PatchLaw.resolvePath value) :=
  SandboxPath.resolve_raises (P := fun c => c.isExpected = true) rfl rfl rfl _ _ _ _

theorem oversized_longPatch {n : Nat} (hn : 4300 < n) :
    Oversized (longPatch n) PatchLaw.resolvePath := by
  have hopens : Opens PatchLaw.resolvePath (py "--- a/f") (py "+++ b/f") file :=
    ⟨by decide, by decide, by decide +kernel, by decide +kernel⟩
  exact ⟨[], [], _, _, file, [], longHeader n, [], patchLines_longPatch n, .nil, hopens,
    List.not_mem_nil, .nil, oversized_longHeader hn⟩

theorem not_parsesOrRejects_longPatch {n : Nat} (hn : 4300 < n) :
    ¬ ParsesOrRejects (longPatch n) PatchLaw.resolvePath := fun h =>
  (parsesOrRejects_iff resolvePath_raises).mp h (oversized_longPatch hn)

end PatchLaw

open PatchLaw in
/-- A start of 4301 digits makes the parser raise `ValueError`. -/
theorem parseUnifiedDiff_longPatch :
    (∀ value, Raises (fun c => c.isExpected = true) (PatchLaw.resolvePath value)) ∧
      ¬ ParsesOrRejects (longPatch 4301) PatchLaw.resolvePath :=
  ⟨resolvePath_raises, not_parsesOrRejects_longPatch (by omega)⟩

open PatchLaw in
theorem parseUnifiedDiff_total_iff_replacement :
    ParsesOrRejects replacement PatchLaw.resolvePath ↔ ¬ Oversized replacement PatchLaw.resolvePath :=
  (parseUnifiedDiff_total_iff replacement PatchLaw.resolvePath resolvePath_raises).1
