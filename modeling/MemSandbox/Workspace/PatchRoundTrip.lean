import MemSandbox.Lib.Json
import MemSandbox.Workspace.PatchLaw

/-! # Rendered patches

    A list of file patches is rendered as a unified diff, with a marker line
    `\ No newline at end of file` after any of the hunks' lines.  The parser
    is driven by the declared counts: it reads each hunk up to its last line,
    and takes a marker line behind that for the start of something else. -/

open Python

/-! ## Section 1: The rendering -/

/-- A hunk and, for each of its lines, whether a marker line follows it. -/
structure RenderedHunk where
  hunk : PatchHunk
  markers : List Bool
  length_markers : markers.length = hunk.lines.length

/-- The rendered hunks of a file. -/
structure RenderedFile where
  path : SandboxPath
  hunks : List RenderedHunk

/-- The file patch that is rendered. -/
def RenderedFile.filePatch (file : RenderedFile) : FilePatch :=
  ⟨file.path, file.hunks.map RenderedHunk.hunk⟩

/-- The marker line. -/
def noNewlineMarker : Text := py "\\ No newline at end of file"

/-- A count, which is omitted when it is 1. -/
def renderCount (count : Nat) : Text := if count = 1 then [] else py "," ++ Text.ofNat count

/-- The header line of a hunk. -/
def PatchHunk.header (hunk : PatchHunk) : Text :=
  py "@@ -" ++ (Text.ofNat hunk.oldStart ++ renderCount hunk.oldCount ++ (py " +" ++
    (Text.ofNat hunk.newStart ++ renderCount hunk.newCount ++ py " @@")))

/-- A marker line, or none. -/
def renderMarker (marked : Bool) : List Text := if marked then [noNewlineMarker] else []

/-- The lines of a hunk with the marker lines behind them. -/
def renderPatchLines : List PatchLine → List Bool → List Text
  | line :: lines, marked :: markers =>
    (line.sign :: line.content) :: renderMarker marked ++ renderPatchLines lines markers
  | _, _ => []

/-- A hunk. -/
def RenderedHunk.render (hunk : RenderedHunk) : List Text :=
  hunk.hunk.header :: renderPatchLines hunk.hunk.lines hunk.markers

/-- A path as it is written relative to the workspace root. -/
def relativePath (path : SandboxPath) : Text := join (py "/") path.parts

/-- A file section. -/
def RenderedFile.render (file : RenderedFile) : List Text :=
  (py "--- a/" ++ relativePath file.path) :: (py "+++ b/" ++ relativePath file.path) ::
    file.hunks.flatMap RenderedHunk.render

/-- The text of a patch, with or without a newline at its end. -/
def renderPatch (files : List RenderedFile) (trailingNewline : Bool) : Text :=
  renderLines (files.flatMap RenderedFile.render) trailingNewline

/-- The numbers of a hunk's header. -/
def PatchHunk.numbers (hunk : PatchHunk) : List Nat :=
  [hunk.oldStart, hunk.oldCount, hunk.newStart, hunk.newCount]

/-- Nothing stands behind the last line of a hunk, and `int` reads its numbers. -/
structure RenderedHunk.Readable (hunk : RenderedHunk) : Prop where
  lastUnmarked : hunk.markers.getLast? ≠ some true
  numbers : ∀ number ∈ hunk.hunk.numbers, (Text.ofNat number).length ≤ 4300

/-! ## Section 2: Numbers -/

section Parser

variable [UnicodeData]

theorem isDecimal_of_isDigit {c : CodePoint} (h : Json.isDigit c = true) : isDecimal c = true := by
  rw [Json.isDigit, Bool.and_eq_true, decide_eq_true_iff, decide_eq_true_iff] at h
  rw [isDecimal, decimalValue, if_pos h]
  rfl

theorem isDecimal_of_mem_ofNat {n : Nat} {c : CodePoint} (h : c ∈ Text.ofNat n) :
    isDecimal c = true :=
  isDecimal_of_isDigit (Json.isDigit_of_mem_ofNat h)

theorem numeral_ofNat (n : Nat) : numeral (Text.ofNat n) = n := by
  have hfold : ∀ (digits : Text) (m : Nat), (∀ c ∈ digits, Json.isDigit c = true) →
      digits.foldl (fun n c => 10 * n + (decimalValue c).getD 0) m =
        digits.foldl (fun n c => 10 * n + (c.val - 48)) m := by
    intro digits
    induction digits with
    | nil => exact fun _ _ => rfl
    | cons c digits ih =>
      intro m hdigits
      obtain ⟨hc, hdigits⟩ := List.forall_mem_cons.mp hdigits
      rw [Json.isDigit, Bool.and_eq_true, decide_eq_true_iff, decide_eq_true_iff] at hc
      rw [List.foldl_cons, List.foldl_cons, decimalValue, if_pos hc, Option.getD_some, ih _ hdigits]
  rw [numeral, hfold _ _ fun c hc => Json.isDigit_of_mem_ofNat hc]
  exact Json.decimal_ofNat n

theorem parseInt_ofNat {n : Nat} (h : (Text.ofNat n).length ≤ 4300) :
    parseInt (Text.ofNat n) = .ok n := by
  unfold parseInt require
  rw [if_pos h, numeral_ofNat]
  rfl

theorem length_of_parseInt {digits : Text} {n : Nat} (h : parseInt digits = .ok n) :
    digits.length ≤ 4300 := by
  rw [parseInt, Except.bind_eq_ok_iff] at h
  obtain ⟨_, hrequire, -⟩ := h
  exact require_eq_ok.mp hrequire

/-- A text that no decimal digit starts. -/
def Stops (rest : Text) : Prop := ∀ c, rest.head? = some c → isDecimal c = false

theorem takeWhile_digits {digits rest : Text} (hdigits : ∀ c ∈ digits, isDecimal c = true)
    (hrest : Stops rest) :
    (digits ++ rest).takeWhile isDecimal = digits ∧ (digits ++ rest).dropWhile isDecimal = rest := by
  rw [List.takeWhile_append_of_pos hdigits, List.dropWhile_append_of_pos hdigits]
  cases rest with
  | nil => simp
  | cons c rest => simp [hrest c rfl]

omit [UnicodeData] in
theorem ofNat_ne_nil (n : Nat) : Text.ofNat n ≠ [] := by
  obtain ⟨c, cs, hcs, -⟩ := Json.head_ofNat n
  rw [hcs]
  exact List.cons_ne_nil _ _

theorem stops_comma (rest : Text) : Stops (py "," ++ rest) := by
  intro c hc
  cases hc
  rfl

/-- A rendered range is read back. -/
theorem matchRange_render (start count : Nat) {rest : Text} (hrest : startsWith rest (py " ")) :
    matchRange (Text.ofNat start ++ renderCount count ++ rest) =
      some (Text.ofNat start, if count = 1 then none else some (Text.ofNat count), rest) := by
  obtain ⟨tail, rfl⟩ := startsWith_iff.mp hrest
  have hstops : Stops (py " " ++ tail) := by
    intro c hc
    cases hc
    rfl
  have hcomma : startsWith (py " " ++ tail) (py ",") = false := rfl
  have hstart : ∀ c ∈ Text.ofNat start, isDecimal c = true := fun _ => isDecimal_of_mem_ofNat
  have hcount : ∀ c ∈ Text.ofNat count, isDecimal c = true := fun _ => isDecimal_of_mem_ofNat
  unfold matchRange renderCount
  dsimp only
  by_cases hone : count = 1
  · rw [if_pos hone, if_pos hone, List.append_nil, (takeWhile_digits hstart hstops).1,
      (takeWhile_digits hstart hstops).2, if_neg (ofNat_ne_nil start), hcomma]
    rfl
  · have hdrop : (py "," ++ (Text.ofNat count ++ (py " " ++ tail))).drop 1 =
        Text.ofNat count ++ (py " " ++ tail) := rfl
    have hpos : startsWith (py "," ++ (Text.ofNat count ++ (py " " ++ tail))) (py ",") = true :=
      startsWith_iff.mpr ⟨_, rfl⟩
    rw [if_neg hone, if_neg hone, List.append_assoc, List.append_assoc,
      (takeWhile_digits hstart (stops_comma _)).1, (takeWhile_digits hstart (stops_comma _)).2,
      if_neg (ofNat_ne_nil start), if_pos hpos, hdrop, (takeWhile_digits hcount hstops).1,
      (takeWhile_digits hcount hstops).2, if_neg (ofNat_ne_nil count)]

/-- A rendered header is read back. -/
theorem matchHunkHeader_header (hunk : PatchHunk) :
    matchHunkHeader hunk.header =
      some (Text.ofNat hunk.oldStart,
        if hunk.oldCount = 1 then none else some (Text.ofNat hunk.oldCount),
        Text.ofNat hunk.newStart,
        if hunk.newCount = 1 then none else some (Text.ofNat hunk.newCount)) := by
  have hopen : startsWith hunk.header (py "@@ -") = true := startsWith_iff.mpr ⟨_, rfl⟩
  have hdrop : hunk.header.drop 4 =
      Text.ofNat hunk.oldStart ++ renderCount hunk.oldCount ++ (py " +" ++
        (Text.ofNat hunk.newStart ++ renderCount hunk.newCount ++ py " @@")) := rfl
  have hplus : ∀ rest, startsWith (py " +" ++ rest) (py " +") = true :=
    fun rest => startsWith_iff.mpr ⟨rest, rfl⟩
  have hdropPlus : ∀ rest, (py " +" ++ rest).drop 2 = rest := fun _ => rfl
  have hspace : ∀ rest, startsWith (py " +" ++ rest) (py " ") = true :=
    fun rest => startsWith_iff.mpr ⟨py "+" ++ rest, rfl⟩
  have hclose : startsWith (py " @@") (py " @@") = true := rfl
  have hspaceClose : startsWith (py " @@") (py " ") = true := rfl
  unfold matchHunkHeader
  rw [hopen, hdrop, matchRange_render _ _ (hspace _)]
  simp only [guard, if_true, Option.bind_eq_bind, Option.pure_def, Option.bind_some, hplus,
    hdropPlus, matchRange_render _ _ hspaceClose, hclose]
  rfl

/-! ## Section 3: One hunk -/

omit [UnicodeData] in
theorem marker_ne_line {line : PatchLine} (hsign : line.sign ∈ py " -+") :
    line.sign :: line.content ≠ noNewlineMarker := by
  intro h
  have hhead := (List.cons.inj (h.trans (rfl : noNewlineMarker = CodePoint.ofChar '\\' ::
    py " No newline at end of file"))).1
  rw [hhead] at hsign
  exact absurd hsign (by decide)

/-- The number of source lines that hunk lines stand for. -/
def oldSize (lines : List PatchLine) : Nat :=
  (lines.filter fun line => line.sign ≠ CodePoint.ofChar '+').length

/-- The number of result lines that hunk lines stand for. -/
def newSize (lines : List PatchLine) : Nat :=
  (lines.filter fun line => line.sign ≠ CodePoint.ofChar '-').length

omit [UnicodeData] in
theorem oldSize_cons {line : PatchLine} (hsign : line.sign ∈ py " -+") (lines : List PatchLine) :
    oldSize (line :: lines) = (if line.sign ∈ py " -" then 1 else 0) + oldSize lines := by
  unfold oldSize
  by_cases hold : line.sign ∈ py " -"
  · rw [if_pos hold, List.filter_cons, if_pos (decide_eq_true ((sign_mem_old hsign).mp hold)),
      List.length_cons, Nat.add_comm]
  · have hplus : ¬ line.sign ≠ CodePoint.ofChar '+' := fun h => hold ((sign_mem_old hsign).mpr h)
    rw [if_neg hold, List.filter_cons_of_neg (by simpa using hplus), Nat.zero_add]

omit [UnicodeData] in
theorem newSize_cons {line : PatchLine} (hsign : line.sign ∈ py " -+") (lines : List PatchLine) :
    newSize (line :: lines) = (if line.sign ∈ py " +" then 1 else 0) + newSize lines := by
  unfold newSize
  by_cases hnew : line.sign ∈ py " +"
  · rw [if_pos hnew, List.filter_cons, if_pos (decide_eq_true ((sign_mem_new hsign).mp hnew)),
      List.length_cons, Nat.add_comm]
  · have hminus : ¬ line.sign ≠ CodePoint.ofChar '-' := fun h => hnew ((sign_mem_new hsign).mpr h)
    rw [if_neg hnew, List.filter_cons_of_neg (by simpa using hminus), Nat.zero_add]

omit [UnicodeData] in
theorem seen_eq (p : Prop) [Decidable p] (seen : Nat) :
    (if p then seen + 1 else seen) = seen + if p then 1 else 0 := by
  split <;> rfl

omit [UnicodeData] in
/-- Every hunk line stands for a line of the source or of the result. -/
theorem size_pos {line : PatchLine} (hsign : line.sign ∈ py " -+") (lines : List PatchLine) :
    0 < oldSize (line :: lines) ∨ 0 < newSize (line :: lines) := by
  rw [oldSize_cons hsign, newSize_cons hsign]
  rcases sign_cases hsign with h | h | h
  · exact .inl (by rw [h, if_pos (by decide)]; omega)
  · exact .inl (by rw [h, if_pos (by decide)]; omega)
  · exact .inr (by rw [h, if_pos (by decide)]; omega)

section Loop

variable {oldCount newCount oldSeen newSeen : Nat} {hasChange : Bool} {hunkLines : List PatchLine}

omit [UnicodeData] in
/-- The loop ends when both counts are reached. -/
theorem parseHunkLines_done (remaining : List Text) (hold : oldSeen = oldCount)
    (hnew : newSeen = newCount) :
    parseHunkLines oldCount newCount remaining oldSeen newSeen hasChange hunkLines =
      .ok (hunkLines, hasChange, remaining) := by
  unfold parseHunkLines
  rw [if_neg (by omega)]

omit [UnicodeData] in
/-- The loop skips a marker line while a count is not reached. -/
theorem parseHunkLines_marker (marked : Bool) (remaining : List Text)
    (hmore : oldSeen < oldCount ∨ newSeen < newCount) :
    parseHunkLines oldCount newCount (renderMarker marked ++ remaining) oldSeen newSeen hasChange
        hunkLines =
      parseHunkLines oldCount newCount remaining oldSeen newSeen hasChange hunkLines := by
  cases marked with
  | false => rfl
  | true =>
    show parseHunkLines _ _ (noNewlineMarker :: remaining) _ _ _ _ = _
    rw [parseHunkLines.eq_def]
    dsimp only
    rw [if_pos hmore]
    exact if_pos rfl

omit [UnicodeData] in
/-- The loop reads a hunk line that the counts allow. -/
theorem parseHunkLines_line {line : PatchLine} (hsign : line.sign ∈ py " -+")
    {lines : List PatchLine} (remaining : List Text)
    (hold : oldSeen + oldSize (line :: lines) = oldCount)
    (hnew : newSeen + newSize (line :: lines) = newCount) :
    parseHunkLines oldCount newCount ((line.sign :: line.content) :: remaining) oldSeen newSeen
        hasChange hunkLines =
      parseHunkLines oldCount newCount remaining
        (if line.sign ∈ py " -" then oldSeen + 1 else oldSeen)
        (if line.sign ∈ py " +" then newSeen + 1 else newSeen)
        (hasChange || decide (line.sign ∈ py "-+")) (hunkLines ++ [line]) := by
  have hmore : oldSeen < oldCount ∨ newSeen < newCount := by
    have hpos := size_pos hsign lines
    omega
  rw [oldSize_cons hsign] at hold
  rw [newSize_cons hsign] at hnew
  have hwithin : ¬ ((if line.sign ∈ py " -" then oldSeen + 1 else oldSeen) > oldCount ∨
      (if line.sign ∈ py " +" then newSeen + 1 else newSeen) > newCount) := by
    have holdSeen := seen_eq (line.sign ∈ py " -") oldSeen
    have hnewSeen := seen_eq (line.sign ∈ py " +") newSeen
    omega
  have hmarker : line.sign :: line.content ≠ py "\\ No newline at end of file" :=
    marker_ne_line hsign
  rw [parseHunkLines, if_pos hmore]
  dsimp only
  rw [if_neg hmarker, if_pos hsign, if_neg hwithin]

omit [UnicodeData] in
/-- The loop reads rendered hunk lines, and leaves the marker behind the last. -/
theorem parseHunkLines_render {lines : List PatchLine} {markers : List Bool}
    (hlength : markers.length = lines.length) (hsigns : ∀ line ∈ lines, line.sign ∈ py " -+")
    (rest : List Text) (hold : oldSeen + oldSize lines = oldCount)
    (hnew : newSeen + newSize lines = newCount) :
    parseHunkLines oldCount newCount (renderPatchLines lines markers ++ rest) oldSeen newSeen
        hasChange hunkLines =
      .ok (hunkLines ++ lines, hasChange || lines.any fun line => decide (line.sign ∈ py "-+"),
        renderMarker (markers.getLastD false) ++ rest) := by
  induction lines generalizing markers oldSeen newSeen hasChange hunkLines with
  | nil =>
    obtain rfl := List.length_eq_zero_iff.mp hlength
    rw [show oldSize [] = 0 from rfl, Nat.add_zero] at hold
    rw [show newSize [] = 0 from rfl, Nat.add_zero] at hnew
    rw [parseHunkLines_done _ hold hnew, List.append_nil, List.any_nil, Bool.or_false]
    rfl
  | cons line lines ih =>
    obtain ⟨hsign, hsigns⟩ := List.forall_mem_cons.mp hsigns
    cases markers with
    | nil => exact absurd hlength.symm (Nat.succ_ne_zero _)
    | cons marked markers =>
      have hlength : markers.length = lines.length := Nat.succ.inj hlength
      rw [renderPatchLines, List.append_assoc, List.cons_append, parseHunkLines_line hsign _ hold hnew,
        List.any_cons, ← Bool.or_assoc]
      rw [oldSize_cons hsign] at hold
      rw [newSize_cons hsign] at hnew
      have hold' : (if line.sign ∈ py " -" then oldSeen + 1 else oldSeen) + oldSize lines =
          oldCount := by
        rw [seen_eq, Nat.add_assoc]
        exact hold
      have hnew' : (if line.sign ∈ py " +" then newSeen + 1 else newSeen) + newSize lines =
          newCount := by
        rw [seen_eq, Nat.add_assoc]
        exact hnew
      cases lines with
      | nil =>
        -- The counts are reached: the marker stays.
        obtain rfl := List.length_eq_zero_iff.mp hlength
        rw [show oldSize [] = 0 from rfl, Nat.add_zero] at hold'
        rw [show newSize [] = 0 from rfl, Nat.add_zero] at hnew'
        rw [parseHunkLines_done _ hold' hnew', List.any_nil, Bool.or_false]
        rfl
      | cons next lines =>
        have hmore := size_pos (hsigns next List.mem_cons_self) lines
        have hlast : (marked :: markers).getLastD false = markers.getLastD false := by
          cases markers with
          | nil => exact absurd hlength.symm (Nat.succ_ne_zero _)
          | cons => rfl
        rw [parseHunkLines_marker _ _ (by omega), ih hlength hsigns hold' hnew', hlast,
          List.append_assoc]
        rfl

end Loop

/-- A rendered hunk whose numbers `int` reads is read back, up to the marker
    behind its last line. -/
theorem parseHunk_render {hunk : RenderedHunk} (hwell : hunk.hunk.WellFormed)
    (hnumbers : ∀ number ∈ hunk.hunk.numbers, (Text.ofNat number).length ≤ 4300)
    (rest : List Text) :
    parseHunk hunk.hunk.header (renderPatchLines hunk.hunk.lines hunk.markers ++ rest) =
      .ok (hunk.hunk, renderMarker (hunk.markers.getLastD false) ++ rest) := by
  have hcount : ∀ n, (Text.ofNat n).length ≤ 4300 →
      parseInt ((if n = 1 then none else some (Text.ofNat n)).getD (py "1")) = .ok n := by
    intro n hn
    by_cases hone : n = 1
    · subst hone
      have hone : (Text.ofNat 1).length ≤ 4300 := by decide
      exact parseInt_ofNat hone
    · rw [if_neg hone]
      exact parseInt_ofNat hn
  have hchange : (hunk.hunk.lines.any fun line => decide (line.sign ∈ py "-+")) = true := by
    obtain ⟨line, hline, hsign⟩ := hwell.hasChange
    exact List.any_eq_true.mpr ⟨line, hline, decide_eq_true hsign⟩
  have hold : 0 + oldSize hunk.hunk.lines = hunk.hunk.oldCount := by
    rw [Nat.zero_add, ← hwell.oldCount_eq, PatchHunk.oldLines, List.length_map]
    rfl
  have hnew : 0 + newSize hunk.hunk.lines = hunk.hunk.newCount := by
    rw [Nat.zero_add, ← hwell.newCount_eq, PatchHunk.newLines, List.length_map]
    rfl
  unfold parseHunk
  rw [matchHunkHeader_header]
  dsimp only
  rw [parseInt_ofNat (hnumbers _ (by simp [PatchHunk.numbers])),
    hcount _ (hnumbers _ (by simp [PatchHunk.numbers])),
    parseInt_ofNat (hnumbers _ (by simp [PatchHunk.numbers])),
    hcount _ (hnumbers _ (by simp [PatchHunk.numbers]))]
  simp only [bind, Except.bind, hwell.range,
    parseHunkLines_render hunk.length_markers hwell.signs rest hold hnew, hchange, Bool.false_or,
    List.nil_append]
  rfl

/-- A rendered hunk is only read if `int` reads its numbers. -/
theorem numbers_of_parseHunk {hunk : PatchHunk} {lines : List Text} {out : PatchHunk × List Text}
    (h : parseHunk hunk.header lines = .ok out) :
    ∀ number ∈ hunk.numbers, (Text.ofNat number).length ≤ 4300 := by
  have hcount : ∀ n m, parseInt ((if n = 1 then none else some (Text.ofNat n)).getD (py "1")) = .ok m →
      (Text.ofNat n).length ≤ 4300 := by
    intro n m h
    by_cases hone : n = 1
    · rw [hone]
      decide
    · rw [if_neg hone] at h
      exact length_of_parseInt h
  unfold parseHunk at h
  rw [matchHunkHeader_header] at h
  simp only [Except.bind_eq_ok_iff] at h
  obtain ⟨_, holdStart, _, holdCount, _, hnewStart, _, hnewCount, -⟩ := h
  intro number hnumber
  simp only [PatchHunk.numbers, List.mem_cons, List.not_mem_nil, or_false] at hnumber
  rcases hnumber with rfl | rfl | rfl | rfl
  · exact length_of_parseInt holdStart
  · exact hcount _ _ holdCount
  · exact length_of_parseInt hnewStart
  · exact hcount _ _ hnewCount

/-! ## Section 4: The hunks of a file -/

/-- What follows the hunks of a file: nothing, or a file header. -/
def EndsHunks (rest : List Text) : Prop :=
  (rest.head?.all fun line => startsWith line (py "--- ")) = true

omit [UnicodeData] in
theorem EndsHunks.not_hunk {line : Text} {rest : List Text} (h : EndsHunks (line :: rest)) :
    startsWith line (py "@@") = false := by
  obtain ⟨tail, rfl⟩ := startsWith_iff.mp (show startsWith line (py "--- ") = true from h)
  rfl

omit [UnicodeData] in
theorem not_endsHunks_marker (rest : List Text) : ¬ EndsHunks (noNewlineMarker :: rest) := by
  intro h
  exact absurd (show startsWith noNewlineMarker (py "--- ") = true from h) (by decide)

omit [UnicodeData] in
theorem parseHunks_end [UnicodeData] {fuel : Nat} {rest : List Text} (hrest : EndsHunks rest)
    (hfuel : rest.length ≤ fuel) (hunks : List PatchHunk) :
    parseHunks fuel rest hunks = .ok (hunks, rest) := by
  cases rest with
  | nil => cases fuel <;> rfl
  | cons line rest =>
    cases fuel with
    | zero => exact absurd hfuel (Nat.not_succ_le_zero _)
    | succ fuel =>
      have hline : ¬ startsWith line (py "@@") = true := by
        rw [hrest.not_hunk]
        exact Bool.false_ne_true
      rw [parseHunks, if_neg hline]

theorem parseHunks_header {fuel : Nat} (hunk : PatchHunk) (rest : List Text)
    (hunks : List PatchHunk) :
    parseHunks (fuel + 1) (hunk.header :: rest) hunks =
      parseHunk hunk.header rest >>= fun parsed => parseHunks fuel parsed.2 (hunks ++ [parsed.1]) := by
  have hheader : startsWith hunk.header (py "@@") = true :=
    startsWith_iff.mpr ⟨py " -" ++ _, rfl⟩
  rw [parseHunks, if_pos hheader]

omit [UnicodeData] in
theorem renderMarker_last {markers : List Bool} (h : markers.getLast? ≠ some true) :
    renderMarker (markers.getLastD false) = [] := by
  rw [List.getLastD_eq_getLast?]
  cases hmarkers : markers.getLast? with
  | none => rfl
  | some marked =>
    cases marked with
    | false => rfl
    | true => exact absurd hmarkers h

/-- Rendered hunks that are readable are read back. -/
theorem parseHunks_render {fuel : Nat} {rendered : List RenderedHunk} {rest : List Text}
    (hwell : ∀ hunk ∈ rendered, hunk.hunk.WellFormed) (hreadable : ∀ hunk ∈ rendered, hunk.Readable)
    (hrest : EndsHunks rest) (hfuel : (rendered.flatMap RenderedHunk.render ++ rest).length ≤ fuel)
    (hunks : List PatchHunk) :
    parseHunks fuel (rendered.flatMap RenderedHunk.render ++ rest) hunks =
      .ok (hunks ++ rendered.map RenderedHunk.hunk, rest) := by
  induction rendered generalizing fuel hunks with
  | nil =>
    rw [List.map_nil, List.append_nil]
    exact parseHunks_end hrest hfuel hunks
  | cons hunk rendered ih =>
    obtain ⟨hhunk, hwell⟩ := List.forall_mem_cons.mp hwell
    obtain ⟨hclean, hreadable⟩ := List.forall_mem_cons.mp hreadable
    rw [List.flatMap_cons, RenderedHunk.render, List.cons_append, List.cons_append,
      List.append_assoc] at hfuel ⊢
    cases fuel with
    | zero => exact absurd hfuel (Nat.not_succ_le_zero _)
    | succ fuel =>
      have hfuel' : (rendered.flatMap RenderedHunk.render ++ rest).length ≤ fuel := by
        rw [List.length_cons, List.length_append] at hfuel
        omega
      rw [parseHunks_header, parseHunk_render hhunk hclean.numbers,
        renderMarker_last hclean.lastUnmarked]
      show parseHunks fuel (rendered.flatMap RenderedHunk.render ++ rest) (hunks ++ [hunk.hunk]) = _
      rw [ih hwell hreadable hfuel', List.map_cons, List.append_assoc]
      rfl

/-- Where the hunks' loop ends at a file header or at the end, the rendered
    hunks are readable. -/
theorem readable_of_parseHunks {fuel : Nat} {rendered : List RenderedHunk} {rest out : List Text}
    {hunks parsed : List PatchHunk} (hwell : ∀ hunk ∈ rendered, hunk.hunk.WellFormed)
    (h : parseHunks fuel (rendered.flatMap RenderedHunk.render ++ rest) hunks = .ok (parsed, out))
    (hout : EndsHunks out) : ∀ hunk ∈ rendered, hunk.Readable := by
  induction rendered generalizing fuel hunks with
  | nil => exact nofun
  | cons hunk rendered ih =>
    obtain ⟨hhunk, hwell⟩ := List.forall_mem_cons.mp hwell
    rw [List.flatMap_cons, RenderedHunk.render, List.cons_append, List.cons_append,
      List.append_assoc] at h
    cases fuel with
    | zero => exact nomatch h
    | succ fuel =>
      rw [parseHunks_header, Except.bind_eq_ok_iff] at h
      obtain ⟨result, hparse, h⟩ := h
      have hnumbers := numbers_of_parseHunk hparse
      rw [parseHunk_render hhunk hnumbers] at hparse
      cases hparse
      by_cases hlast : hunk.markers.getLast? = some true
      · -- The marker behind the last line ends the loop.
        rw [List.getLastD_eq_getLast?, hlast] at h
        have hmarker : startsWith noNewlineMarker (py "@@") = false := rfl
        cases fuel with
        | zero => exact nomatch h
        | succ fuel =>
          dsimp only at h
          rw [Option.getD_some, renderMarker, if_pos rfl, List.cons_append, parseHunks, hmarker,
            if_neg Bool.false_ne_true] at h
          cases h
          exact absurd hout (not_endsHunks_marker _)
      · dsimp only at h
        rw [renderMarker_last hlast] at h
        intro other hother
        rcases List.mem_cons.mp hother with rfl | hother
        · exact ⟨hlast, hnumbers⟩
        · exact ih hwell h other hother

/-! ## Section 5: The file sections -/

section Files

variable {resolvePath : Text → Except PyError SandboxPath}

omit [UnicodeData] in
/-- A rendered header names the path behind its `a/` or `b/`. -/
theorem parseHeaderPath_render {marker side path : Text}
    (hside : side = py "a/" ∨ side = py "b/") (htab : CodePoint.ofChar '\t' ∉ path) :
    parseHeaderPath (marker ++ (side ++ path)) marker resolvePath =
      rewrap (resolvePath path) ErrorClass.isExpected .invalidPatchError
        (py "patch contains an invalid workspace path") := by
  have hsideTab : CodePoint.ofChar '\t' ∉ side ++ path := by
    rw [List.mem_append, not_or]
    refine ⟨?_, htab⟩
    rcases hside with rfl | rfl <;> decide
  have hne : side ++ path ≠ [] := by
    rcases hside with rfl | rfl <;> exact List.cons_ne_nil _ _
  have hdev : side ++ path ≠ py "/dev/null" := by
    intro h
    rcases hside with rfl | rfl <;> exact absurd (List.cons.inj h).1 (by decide)
  have hstart : (startsWith (side ++ path) (py "a/") || startsWith (side ++ path) (py "b/")) =
      true := by
    rcases hside with rfl | rfl
    · exact Bool.or_eq_true_iff.mpr (.inl (startsWith_iff.mpr ⟨path, rfl⟩))
    · exact Bool.or_eq_true_iff.mpr (.inr (startsWith_iff.mpr ⟨path, rfl⟩))
  have hdrop : (side ++ path).drop 2 = path := by
    rcases hside with rfl | rfl <;> rfl
  unfold parseHeaderPath
  rw [List.drop_left, split_of_not_mem hsideTab]
  simp only [List.headD_cons, require, ne_eq, hne, hdev, not_false_eq_true, if_true, bind,
    Except.bind, hstart, hdrop]

omit [UnicodeData] in
theorem endsHunks_render (files : List RenderedFile) :
    EndsHunks (files.flatMap RenderedFile.render) := by
  cases files with
  | nil => rfl
  | cons file files => exact startsWith_iff.mpr ⟨py "a/" ++ relativePath file.path, rfl⟩

/-- A file section whose header is read. -/
theorem parseFiles_section {fuel : Nat} {file : RenderedFile} {rest : List Text}
    {parsed : List FilePatch} (htab : CodePoint.ofChar '\t' ∉ relativePath file.path)
    (hresolve : resolvePath (relativePath file.path) = .ok file.path)
    (hnew : file.path ∉ parsed.map FilePatch.path) {out : List FilePatch} :
    parseFiles resolvePath (fuel + 1) (file.render ++ rest) parsed = .ok out ↔
      ∃ hunks left, parseHunks (file.hunks.flatMap RenderedHunk.render ++ rest).length
          (file.hunks.flatMap RenderedHunk.render ++ rest) [] = .ok (hunks, left) ∧
        hunks ≠ [] ∧ EndsHunks left ∧
        parseFiles resolvePath fuel left (parsed ++ [⟨file.path, hunks⟩]) = .ok out := by
  have hold : parseHeaderPath (py "--- a/" ++ relativePath file.path) (py "--- ") resolvePath =
      .ok file.path := by
    have hheader := @parseHeaderPath_render resolvePath (py "--- ") (py "a/") _ (.inl rfl) htab
    rw [hresolve] at hheader
    exact hheader
  have hnewPath : parseHeaderPath (py "+++ b/" ++ relativePath file.path) (py "+++ ") resolvePath =
      .ok file.path := by
    have hheader := @parseHeaderPath_render resolvePath (py "+++ ") (py "b/") _ (.inr rfl) htab
    rw [hresolve] at hheader
    exact hheader
  have holdStart : startsWith (py "--- a/" ++ relativePath file.path) (py "--- ") = true :=
    startsWith_iff.mpr ⟨py "a/" ++ relativePath file.path, rfl⟩
  have hnewStart : startsWith (py "+++ b/" ++ relativePath file.path) (py "+++ ") = true :=
    startsWith_iff.mpr ⟨py "b/" ++ relativePath file.path, rfl⟩
  have hends : ∀ left, EndsHunks left ↔ (left.head?.all fun line => startsWith line (py "--- ")) = true :=
    fun _ => Iff.rfl
  rw [RenderedFile.render, List.cons_append, List.cons_append, parseFiles]
  simp only [hold, hnewPath, Except.bind_eq_ok_iff, require_eq_ok, holdStart, hnewStart, hnew,
    Except.ok.injEq, exists_const, true_and, exists_eq_left', not_false_eq_true, hends]
  constructor
  · intro h
    obtain ⟨⟨hunks, left⟩, hparse, hhunks, hleft, h⟩ := h
    exact ⟨hunks, left, hparse, hhunks, hleft, h⟩
  · intro h
    obtain ⟨hunks, left, hparse, hhunks, hleft, h⟩ := h
    exact ⟨(hunks, left), hparse, hhunks, hleft, h⟩

omit [UnicodeData] in
theorem mem_of_mem_relativePath {path : SandboxPath} {c : CodePoint} (h : c ∈ relativePath path) :
    c ∈ path.value := by
  unfold relativePath SandboxPath.parts at h
  by_cases hroot : path.isRoot = true
  · rw [if_pos hroot] at h
    exact absurd h List.not_mem_nil
  · rw [if_neg hroot] at h
    have hjoin := join_split slash (path.value.drop (SandboxPath.ROOT.length + 1))
    rw [show py "/" = [slash] from rfl, hjoin] at h
    exact List.mem_of_mem_drop h

/-- A file with hunks, whose path stands on a line and is resolved to. -/
structure RenderedFile.WellFormed (resolvePath : Text → Except PyError SandboxPath)
    (file : RenderedFile) : Prop where
  isLine : IsLine file.path.value
  no_tab : CodePoint.ofChar '\t' ∉ file.path.value
  resolves : resolvePath (relativePath file.path) = .ok file.path
  hunks_ne_nil : file.hunks ≠ []
  hunks : ∀ hunk ∈ file.hunks, hunk.hunk.WellFormed

/-- Rendered file sections are read back exactly if their hunks are readable. -/
theorem parseFiles_render {fuel : Nat} {files : List RenderedFile} {parsed : List FilePatch}
    (hfiles : ∀ file ∈ files, file.WellFormed resolvePath)
    (hdistinct : (parsed.map FilePatch.path ++ files.map RenderedFile.path).Nodup)
    (hfuel : files.length ≤ fuel) :
    parseFiles resolvePath fuel (files.flatMap RenderedFile.render) parsed =
        .ok (parsed ++ files.map RenderedFile.filePatch) ↔
      ∀ file ∈ files, ∀ hunk ∈ file.hunks, hunk.Readable := by
  induction files generalizing fuel parsed with
  | nil =>
    rw [List.map_nil, List.append_nil]
    refine ⟨fun _ => nofun, fun _ => ?_⟩
    cases fuel <;> rfl
  | cons file files ih =>
    obtain ⟨hfile, hfiles⟩ := List.forall_mem_cons.mp hfiles
    have hnew : file.path ∉ parsed.map FilePatch.path := by
      intro hmem
      exact (List.nodup_append.mp hdistinct).2.2 _ hmem _ List.mem_cons_self rfl
    have hdistinct' : ((parsed ++ [file.filePatch]).map FilePatch.path ++
        files.map RenderedFile.path).Nodup := by
      rw [List.map_append, List.append_assoc]
      exact hdistinct
    cases fuel with
    | zero => exact absurd hfuel (Nat.not_succ_le_zero _)
    | succ fuel =>
      have ih := @ih fuel (parsed ++ [file.filePatch]) hfiles hdistinct' (Nat.le_of_succ_le_succ hfuel)
      rw [List.append_assoc] at ih
      have hends := endsHunks_render files
      have htab : CodePoint.ofChar '\t' ∉ relativePath file.path :=
        fun h => hfile.no_tab (mem_of_mem_relativePath h)
      rw [List.flatMap_cons, parseFiles_section htab hfile.resolves hnew, List.forall_mem_cons,
        ← ih, List.map_cons]
      constructor
      · intro h
        obtain ⟨hunks, left, hparse, -, hleft, h⟩ := h
        have hreadable := readable_of_parseHunks hfile.hunks hparse hleft
        rw [parseHunks_render hfile.hunks hreadable hends le_rfl] at hparse
        cases hparse
        exact ⟨hreadable, h⟩
      · intro h
        obtain ⟨hreadable, h⟩ := h
        refine ⟨_, _, parseHunks_render hfile.hunks hreadable hends le_rfl [], ?_, hends, h⟩
        rw [List.nil_append]
        exact fun hnil => hfile.hunks_ne_nil (List.map_eq_nil_iff.mp hnil)

/-! ## Section 6: The text of a patch -/

omit [UnicodeData] in
theorem isLine_append {a b : Text} (ha : IsLine a) (hb : IsLine b) : IsLine (a ++ b) := by
  refine ⟨?_, ?_⟩
  · rw [List.mem_append, not_or]
    exact ⟨ha.1, hb.1⟩
  · rw [List.mem_append, not_or]
    exact ⟨ha.2, hb.2⟩

omit [UnicodeData] in
theorem isLine_ofNat (n : Nat) : IsLine (Text.ofNat n) := by
  constructor
  · intro h
    exact absurd (Json.isDigit_of_mem_ofNat h) (by decide)
  · intro h
    exact absurd (Json.isDigit_of_mem_ofNat h) (by decide)

omit [UnicodeData] in
theorem isLine_renderCount (n : Nat) : IsLine (renderCount n) := by
  unfold renderCount
  by_cases hone : n = 1
  · rw [if_pos hone]
    exact ⟨nofun, nofun⟩
  · rw [if_neg hone]
    exact isLine_append ⟨by decide, by decide⟩ (isLine_ofNat n)

omit [UnicodeData] in
theorem isLine_header (hunk : PatchHunk) : IsLine hunk.header := by
  have hopen : IsLine (py "@@ -") := ⟨by decide, by decide⟩
  have hplus : IsLine (py " +") := ⟨by decide, by decide⟩
  have hclose : IsLine (py " @@") := ⟨by decide, by decide⟩
  exact isLine_append hopen (isLine_append
    (isLine_append (isLine_ofNat _) (isLine_renderCount _)) (isLine_append hplus
      (isLine_append (isLine_append (isLine_ofNat _) (isLine_renderCount _)) hclose)))

omit [UnicodeData] in
/-- The rendered lines of a hunk are lines, and not empty. -/
theorem renderPatchLines_spec {lines : List PatchLine} {markers : List Bool}
    (hsigns : ∀ line ∈ lines, line.sign ∈ py " -+") (hcontents : ∀ line ∈ lines, IsLine line.content) :
    ∀ line ∈ renderPatchLines lines markers, IsLine line ∧ line ≠ [] := by
  induction lines generalizing markers with
  | nil => exact nofun
  | cons first lines ih =>
    obtain ⟨hsign, hsigns⟩ := List.forall_mem_cons.mp hsigns
    obtain ⟨hcontent, hcontents⟩ := List.forall_mem_cons.mp hcontents
    cases markers with
    | nil => exact nofun
    | cons marked markers =>
      intro line hline
      rw [renderPatchLines, List.cons_append, List.mem_cons, List.mem_append] at hline
      rcases hline with rfl | hline | hline
      · have hhead : IsLine [first.sign] := by
          rcases sign_cases hsign with h | h | h <;> rw [h] <;> exact ⟨by decide, by decide⟩
        exact ⟨isLine_append hhead hcontent, List.cons_ne_nil _ _⟩
      · cases marked with
        | false => exact absurd hline List.not_mem_nil
        | true =>
          rw [List.mem_singleton.mp hline]
          exact ⟨⟨by decide, by decide⟩, List.cons_ne_nil _ _⟩
      · exact ih hsigns hcontents line hline

omit [UnicodeData] in
/-- The rendered lines of a file are lines, and not empty. -/
theorem RenderedFile.render_spec {file : RenderedFile} (h : file.WellFormed resolvePath) :
    ∀ line ∈ file.render, IsLine line ∧ line ≠ [] := by
  have hpath : IsLine (relativePath file.path) :=
    ⟨fun hlf => h.isLine.1 (mem_of_mem_relativePath hlf),
      fun hcr => h.isLine.2 (mem_of_mem_relativePath hcr)⟩
  have hold : IsLine (py "--- a/") := ⟨by decide, by decide⟩
  have hnew : IsLine (py "+++ b/") := ⟨by decide, by decide⟩
  intro line hline
  rw [RenderedFile.render, List.mem_cons, List.mem_cons] at hline
  rcases hline with rfl | rfl | hline
  · exact ⟨isLine_append hold hpath, List.cons_ne_nil _ _⟩
  · exact ⟨isLine_append hnew hpath, List.cons_ne_nil _ _⟩
  · obtain ⟨hunk, hhunk, hline⟩ := List.mem_flatMap.mp hline
    have hwell := h.hunks hunk hhunk
    rw [RenderedHunk.render, List.mem_cons] at hline
    rcases hline with rfl | hline
    · exact ⟨isLine_header _, List.cons_ne_nil _ _⟩
    · exact renderPatchLines_spec hwell.signs hwell.contents line hline

omit [UnicodeData] in
/-- The lines that the parser takes a text of non-empty lines for. -/
theorem lines_renderLines {lines : List Text} (hne : lines ≠ [])
    (hlines : ∀ line ∈ lines, IsLine line ∧ line ≠ []) (trailingNewline : Bool) :
    (if (split newline (normalizeLineEndings (renderLines lines trailingNewline))).getLast? = some []
      then (split newline (normalizeLineEndings (renderLines lines trailingNewline))).dropLast
      else split newline (normalizeLineEndings (renderLines lines trailingNewline))) = lines := by
  have hcr := cr_not_mem_join fun line hline => (hlines line hline).1
  have hsplit : split newline (join (py "\n") lines) = lines :=
    split_join (fun line hline => (hlines line hline).1.1) hne
  cases trailingNewline with
  | true =>
    have hcr' : CodePoint.ofChar '\r' ∉ join (py "\n") lines ++ [newline] := by
      rw [List.mem_append, not_or]
      exact ⟨hcr, by decide⟩
    have htext : renderLines lines true = join (py "\n") lines ++ [newline] := rfl
    have hpieces : split newline (join (py "\n") lines ++ [newline]) = lines ++ [[]] := by
      rw [split_append_cons newline _ [], hsplit]
      rfl
    rw [htext, normalizeLineEndings_of_not_mem hcr', hpieces, List.getLast?_concat, if_pos rfl,
      List.dropLast_concat]
  | false =>
    have htext : renderLines lines false = join (py "\n") lines := rfl
    rw [htext, normalizeLineEndings_of_not_mem hcr, hsplit]
    refine if_neg ?_
    intro hlast
    exact (hlines [] (List.mem_of_getLast? hlast)).2 rfl

/-- A rendered patch is read back exactly if no marker stands behind the last
    line of a hunk and `int` reads every number. -/
theorem parseUnifiedDiff_render {files : List RenderedFile} (hne : files ≠ [])
    (hdistinct : (files.map RenderedFile.path).Nodup)
    (hfiles : ∀ file ∈ files, file.WellFormed resolvePath) (trailingNewline : Bool) :
    parseUnifiedDiff (renderPatch files trailingNewline) resolvePath =
        .ok (files.map RenderedFile.filePatch) ↔
      ∀ file ∈ files, ∀ hunk ∈ file.hunks, hunk.Readable := by
  have hlinesNe : files.flatMap RenderedFile.render ≠ [] := by
    cases files with
    | nil => exact absurd rfl hne
    | cons => exact List.cons_ne_nil _ _
  have hlines : ∀ line ∈ files.flatMap RenderedFile.render, IsLine line ∧ line ≠ [] := by
    intro line hline
    obtain ⟨file, hfile, hline⟩ := List.mem_flatMap.mp hline
    exact file.render_spec (hfiles file hfile) line hline
  have hlength : files.length ≤ (files.flatMap RenderedFile.render).length := by
    rw [List.length_flatMap]
    have hsum := List.card_nsmul_le_sum (files.map fun file => file.render.length) 1 (by
      intro n hn
      obtain ⟨file, -, rfl⟩ := List.mem_map.mp hn
      exact Nat.succ_pos _)
    simpa using hsum
  have hrender := @parseFiles_render _ resolvePath _ files [] hfiles hdistinct hlength
  rw [List.nil_append] at hrender
  rw [← hrender, parseUnifiedDiff, renderPatch, lines_renderLines hlinesNe hlines]
  simp only [Except.bind_eq_ok_iff, require_eq_ok, ne_eq, hlinesNe, not_false_eq_true, true_and,
    exists_const]

end Files

end Parser

/-! ## Section 7: Paths relative to the root -/

/-- The relative spelling of a path starts with its first segment, and has no
    NUL. -/
theorem relativePath_spec {path : SandboxPath} (hne : path.parts ≠ [])
    (hvalid : ∀ s ∈ path.parts, SandboxPath.ValidSegment s) :
    contains [nul] (relativePath path) = false ∧ relativePath path ≠ [] ∧
      startsWith (relativePath path) (py "/") = false := by
  obtain ⟨first, rest, hparts⟩ := List.exists_cons_of_ne_nil hne
  rw [hparts] at hvalid
  obtain ⟨hfirst, hrest⟩ := List.forall_mem_cons.mp hvalid
  have htext : relativePath path = first ++ rest.flatMap fun s => py "/" ++ s := by
    rw [relativePath, hparts, join_cons]
  obtain ⟨c, cs, hcs⟩ := List.exists_cons_of_ne_nil hfirst.ne_nil
  rw [htext]
  refine ⟨?_, ?_, ?_⟩
  · rw [Bool.eq_false_iff, ne_eq, contains_singleton, List.mem_append, not_or]
    refine ⟨hfirst.no_nul, ?_⟩
    intro h
    obtain ⟨s, hs, hmem⟩ := List.mem_flatMap.mp h
    rcases List.mem_append.mp hmem with hmem | hmem
    · exact absurd hmem (by decide)
    · exact (hrest s hs).no_nul hmem
  · rw [hcs]
    exact List.cons_ne_nil _ _
  · rw [Bool.eq_false_iff, ne_eq, startsWith_iff, hcs]
    intro h
    have hslash : slash = c := (List.cons_prefix_cons.mp h).1
    apply hfirst.no_slash
    rw [hcs, hslash]
    exact List.mem_cons_self

/-- A path below the root that is within the limits is what its relative
    spelling resolves to. -/
theorem resolve_relativePath {path : SandboxPath} {maxPathBytes maxSegmentBytes : Nat}
    (hvalue : path.value ≠ []) (hroot : path.isRoot = false) (hpath : 0 < maxPathBytes)
    (hsegment : 0 < maxSegmentBytes) (hfits : SandboxPath.Fits maxPathBytes maxSegmentBytes path.parts) :
    SandboxPath.resolve (relativePath path) (some .root) maxPathBytes maxSegmentBytes = .ok path := by
  obtain ⟨hrender, hvalid⟩ := SandboxPath.value_eq_render hvalue
  have hne : path.parts ≠ [] := by
    intro hnil
    rw [hnil] at hrender
    rw [SandboxPath.isRoot, decide_eq_false_iff_not] at hroot
    exact hroot hrender
  have hsplit : split slash (relativePath path) = path.parts :=
    split_join (fun s hs => (hvalid s hs).no_slash) hne
  obtain ⟨hnul, hrelative, hstart⟩ := relativePath_spec hne hvalid
  have happend := SandboxPath.appendSegments_valid [py "workspace"] hvalid
  simp only [SandboxPath.resolve, Except.bind_eq_ok_iff, require_eq_ok, ne_eq, hrelative,
    not_false_eq_true, hnul, SandboxPath.requirePositiveLimit, hpath, hsegment,
    SandboxPath.startParts, hstart, Bool.false_eq_true, if_false, SandboxPath.parts_root, hsplit,
    true_and, exists_const, Except.ok.injEq, exists_eq_left', happend]
  exact SandboxPath.ofParts_eq_ok.mpr ⟨hfits, hrender⟩

/-! ## Section 8: A marker behind the last line -/

namespace PatchLaw

/-- The replaced line has no newline, the new one has. -/
def replacedMarked : RenderedFile :=
  ⟨file, [⟨⟨1, 1, 1, 1, [⟨CodePoint.ofChar '-', py "a"⟩, ⟨CodePoint.ofChar '+', py "b"⟩]⟩,
    [true, false], rfl⟩]⟩

/-- Neither line has a newline. -/
def bothMarked : RenderedFile :=
  ⟨file, [⟨⟨1, 1, 1, 1, [⟨CodePoint.ofChar '-', py "a"⟩, ⟨CodePoint.ofChar '+', py "b"⟩]⟩,
    [true, true], rfl⟩]⟩

theorem wellFormed_replacedMarked : replacedMarked.WellFormed resolvePath where
  isLine := by decide
  no_tab := by decide
  resolves := by decide +kernel
  hunks_ne_nil := List.cons_ne_nil _ _
  hunks := by
    intro hunk hhunk
    rw [List.mem_singleton.mp hhunk]
    exact ⟨by decide, by decide, rfl, rfl, by decide, rfl⟩

end PatchLaw

open PatchLaw in
theorem parseUnifiedDiff_render_replacedMarked :
    parseUnifiedDiff (renderPatch [replacedMarked] true) resolvePath =
        .ok ([replacedMarked].map RenderedFile.filePatch) ↔
      ∀ file ∈ [replacedMarked], ∀ hunk ∈ file.hunks, hunk.Readable :=
  parseUnifiedDiff_render (List.cons_ne_nil _ _)
    (show ([replacedMarked].map RenderedFile.path).Nodup from List.nodup_singleton file)
    (List.forall_mem_singleton.mpr wellFormed_replacedMarked) true

open PatchLaw in
/-- The marker behind the last line of a hunk is refused. -/
theorem parseUnifiedDiff_bothMarked :
    renderPatch [bothMarked] true =
        py "--- a/f\n+++ b/f\n@@ -1 +1 @@\n-a\n\\ No newline at end of file\n+b\n\\ No newline at end of file\n" ∧
      parseUnifiedDiff (renderPatch [bothMarked] true) resolvePath =
        raise .invalidPatchError (py "unexpected content between patch file sections") ∧
      parseUnifiedDiff (renderPatch [bothMarked] true) resolvePath ≠
        .ok ([bothMarked].map RenderedFile.filePatch) := by
  have hparse : parseUnifiedDiff (renderPatch [bothMarked] true) resolvePath =
      raise .invalidPatchError (py "unexpected content between patch file sections") := by
    decide +kernel
  refine ⟨by decide +kernel, hparse, ?_⟩
  rw [hparse]
  exact nofun
