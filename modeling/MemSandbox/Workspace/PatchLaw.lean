import MemSandbox.Lib.Strings
import MemSandbox.Workspace.Patching

/-! # What applying a patch does

    A hunk fits a source behind the hunks before it (`PatchHunk.Fits`), and
    hunks that fit edit its lines (`edited`).  `applyFilePatch` fails exactly
    if a hunk does not fit and renders the edited lines otherwise; its text
    is split into these lines again unless they are of a kind that no text is
    split into (`Renderable`). -/

open Python

/-! ## Section 1: Lines and their text -/

/-- A text without line endings. -/
def IsLine (line : Text) : Prop :=
  CodePoint.ofChar '\n' ∉ line ∧ CodePoint.ofChar '\r' ∉ line

instance (line : Text) : Decidable (IsLine line) := inferInstanceAs (Decidable (_ ∧ _))

theorem normalizeLineEndings_cr (text : Text) :
    CodePoint.ofChar '\r' ∉ normalizeLineEndings text :=
  not_mem_replace_singleton (by decide)

theorem normalizeLineEndings_of_not_mem {text : Text} (h : CodePoint.ofChar '\r' ∉ text) :
    normalizeLineEndings text = text := by
  have hcrlf : replace text (py "\r\n") (py "\n") = text := replace_of_not_mem h
  rw [normalizeLineEndings, hcrlf]
  exact replace_of_not_mem h

/-- The pieces of a normalized text are lines. -/
theorem isLine_of_mem_split {text line : Text} (h : line ∈ split newline (normalizeLineEndings text)) :
    IsLine line := by
  obtain ⟨hlf, hsub⟩ := mem_split h
  exact ⟨hlf, fun hcr => normalizeLineEndings_cr text (hsub hcr)⟩

theorem isLine_of_splitNormalizedLines {text line : Text}
    (h : line ∈ (splitNormalizedLines text).1) : IsLine line := by
  unfold splitNormalizedLines at h
  dsimp only at h
  split at h
  · exact absurd h List.not_mem_nil
  · split at h
    · exact isLine_of_mem_split (List.mem_of_mem_dropLast h)
    · exact isLine_of_mem_split h

/-- The text of lines, with or without a newline at the end. -/
def renderLines (lines : List Text) (trailingNewline : Bool) : Text :=
  if trailingNewline then join (py "\n") lines ++ py "\n" else join (py "\n") lines

/-- The lines and the flag that a text can be split into. -/
def Renderable (lines : List Text) (trailingNewline : Bool) : Prop :=
  if trailingNewline then lines ≠ [] else lines.getLast? ≠ some []

theorem join_concat {sep last : Text} {parts : List Text} (hne : parts ≠ []) :
    join sep (parts ++ [last]) = join sep parts ++ sep ++ last := by
  induction parts with
  | nil => exact absurd rfl hne
  | cons part parts ih =>
    cases parts with
    | nil => simp [join]
    | cons next parts =>
      rw [List.cons_append, List.cons_append, join_cons_cons, join_cons_cons, ← List.cons_append,
        ih (List.cons_ne_nil _ _)]
      simp only [List.append_assoc]

/-- A text ends with a newline where the last of several pieces is empty. -/
theorem endsWith_newline {text : Text} :
    endsWith text (py "\n") = true ↔
      ∃ pieces, pieces ≠ [] ∧ split newline text = pieces ++ [[]] := by
  rw [endsWith_iff]
  constructor
  · intro h
    obtain ⟨front, rfl⟩ := h
    exact ⟨split newline front, split_ne_nil _ _, split_append_cons newline front []⟩
  · intro h
    obtain ⟨pieces, hne, hsplit⟩ := h
    have hjoin := join_split newline text
    rw [hsplit, join_concat hne, List.append_nil] at hjoin
    exact ⟨_, hjoin⟩

theorem splitNormalizedLines_of_ne_nil {text : Text} (hcr : CodePoint.ofChar '\r' ∉ text)
    (hne : text ≠ []) :
    splitNormalizedLines text =
      (if endsWith text (py "\n") then (split newline text).dropLast else split newline text,
        endsWith text (py "\n")) := by
  rw [splitNormalizedLines, normalizeLineEndings_of_not_mem hcr]
  exact if_neg hne

theorem cr_not_mem_join {lines : List Text} (hlines : ∀ line ∈ lines, IsLine line) :
    CodePoint.ofChar '\r' ∉ join (py "\n") lines := by
  cases lines with
  | nil => exact List.not_mem_nil
  | cons line lines =>
    rw [join_cons, List.mem_append, not_or]
    refine ⟨(hlines line List.mem_cons_self).2, ?_⟩
    intro h
    obtain ⟨other, hother, hmem⟩ := List.mem_flatMap.mp h
    rcases List.mem_append.mp hmem with hmem | hmem
    · exact absurd hmem (by decide)
    · exact (hlines other (List.mem_cons_of_mem _ hother)).2 hmem

/-- The text of lines is split into these lines exactly if they are renderable. -/
theorem splitNormalizedLines_renderLines {lines : List Text} (trailingNewline : Bool)
    (hlines : ∀ line ∈ lines, IsLine line) :
    splitNormalizedLines (renderLines lines trailingNewline) = (lines, trailingNewline) ↔
      Renderable lines trailingNewline := by
  have hcr := cr_not_mem_join hlines
  have hsplit : lines ≠ [] → split newline (join (py "\n") lines) = lines :=
    fun hne => split_join (fun line hline => (hlines line hline).1) hne
  cases trailingNewline with
  | true =>
    have htext : renderLines lines true = join (py "\n") lines ++ [newline] := rfl
    have hends : endsWith (join (py "\n") lines ++ [newline]) (py "\n") = true :=
      endsWith_iff.mpr ⟨_, rfl⟩
    have hcr' : CodePoint.ofChar '\r' ∉ join (py "\n") lines ++ [newline] := by
      rw [List.mem_append, not_or]
      exact ⟨hcr, by decide⟩
    rw [htext, splitNormalizedLines_of_ne_nil hcr' (by simp), hends, if_pos rfl,
      split_append_cons newline _ [], Prod.mk.injEq]
    show (split newline _ ++ [[]]).dropLast = lines ∧ _ ↔ lines ≠ []
    rw [List.dropLast_concat]
    constructor
    · intro h
      rw [← h.1]
      exact split_ne_nil _ _
    · exact fun hne => ⟨hsplit hne, rfl⟩
  | false =>
    show splitNormalizedLines (join (py "\n") lines) = _ ↔ lines.getLast? ≠ some []
    by_cases hne : lines = []
    · subst hne
      exact ⟨fun _ => nofun, fun _ => rfl⟩
    by_cases htext : join (py "\n") lines = []
    · have hlone : lines = [[]] := by
        rw [← hsplit hne, htext]
        rfl
      subst hlone
      constructor
      · intro h
        exact absurd (congrArg Prod.fst h) (by decide)
      · exact fun h => absurd rfl h
    · rw [splitNormalizedLines_of_ne_nil hcr htext, hsplit hne, Prod.mk.injEq]
      have hends : endsWith (join (py "\n") lines) (py "\n") = true ↔ lines.getLast? = some [] := by
        rw [endsWith_newline, hsplit hne]
        constructor
        · intro h
          obtain ⟨pieces, -, rfl⟩ := h
          exact List.getLast?_concat
        · intro h
          obtain ⟨pieces, rfl⟩ := List.getLast?_eq_some_iff.mp h
          refine ⟨pieces, ?_, rfl⟩
          intro hpieces
          subst hpieces
          exact htext rfl
      constructor
      · intro h hlast
        rw [hends.mpr hlast] at h
        exact Bool.noConfusion h.2
      · intro h
        have hfalse : endsWith (join (py "\n") lines) (py "\n") = false := by
          rw [← Bool.not_eq_true]
          exact fun htrue => h (hends.mp htrue)
        rw [hfalse]
        exact ⟨rfl, rfl⟩

/-! ## Section 2: The hunks of a parsed patch -/

namespace PatchHunk

/-- The context and the removals of a hunk. -/
def oldLines (hunk : PatchHunk) : List Text :=
  (hunk.lines.filter fun line => line.sign ≠ CodePoint.ofChar '+').map PatchLine.content

/-- The context and the additions of a hunk. -/
def newLines (hunk : PatchHunk) : List Text :=
  (hunk.lines.filter fun line => line.sign ≠ CodePoint.ofChar '-').map PatchLine.content

/-- What the parser guarantees of a hunk. -/
structure WellFormed (hunk : PatchHunk) : Prop where
  signs : ∀ line ∈ hunk.lines, line.sign ∈ py " -+"
  contents : ∀ line ∈ hunk.lines, IsLine line.content
  oldCount_eq : hunk.oldLines.length = hunk.oldCount
  newCount_eq : hunk.newLines.length = hunk.newCount
  hasChange : ∃ line ∈ hunk.lines, line.sign ∈ py "-+"
  range : validateHunkRange hunk.oldStart hunk.oldCount hunk.newStart hunk.newCount = .ok ()

theorem WellFormed.isLine_of_mem_newLines {hunk : PatchHunk} (h : hunk.WellFormed) {line : Text}
    (hline : line ∈ hunk.newLines) : IsLine line := by
  obtain ⟨patchLine, hmem, rfl⟩ := List.mem_map.mp hline
  exact h.contents patchLine (List.mem_of_mem_filter hmem)

end PatchHunk

/-- What the loop over a hunk's lines keeps, of the lines it has read. -/
structure HunkPrefix (oldSeen newSeen : Nat) (hasChange : Bool) (lines : List PatchLine) : Prop where
  signs : ∀ line ∈ lines, line.sign ∈ py " -+"
  contents : ∀ line ∈ lines, IsLine line.content
  oldSeen_eq : (lines.filter fun line => line.sign ≠ CodePoint.ofChar '+').length = oldSeen
  newSeen_eq : (lines.filter fun line => line.sign ≠ CodePoint.ofChar '-').length = newSeen
  hasChange_iff : hasChange = true ↔ ∃ line ∈ lines, line.sign ∈ py "-+"

/-- The three signs of a hunk line. -/
theorem sign_cases {sign : CodePoint} (h : sign ∈ py " -+") :
    sign = CodePoint.ofChar ' ' ∨ sign = CodePoint.ofChar '-' ∨ sign = CodePoint.ofChar '+' := by
  have hlist : py " -+" = [CodePoint.ofChar ' ', CodePoint.ofChar '-', CodePoint.ofChar '+'] := rfl
  rw [hlist] at h
  simpa using h

theorem sign_mem_old {sign : CodePoint} (h : sign ∈ py " -+") :
    sign ∈ py " -" ↔ sign ≠ CodePoint.ofChar '+' := by
  rcases sign_cases h with rfl | rfl | rfl <;> decide

theorem sign_mem_new {sign : CodePoint} (h : sign ∈ py " -+") :
    sign ∈ py " +" ↔ sign ≠ CodePoint.ofChar '-' := by
  rcases sign_cases h with rfl | rfl | rfl <;> decide

theorem HunkPrefix.append {oldSeen newSeen : Nat} {hasChange : Bool} {lines : List PatchLine}
    (h : HunkPrefix oldSeen newSeen hasChange lines) {sign : CodePoint} {content : Text}
    (hsign : sign ∈ py " -+") (hcontent : IsLine content) :
    HunkPrefix (if sign ∈ py " -" then oldSeen + 1 else oldSeen)
      (if sign ∈ py " +" then newSeen + 1 else newSeen) (hasChange || decide (sign ∈ py "-+"))
      (lines ++ [⟨sign, content⟩]) where
  signs := by
    intro line hline
    rcases List.mem_append.mp hline with hline | hline
    · exact h.signs line hline
    · rw [List.mem_singleton.mp hline]
      exact hsign
  contents := by
    intro line hline
    rcases List.mem_append.mp hline with hline | hline
    · exact h.contents line hline
    · rw [List.mem_singleton.mp hline]
      exact hcontent
  oldSeen_eq := by
    rw [List.filter_append, List.length_append, h.oldSeen_eq]
    by_cases hold : sign ∈ py " -"
    · rw [if_pos hold, List.filter_singleton, decide_eq_true ((sign_mem_old hsign).mp hold)]
      rfl
    · rw [if_neg hold, List.filter_singleton,
        decide_eq_false fun hne => hold ((sign_mem_old hsign).mpr hne)]
      rfl
  newSeen_eq := by
    rw [List.filter_append, List.length_append, h.newSeen_eq]
    by_cases hnew : sign ∈ py " +"
    · rw [if_pos hnew, List.filter_singleton, decide_eq_true ((sign_mem_new hsign).mp hnew)]
      rfl
    · rw [if_neg hnew, List.filter_singleton,
        decide_eq_false fun hne => hnew ((sign_mem_new hsign).mpr hne)]
      rfl
  hasChange_iff := by
    rw [Bool.or_eq_true, decide_eq_true_iff, h.hasChange_iff]
    constructor
    · intro hor
      rcases hor with ⟨line, hline, hsign⟩ | hsign
      · exact ⟨line, List.mem_append_left _ hline, hsign⟩
      · exact ⟨_, List.mem_append_right _ (List.mem_singleton.mpr rfl), hsign⟩
    · intro hex
      obtain ⟨line, hline, hsign⟩ := hex
      rcases List.mem_append.mp hline with hline | hline
      · exact .inl ⟨line, hline, hsign⟩
      · rw [List.mem_singleton.mp hline] at hsign
        exact .inr hsign

section Parsed

variable [UnicodeData]

omit [UnicodeData] in
theorem parseHunkLines_spec {oldCount newCount oldSeen newSeen : Nat} {hasChange change : Bool}
    {remaining rest : List Text} {hunkLines out : List PatchLine}
    (h : parseHunkLines oldCount newCount remaining oldSeen newSeen hasChange hunkLines =
      .ok (out, change, rest))
    (hlines : ∀ line ∈ remaining, IsLine line)
    (hread : HunkPrefix oldSeen newSeen hasChange hunkLines)
    (hold : oldSeen ≤ oldCount) (hnew : newSeen ≤ newCount) :
    HunkPrefix oldCount newCount change out ∧ ∀ line ∈ rest, IsLine line := by
  induction remaining generalizing oldSeen newSeen hasChange hunkLines with
  | nil =>
    unfold parseHunkLines at h
    by_cases hmore : oldSeen < oldCount ∨ newSeen < newCount
    · rw [if_pos hmore] at h
      exact nomatch h
    · rw [if_neg hmore] at h
      obtain rfl : oldSeen = oldCount := by omega
      obtain rfl : newSeen = newCount := by omega
      cases h
      exact ⟨hread, hlines⟩
  | cons line remaining ih =>
    unfold parseHunkLines at h
    by_cases hmore : oldSeen < oldCount ∨ newSeen < newCount
    · rw [if_pos hmore] at h
      dsimp only at h
      have hlines' := fun line hline => hlines line (List.mem_cons_of_mem _ hline)
      by_cases hmarker : line = py "\\ No newline at end of file"
      · -- A marker line is skipped.
        rw [if_pos hmarker] at h
        exact ih h hlines' hread hold hnew
      · rw [if_neg hmarker] at h
        cases line with
        | nil => exact nomatch h
        | cons sign content =>
          dsimp only at h
          by_cases hsign : sign ∈ py " -+"
          · rw [if_pos hsign] at h
            have hcontent : IsLine content := by
              have hline := hlines (sign :: content) List.mem_cons_self
              exact ⟨fun hlf => hline.1 (List.mem_cons_of_mem _ hlf),
                fun hcr => hline.2 (List.mem_cons_of_mem _ hcr)⟩
            by_cases hover : (if sign ∈ py " -" then oldSeen + 1 else oldSeen) > oldCount ∨
                (if sign ∈ py " +" then newSeen + 1 else newSeen) > newCount
            · rw [if_pos hover] at h
              exact nomatch h
            · rw [if_neg hover] at h
              rw [not_or, Nat.not_lt, Nat.not_lt] at hover
              exact ih h hlines' (hread.append hsign hcontent) hover.1 hover.2
          · rw [if_neg hsign] at h
            exact nomatch h
    · rw [if_neg hmore] at h
      obtain rfl : oldSeen = oldCount := by omega
      obtain rfl : newSeen = newCount := by omega
      cases h
      exact ⟨hread, hlines⟩

theorem parseHunk_spec {header : Text} {lines rest : List Text} {hunk : PatchHunk}
    (h : parseHunk header lines = .ok (hunk, rest)) (hlines : ∀ line ∈ lines, IsLine line) :
    hunk.WellFormed ∧ ∀ line ∈ rest, IsLine line := by
  unfold parseHunk at h
  cases hmatch : matchHunkHeader header with
  | none =>
    rw [hmatch] at h
    exact nomatch h
  | some groups =>
    obtain ⟨oldStart, oldCount, newStart, newCount⟩ := groups
    simp only [hmatch, Except.bind_eq_ok_iff, require_eq_ok] at h
    obtain ⟨oldStart, -, oldCount, -, newStart, -, newCount, -, _, hrange, ⟨out, change, rest'⟩,
      hloop, _, hchange, h⟩ := h
    cases h
    have hempty : HunkPrefix 0 0 false [] :=
      ⟨List.forall_mem_nil _, List.forall_mem_nil _, rfl, rfl, by simp⟩
    obtain ⟨hout, hrest⟩ := parseHunkLines_spec hloop hlines hempty (Nat.zero_le _) (Nat.zero_le _)
    refine ⟨⟨hout.signs, hout.contents, ?_, ?_, hout.hasChange_iff.mp hchange, hrange⟩, hrest⟩
    · rw [PatchHunk.oldLines, List.length_map, hout.oldSeen_eq]
    · rw [PatchHunk.newLines, List.length_map, hout.newSeen_eq]

theorem parseHunks_spec {fuel : Nat} {lines rest : List Text} {hunks out : List PatchHunk}
    (h : parseHunks fuel lines hunks = .ok (out, rest)) (hlines : ∀ line ∈ lines, IsLine line)
    (hhunks : ∀ hunk ∈ hunks, hunk.WellFormed) :
    (∀ hunk ∈ out, hunk.WellFormed) ∧ ∀ line ∈ rest, IsLine line := by
  induction fuel generalizing lines hunks with
  | zero =>
    cases lines with
    | nil =>
      cases h
      exact ⟨hhunks, hlines⟩
    | cons => exact nomatch h
  | succ fuel ih =>
    cases lines with
    | nil =>
      cases h
      exact ⟨hhunks, hlines⟩
    | cons line lines =>
      unfold parseHunks at h
      by_cases hheader : startsWith line (py "@@") = true
      · rw [if_pos hheader, Except.bind_eq_ok_iff] at h
        obtain ⟨⟨hunk, lines'⟩, hparse, h⟩ := h
        obtain ⟨hhunk, hlines'⟩ :=
          parseHunk_spec hparse fun line hline => hlines line (List.mem_cons_of_mem _ hline)
        refine ih h hlines' ?_
        intro other hother
        rcases List.mem_append.mp hother with hother | hother
        · exact hhunks other hother
        · rw [List.mem_singleton.mp hother]
          exact hhunk
      · rw [if_neg hheader] at h
        cases h
        exact ⟨hhunks, hlines⟩

theorem parseFiles_spec {resolvePath : Text → Except PyError SandboxPath} {fuel : Nat}
    {lines : List Text} {files out : List FilePatch}
    (h : parseFiles resolvePath fuel lines files = .ok out) (hlines : ∀ line ∈ lines, IsLine line)
    (hfiles : ∀ file ∈ files, ∀ hunk ∈ file.hunks, hunk.WellFormed) :
    ∀ file ∈ out, ∀ hunk ∈ file.hunks, hunk.WellFormed := by
  induction fuel generalizing lines files with
  | zero =>
    cases lines with
    | nil =>
      cases h
      exact hfiles
    | cons => exact nomatch h
  | succ fuel ih =>
    cases lines with
    | nil =>
      cases h
      exact hfiles
    | cons line rest =>
      cases rest with
      | nil => simp [parseFiles, Except.bind_eq_ok_iff] at h
      | cons line' rest =>
        simp only [parseFiles, Except.bind_eq_ok_iff, require_eq_ok] at h
        obtain ⟨_, -, oldPath, -, _, -, newPath, -, _, -, _, -, ⟨hunks, rest'⟩, hparse, _, -, _, -,
          h⟩ := h
        have hrest : ∀ line ∈ rest, IsLine line := fun line hline =>
          hlines line (List.mem_cons_of_mem _ (List.mem_cons_of_mem _ hline))
        obtain ⟨hhunks, hrest'⟩ := parseHunks_spec hparse hrest (List.forall_mem_nil _)
        refine ih h hrest' ?_
        intro file hfile
        rcases List.mem_append.mp hfile with hfile | hfile
        · exact hfiles file hfile
        · rw [List.mem_singleton.mp hfile]
          exact hhunks

/-- Every hunk of a parsed patch is well formed. -/
theorem parseUnifiedDiff_spec {resolvePath : Text → Except PyError SandboxPath} {patch : Text}
    {out : List FilePatch} (h : parseUnifiedDiff patch resolvePath = .ok out) :
    ∀ file ∈ out, ∀ hunk ∈ file.hunks, hunk.WellFormed := by
  simp only [parseUnifiedDiff, Except.bind_eq_ok_iff] at h
  obtain ⟨_, -, h⟩ := h
  refine parseFiles_spec h ?_ (List.forall_mem_nil _)
  intro line hline
  split at hline
  · exact isLine_of_mem_split (List.mem_of_mem_dropLast hline)
  · exact isLine_of_mem_split hline

end Parsed

/-! ## Section 3: The edit that hunks describe -/

namespace PatchHunk

/-- The number of source lines before a hunk's position.  A hunk without old
    lines stands behind the line it names. -/
def targetIndex (hunk : PatchHunk) : Nat :=
  if hunk.oldCount = 0 then hunk.oldStart else hunk.oldStart - 1

/-- The number of result lines before a hunk's position. -/
def newIndex (hunk : PatchHunk) : Nat :=
  if hunk.newCount = 0 then hunk.newStart else hunk.newStart - 1

/-- A hunk fits a source of which `sourceIndex` lines are taken, and of which
    `resultLength` lines are made. -/
structure FitsAt (source : List Text) (sourceIndex resultLength : Nat) (hunk : PatchHunk) :
    Prop where
  notOverlapping : sourceIndex ≤ hunk.targetIndex
  withinFile : hunk.targetIndex + hunk.oldLines.length ≤ source.length
  oldMatches : hunk.oldLines <+: source.drop hunk.targetIndex
  newPosition : hunk.newIndex = resultLength + (hunk.targetIndex - sourceIndex)

/-- The source index behind hunks. -/
def sourceEnd (hunks : List PatchHunk) : Nat :=
  match hunks.getLast? with
  | none => 0
  | some hunk => hunk.targetIndex + hunk.oldLines.length

/-- The declared end of hunks in the result. -/
def resultEnd (hunks : List PatchHunk) : Nat :=
  match hunks.getLast? with
  | none => 0
  | some hunk => hunk.newIndex + hunk.newLines.length

/-- A hunk fits a source behind the hunks before it: it does not overlap
    them or run past the end, its old lines match at its position, and its
    new position is consistent with theirs. -/
def Fits (source : List Text) (before : List PatchHunk) (hunk : PatchHunk) : Prop :=
  hunk.FitsAt source (sourceEnd before) (resultEnd before)

end PatchHunk

/-- The lines of a source from `sourceIndex` on, with each hunk's old lines at
    its position replaced by its new lines. -/
def edited (source : List Text) : Nat → List PatchHunk → List Text
  | sourceIndex, [] => source.drop sourceIndex
  | sourceIndex, hunk :: hunks =>
    (source.take hunk.targetIndex).drop sourceIndex ++ hunk.newLines ++
      edited source (hunk.targetIndex + hunk.oldLines.length) hunks

/-- All hunks fit, one behind the other. -/
def AllFitAt (source : List Text) : Nat → Nat → List PatchHunk → Prop
  | _, _, [] => True
  | sourceIndex, resultLength, hunk :: hunks =>
    hunk.FitsAt source sourceIndex resultLength ∧
      AllFitAt source (hunk.targetIndex + hunk.oldLines.length)
        (hunk.newIndex + hunk.newLines.length) hunks

theorem PatchHunk.sourceEnd_concat (before : List PatchHunk) (hunk : PatchHunk) :
    PatchHunk.sourceEnd (before ++ [hunk]) = hunk.targetIndex + hunk.oldLines.length := by
  rw [PatchHunk.sourceEnd, List.getLast?_concat]

theorem PatchHunk.resultEnd_concat (before : List PatchHunk) (hunk : PatchHunk) :
    PatchHunk.resultEnd (before ++ [hunk]) = hunk.newIndex + hunk.newLines.length := by
  rw [PatchHunk.resultEnd, List.getLast?_concat]

theorem allFitAt_iff_append {source : List Text} {before hunks : List PatchHunk} :
    AllFitAt source (PatchHunk.sourceEnd before) (PatchHunk.resultEnd before) hunks ↔
      ∀ middle hunk after, hunks = middle ++ hunk :: after →
        hunk.Fits source (before ++ middle) := by
  induction hunks generalizing before with
  | nil => exact ⟨fun _ middle hunk after h => by simp at h, fun _ => trivial⟩
  | cons first hunks ih =>
    have ih := @ih (before ++ [first])
    rw [PatchHunk.sourceEnd_concat, PatchHunk.resultEnd_concat] at ih
    constructor
    · intro h middle hunk after heq
      obtain ⟨hfirst, hrest⟩ := h
      cases middle with
      | nil =>
        obtain ⟨rfl, rfl⟩ := List.cons.inj heq
        rw [List.append_nil]
        exact hfirst
      | cons other middle =>
        obtain ⟨rfl, rfl⟩ := List.cons.inj heq
        have hfits := ih.mp hrest middle hunk after rfl
        rwa [List.append_assoc] at hfits
    · intro h
      have hfirst := h [] first hunks rfl
      rw [List.append_nil] at hfirst
      refine ⟨hfirst, ih.mpr ?_⟩
      intro middle hunk after heq
      have hfits := h (first :: middle) hunk after (by rw [heq, List.cons_append])
      rwa [List.append_assoc]

/-- Hunks fit one behind the other if each fits behind those before it. -/
theorem allFitAt_iff {source : List Text} {hunks : List PatchHunk} :
    AllFitAt source 0 0 hunks ↔
      ∀ before hunk after, hunks = before ++ hunk :: after → hunk.Fits source before :=
  @allFitAt_iff_append source [] hunks

/-- The new lines of hunks that fit start at the declared new positions. -/
theorem newLines_prefix_edited {source : List Text} {sourceIndex resultLength : Nat}
    {hunks : List PatchHunk} (h : AllFitAt source sourceIndex resultLength hunks) :
    ∀ hunk ∈ hunks, resultLength ≤ hunk.newIndex ∧
      hunk.newLines <+: (edited source sourceIndex hunks).drop (hunk.newIndex - resultLength) := by
  induction hunks generalizing sourceIndex resultLength with
  | nil => exact nofun
  | cons first hunks ih =>
    obtain ⟨hfits, hrest⟩ := h
    have hgap : ((source.take first.targetIndex).drop sourceIndex).length =
        first.targetIndex - sourceIndex := by
      have hwithin := hfits.withinFile
      rw [List.length_drop, List.length_take]
      omega
    have hposition := hfits.newPosition
    intro hunk hhunk
    rcases List.mem_cons.mp hhunk with rfl | hhunk
    · refine ⟨by omega, ?_⟩
      have hlength : hunk.newIndex - resultLength =
          ((source.take hunk.targetIndex).drop sourceIndex).length := by omega
      rw [edited, List.append_assoc, hlength, List.drop_left]
      exact List.prefix_append _ _
    · obtain ⟨hle, hread⟩ := ih hrest hunk hhunk
      refine ⟨by omega, ?_⟩
      have hlength : hunk.newIndex - resultLength =
          ((source.take first.targetIndex).drop sourceIndex ++ first.newLines).length +
            (hunk.newIndex - (first.newIndex + first.newLines.length)) := by
        rw [List.length_append, hgap]
        omega
      rw [edited, hlength, ← List.drop_drop, List.drop_left]
      exact hread

/-! ## Section 4: The application computes the edit -/

/-- The loop over a hunk's lines succeeds exactly if the old lines match. -/
theorem applyLines_eq_ok {path : SandboxPath} {source : List Text} {lines : List PatchLine}
    (hsigns : ∀ line ∈ lines, line.sign ∈ py " -+") {result : List Text} {sourceIndex : Nat}
    {out : List Text × Nat} :
    applyLines path source lines (result, sourceIndex) = .ok out ↔
      (lines.filter fun line => line.sign ≠ CodePoint.ofChar '+').map PatchLine.content <+:
          source.drop sourceIndex ∧
        out = (result ++
            (lines.filter fun line => line.sign ≠ CodePoint.ofChar '-').map PatchLine.content,
          sourceIndex + (lines.filter fun line => line.sign ≠ CodePoint.ofChar '+').length) := by
  induction lines generalizing result sourceIndex with
  | nil => simp [applyLines, eq_comm]
  | cons line lines ih =>
    have ih := @ih fun other hother => hsigns other (List.mem_cons_of_mem _ hother)
    rw [applyLines]
    by_cases hplus : line.sign = CodePoint.ofChar '+'
    · have hminus : line.sign ≠ CodePoint.ofChar '-' := by
        rw [hplus]
        decide
      rw [if_pos hplus, ih, List.filter_cons_of_neg (by simp [hplus]),
        List.filter_cons_of_pos (by simp [hminus]), List.map_cons, List.append_assoc]
      rfl
    · rw [if_neg hplus, List.filter_cons_of_pos (by simp [hplus]), List.map_cons,
        List.length_cons]
      cases hget : source[sourceIndex]? with
      | none =>
        have hdrop : source.drop sourceIndex = [] :=
          List.drop_eq_nil_of_le (List.getElem?_eq_none_iff.mp hget)
        rw [hdrop]
        exact ⟨nofun, fun h => absurd (List.prefix_nil.mp h.1) (List.cons_ne_nil _ _)⟩
      | some actual =>
        obtain ⟨hlt, rfl⟩ := List.getElem?_eq_some_iff.mp hget
        rw [List.drop_eq_getElem_cons hlt, List.cons_prefix_cons]
        dsimp only
        by_cases hcontent : source[sourceIndex] = line.content
        · rw [if_neg (not_not_intro hcontent), ih, Nat.add_assoc, Nat.add_comm 1]
          -- A context line stays in the result, a removal does not.
          rcases sign_cases (hsigns line List.mem_cons_self) with hsign | hsign | hsign
          · rw [if_pos hsign, List.filter_cons_of_pos (by rw [hsign]; decide), hcontent,
              List.map_cons, List.append_assoc]
            simp
          · rw [if_neg (by rw [hsign]; decide), List.filter_cons_of_neg (by rw [hsign]; decide),
              hcontent]
            simp
          · exact absurd hsign hplus
        · rw [if_pos hcontent]
          exact ⟨nofun, fun h => absurd h.1.1.symm hcontent⟩

/-- The loop over the hunks succeeds exactly if they fit, with their edit. -/
theorem applyHunks_eq_ok {path : SandboxPath} {source : List Text} {hunks : List PatchHunk}
    (hhunks : ∀ hunk ∈ hunks, hunk.WellFormed) {result : List Text} {sourceIndex : Nat}
    {lines : List Text} :
    (∃ out, applyHunks path source hunks (result, sourceIndex) = .ok out ∧
        out.1 ++ source.drop out.2 = lines) ↔
      AllFitAt source sourceIndex result.length hunks ∧
        lines = result ++ edited source sourceIndex hunks := by
  induction hunks generalizing result sourceIndex with
  | nil => simp [applyHunks, AllFitAt, edited, eq_comm]
  | cons hunk hunks ih =>
    have hwell := hhunks hunk List.mem_cons_self
    have ih := @ih fun other hother => hhunks other (List.mem_cons_of_mem _ hother)
    have happly : ∀ out, applyHunks path source (hunk :: hunks) (result, sourceIndex) = .ok out ↔
        (sourceIndex ≤ hunk.targetIndex ∧ hunk.targetIndex ≤ source.length) ∧
        (result ++ (source.take hunk.targetIndex).drop sourceIndex).length = hunk.newIndex ∧
        hunk.oldLines <+: source.drop hunk.targetIndex ∧
        applyHunks path source hunks
          (result ++ (source.take hunk.targetIndex).drop sourceIndex ++ hunk.newLines,
            hunk.targetIndex + hunk.oldLines.length) = .ok out := by
      intro out
      simp only [applyHunks, Except.bind_eq_ok_iff, require_eq_ok, applyLines_eq_ok hwell.signs]
      constructor
      · intro h
        obtain ⟨_, hrange, _, hindex, _, ⟨hread, rfl⟩, h⟩ := h
        refine ⟨hrange, hindex, hread, ?_⟩
        rw [PatchHunk.oldLines, List.length_map]
        exact h
      · intro h
        obtain ⟨hrange, hindex, hread, h⟩ := h
        rw [PatchHunk.oldLines, List.length_map] at h
        exact ⟨(), hrange, (), hindex, _, ⟨hread, rfl⟩, h⟩
    have hgap : hunk.targetIndex ≤ source.length →
        (result ++ (source.take hunk.targetIndex).drop sourceIndex).length =
          result.length + (hunk.targetIndex - sourceIndex) := by
      intro hle
      rw [List.length_append, List.length_drop, List.length_take]
      omega
    simp only [happly, AllFitAt, edited]
    constructor
    · intro h
      obtain ⟨out, ⟨hrange, hindex, hread, h⟩, hlines⟩ := h
      obtain ⟨hfit, heq⟩ := ih.mp ⟨out, h, hlines⟩
      have hwithin := hread.length_le
      rw [List.length_drop] at hwithin
      have hposition : hunk.newIndex = result.length + (hunk.targetIndex - sourceIndex) := by
        rw [← hindex, hgap hrange.2]
      rw [List.length_append, hindex] at hfit
      refine ⟨⟨⟨hrange.1, by omega, hread, hposition⟩, hfit⟩, ?_⟩
      rw [heq]
      simp only [List.append_assoc]
    · intro h
      obtain ⟨⟨hfits, hrest⟩, heq⟩ := h
      have hle : hunk.targetIndex ≤ source.length :=
        Nat.le_trans (Nat.le_add_right _ _) hfits.withinFile
      have hindex : (result ++ (source.take hunk.targetIndex).drop sourceIndex).length =
          hunk.newIndex := by
        rw [hgap hle, hfits.newPosition]
      rw [← hindex, ← List.length_append] at hrest
      have hlines : lines = result ++ (source.take hunk.targetIndex).drop sourceIndex ++
          hunk.newLines ++ edited source (hunk.targetIndex + hunk.oldLines.length) hunks := by
        rw [heq]
        simp only [List.append_assoc]
      obtain ⟨out, h, hout⟩ := ih.mpr ⟨hrest, hlines⟩
      exact ⟨out, ⟨⟨hfits.notOverlapping, hle⟩, hindex, hfits.oldMatches, h⟩, hout⟩

/-- A file patch applies exactly if its hunks fit, and renders their edit. -/
theorem applyFilePatch_eq_ok {content : Text} {filePatch : FilePatch}
    (hhunks : ∀ hunk ∈ filePatch.hunks, hunk.WellFormed) {result : Text} :
    applyFilePatch content filePatch = .ok result ↔
      AllFitAt (splitNormalizedLines content).1 0 0 filePatch.hunks ∧
        result = renderLines (edited (splitNormalizedLines content).1 0 filePatch.hunks)
          (splitNormalizedLines content).2 := by
  have hspec : ∀ lines, _ ↔ _ :=
    fun lines => @applyHunks_eq_ok filePatch.path (splitNormalizedLines content).1 _ hhunks [] 0 lines
  simp only [List.length_nil, List.nil_append] at hspec
  simp only [applyFilePatch, Except.bind_eq_ok_iff, Except.ok.injEq]
  constructor
  · intro h
    obtain ⟨out, happly, hresult⟩ := h
    obtain ⟨hfit, heq⟩ := (hspec _).mp ⟨out, happly, rfl⟩
    rw [heq] at hresult
    exact ⟨hfit, hresult.symm⟩
  · intro h
    obtain ⟨hfit, hresult⟩ := h
    obtain ⟨out, happly, hlines⟩ := (hspec _).mpr ⟨hfit, rfl⟩
    refine ⟨out, happly, ?_⟩
    rw [hlines, hresult]
    rfl

/-! ## Section 5: The application law -/

/-- What applying a file patch to a file promises. -/
structure ApplicationLaw (content : Text) (filePatch : FilePatch) : Prop where
  lines : ∀ result, applyFilePatch content filePatch = .ok result →
    splitNormalizedLines result =
      (edited (splitNormalizedLines content).1 0 filePatch.hunks, (splitNormalizedLines content).2)
  oldMatches : ∀ result, applyFilePatch content filePatch = .ok result →
    ∀ hunk ∈ filePatch.hunks,
      hunk.oldLines <+: (splitNormalizedLines content).1.drop hunk.targetIndex
  newPositions : ∀ result, applyFilePatch content filePatch = .ok result →
    ∀ hunk ∈ filePatch.hunks,
      hunk.newLines <+: (splitNormalizedLines result).1.drop hunk.newIndex
  fails : (∃ error, applyFilePatch content filePatch = .error error) ↔
    ∃ before hunk after, filePatch.hunks = before ++ hunk :: after ∧
      ¬ hunk.Fits (splitNormalizedLines content).1 before

theorem isLine_of_mem_edited {source : List Text} (hsource : ∀ line ∈ source, IsLine line)
    {hunks : List PatchHunk} (hhunks : ∀ hunk ∈ hunks, hunk.WellFormed) (sourceIndex : Nat) :
    ∀ line ∈ edited source sourceIndex hunks, IsLine line := by
  induction hunks generalizing sourceIndex with
  | nil => exact fun line hline => hsource line (List.mem_of_mem_drop hline)
  | cons hunk hunks ih =>
    intro line hline
    rw [edited, List.mem_append, List.mem_append] at hline
    rcases hline with (hline | hline) | hline
    · exact hsource line (List.mem_of_mem_take (List.mem_of_mem_drop hline))
    · exact (hhunks hunk List.mem_cons_self).isLine_of_mem_newLines hline
    · exact ih (fun other hother => hhunks other (List.mem_cons_of_mem _ hother)) _ line hline

/-- Applying a file of a parsed patch keeps the law exactly if, where all
    hunks fit, a text is split into the edited lines: a file that ended with a
    newline keeps a line, and one that did not does not get an empty last
    line. -/
theorem applyFilePatch_law [UnicodeData] {patch : Text}
    {resolvePath : Text → Except PyError SandboxPath} {files : List FilePatch}
    (hparse : parseUnifiedDiff patch resolvePath = .ok files) {filePatch : FilePatch}
    (hfile : filePatch ∈ files) (content : Text) :
    ApplicationLaw content filePatch ↔
      ((∀ before hunk after, filePatch.hunks = before ++ hunk :: after →
          hunk.Fits (splitNormalizedLines content).1 before) →
        Renderable (edited (splitNormalizedLines content).1 0 filePatch.hunks)
          (splitNormalizedLines content).2) := by
  have hhunks := parseUnifiedDiff_spec hparse filePatch hfile
  have hsource : ∀ line ∈ (splitNormalizedLines content).1, IsLine line :=
    fun line => isLine_of_splitNormalizedLines
  have hsplit := splitNormalizedLines_renderLines (splitNormalizedLines content).2
    (isLine_of_mem_edited hsource hhunks 0)
  rw [← allFitAt_iff]
  constructor
  · intro h hfit
    exact hsplit.mp (h.lines _ ((applyFilePatch_eq_ok hhunks).mpr ⟨hfit, rfl⟩))
  · intro h
    have hlines : ∀ result, applyFilePatch content filePatch = .ok result →
        splitNormalizedLines result = (edited (splitNormalizedLines content).1 0 filePatch.hunks,
          (splitNormalizedLines content).2) := by
      intro result happly
      obtain ⟨hfit, rfl⟩ := (applyFilePatch_eq_ok hhunks).mp happly
      exact hsplit.mpr (h hfit)
    refine ⟨hlines, ?_, ?_, ?_⟩
    · intro result happly hunk hhunk
      obtain ⟨hfit, -⟩ := (applyFilePatch_eq_ok hhunks).mp happly
      obtain ⟨before, after, heq⟩ := List.append_of_mem hhunk
      exact (allFitAt_iff.mp hfit before hunk after heq).oldMatches
    · intro result happly hunk hhunk
      obtain ⟨hfit, -⟩ := (applyFilePatch_eq_ok hhunks).mp happly
      rw [hlines result happly]
      exact (newLines_prefix_edited hfit hunk hhunk).2
    · have hok := @applyFilePatch_eq_ok content filePatch hhunks
      constructor
      · intro hfails
        obtain ⟨error, herror⟩ := hfails
        by_contra hnone
        have hfit : AllFitAt (splitNormalizedLines content).1 0 0 filePatch.hunks := by
          rw [allFitAt_iff]
          intro before hunk after heq
          by_contra hnot
          exact hnone ⟨before, hunk, after, heq, hnot⟩
        rw [hok.mpr ⟨hfit, rfl⟩] at herror
        exact nomatch herror
      · intro hmisfit
        obtain ⟨before, hunk, after, heq, hnot⟩ := hmisfit
        cases happly : applyFilePatch content filePatch with
        | error error => exact ⟨error, rfl⟩
        | ok result =>
          exact absurd (allFitAt_iff.mp (hok.mp happly).1 before hunk after heq) hnot

/-! ## Section 6: A file that loses all its lines -/

namespace PatchLaw

/-- No digits outside ASCII. -/
scoped instance unicode : UnicodeData where
  decimal _ := none

/-- Paths relative to the root. -/
def resolvePath (value : Text) : Except PyError SandboxPath :=
  SandboxPath.resolve value (some .root) 4096 255

/-- `/workspace/f`. -/
def file : SandboxPath := ⟨py "/workspace/f", by decide⟩

/-- A patch that replaces the line of a file. -/
def replacement : Text := py "--- a/f\n+++ b/f\n@@ -1 +1 @@\n-a\n+b\n"

def replacementFile : FilePatch :=
  ⟨file, [⟨1, 1, 1, 1, [⟨CodePoint.ofChar '-', py "a"⟩, ⟨CodePoint.ofChar '+', py "b"⟩]⟩]⟩

/-- A patch that removes the line of a file. -/
def removal : Text := py "--- a/f\n+++ b/f\n@@ -1 +0,0 @@\n-a\n"

def removalFile : FilePatch :=
  ⟨file, [⟨1, 1, 0, 0, [⟨CodePoint.ofChar '-', py "a"⟩]⟩]⟩

theorem parse_patches :
    parseUnifiedDiff replacement resolvePath = .ok [replacementFile] ∧
      parseUnifiedDiff removal resolvePath = .ok [removalFile] := by
  decide +kernel

end PatchLaw

open PatchLaw in
theorem applyFilePatch_law_replacement :
    ApplicationLaw (py "a\n") replacementFile ↔
      ((∀ before hunk after, replacementFile.hunks = before ++ hunk :: after →
          hunk.Fits (splitNormalizedLines (py "a\n")).1 before) →
        Renderable (edited (splitNormalizedLines (py "a\n")).1 0 replacementFile.hunks)
          (splitNormalizedLines (py "a\n")).2) :=
  applyFilePatch_law parse_patches.1 List.mem_cons_self (py "a\n")

open PatchLaw in
/-- A file whose only line is removed is left with an empty line. -/
theorem applyFilePatch_removal :
    parseUnifiedDiff removal resolvePath = .ok [removalFile] ∧
      applyFilePatch (py "a\n") removalFile = .ok (py "\n") ∧
      splitNormalizedLines (py "\n") = ([[]], true) ∧
      edited (splitNormalizedLines (py "a\n")).1 0 removalFile.hunks = [] ∧
      ¬ ApplicationLaw (py "a\n") removalFile := by
  have happly : applyFilePatch (py "a\n") removalFile = .ok (py "\n") := by decide
  have hedited : edited (splitNormalizedLines (py "a\n")).1 0 removalFile.hunks = [] := by
    decide
  have hsplit : splitNormalizedLines (py "\n") = ([[]], true) := by decide
  refine ⟨parse_patches.2, happly, hsplit, hedited, ?_⟩
  intro h
  have hlines := h.lines _ happly
  rw [hsplit, hedited] at hlines
  exact absurd (congrArg Prod.fst hlines) (List.cons_ne_nil _ _)
