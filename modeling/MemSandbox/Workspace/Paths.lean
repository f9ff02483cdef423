import MemSandbox.Core.Errors

/-! # Workspace paths

    `workspace/paths.py`.  A `SandboxPath` carries its canonical text; the
    constructor accepts exactly the texts that `canonicalAbsolute` returns
    unchanged, which are the empty text and the renderings of a list of valid
    segments below `/workspace`.

    `resolve` normalizes an untrusted text.  Its results are described by
    their segments: `Fits` says that path and segments are within two limits,
    and `resolve_canonical` and `join_eq` reduce the two calls the workspace
    makes to it. -/

open Python

/-- `"/"`. -/
def slash : CodePoint := CodePoint.ofChar '/'

/-- `"."`. -/
def dot : CodePoint := CodePoint.ofChar '.'

/-- `"\\x00"`. -/
def nul : CodePoint := 0

/-! ## Section 1: Canonical texts -/

namespace SandboxPath

/-- `SandboxPath.ROOT`. -/
def ROOT : Text := py "/workspace"

/-- `SandboxPath._canonical_absolute`. -/
def canonicalAbsolute (value : Text) : Text :=
  if !startsWith value (py "/") then
    []
  else if value = ROOT then
    value
  else if !startsWith value (ROOT ++ py "/") then
    []
  else if contains (py "//") value || contains (py "/./") value || endsWith value (py "/.")
      || endsWith value (py "/") then
    []
  else if (split slash value).tail.any fun segment =>
      decide (segment = [] ∨ segment = py "." ∨ segment = py "..") then
    []
  else if contains [nul] value then
    []
  else
    value

/-- A name that a path may hold below the root. -/
structure ValidSegment (s : Text) : Prop where
  ne_nil : s ≠ []
  ne_dot : s ≠ py "."
  ne_dotdot : s ≠ py ".."
  no_slash : slash ∉ s
  no_nul : nul ∉ s

instance (s : Text) : Decidable (ValidSegment s) :=
  decidable_of_iff (s ≠ [] ∧ s ≠ py "." ∧ s ≠ py ".." ∧ slash ∉ s ∧ nul ∉ s)
    ⟨fun ⟨h₁, h₂, h₃, h₄, h₅⟩ => ⟨h₁, h₂, h₃, h₄, h₅⟩,
      fun ⟨h₁, h₂, h₃, h₄, h₅⟩ => ⟨h₁, h₂, h₃, h₄, h₅⟩⟩

/-- The canonical text of a list of segments. -/
def render (segments : List Text) : Text := ROOT ++ segments.flatMap fun s => slash :: s

@[simp] theorem render_nil : render [] = ROOT := by simp [render]

theorem render_append (p q : List Text) :
    render (p ++ q) = render p ++ q.flatMap fun s => slash :: s := by
  simp [render, List.append_assoc]

theorem render_concat (p : List Text) (s : Text) : render (p ++ [s]) = render p ++ slash :: s := by
  simp [render_append]

theorem render_ne_nil (p : List Text) : render p ≠ [] := by
  simp [render, ROOT, py]

/-- A rendering is its segments joined by slashes. -/
theorem render_eq_join (p : List Text) :
    render p = slash :: join [slash] (py "workspace" :: p) := by
  rw [join_cons]
  rfl

theorem split_render {p : List Text} (h : ∀ s ∈ p, ValidSegment s) :
    split slash (render p) = [] :: py "workspace" :: p := by
  rw [render_eq_join, split_cons_sep, split_join _ (List.cons_ne_nil _ _)]
  intro s hs
  rcases List.mem_cons.mp hs with rfl | hs
  · decide
  · exact (h s hs).no_slash

theorem render_injective {p q : List Text} (hp : ∀ s ∈ p, ValidSegment s)
    (hq : ∀ s ∈ q, ValidSegment s) (h : render p = render q) : p = q := by
  have := congrArg (split slash) h
  rw [split_render hp, split_render hq] at this
  simpa using this

/-- Every piece between two slashes is a piece of the split. -/
theorem mem_split_tail (pre : Text) {piece : Text} (post : Text) (h : slash ∉ piece) :
    piece ∈ (split slash (pre ++ slash :: (piece ++ slash :: post))).tail := by
  rw [split_append_cons, split_append_cons, split_of_not_mem h]
  cases hs : split slash pre with
  | nil => exact absurd hs (split_ne_nil slash pre)
  | cons head tail => simp

/-- The piece after the last slash is a piece of the split. -/
theorem mem_split_tail_last (pre : Text) {piece : Text} (h : slash ∉ piece) :
    piece ∈ (split slash (pre ++ slash :: piece)).tail := by
  rw [split_append_cons, split_of_not_mem h]
  cases hs : split slash pre with
  | nil => exact absurd hs (split_ne_nil slash pre)
  | cons head tail => simp

theorem canonicalAbsolute_render {p : List Text} (h : ∀ s ∈ p, ValidSegment s) :
    canonicalAbsolute (render p) = render p := by
  have htail : (split slash (render p)).tail = py "workspace" :: p := by
    rw [split_render h]
    rfl
  -- no piece is empty or a dot name, which excludes all the textual patterns
  have hpiece : ∀ s ∈ (split slash (render p)).tail, s ≠ [] ∧ s ≠ py "." ∧ s ≠ py ".." := by
    intro s hs
    rw [htail] at hs
    rcases List.mem_cons.mp hs with rfl | hs
    · decide
    · exact ⟨(h s hs).ne_nil, (h s hs).ne_dot, (h s hs).ne_dotdot⟩
  have hslashes : contains (py "//") (render p) = false := by
    rw [Bool.eq_false_iff, ne_eq, contains_iff]
    rintro ⟨pre, post, heq⟩
    refine (hpiece [] ?_).1 rfl
    rw [← heq]
    simpa [py, slash] using mem_split_tail pre post (List.not_mem_nil (a := slash))
  have hdot : contains (py "/./") (render p) = false := by
    rw [Bool.eq_false_iff, ne_eq, contains_iff]
    rintro ⟨pre, post, heq⟩
    refine (hpiece (py ".") ?_).2.1 rfl
    rw [← heq]
    simpa [py, slash] using
      mem_split_tail pre post (show slash ∉ py "." by decide)
  have hdotend : endsWith (render p) (py "/.") = false := by
    rw [Bool.eq_false_iff, ne_eq, endsWith_iff]
    rintro ⟨pre, heq⟩
    refine (hpiece (py ".") ?_).2.1 rfl
    rw [← heq]
    simpa [py, slash] using mem_split_tail_last pre (show slash ∉ py "." by decide)
  have hslashend : endsWith (render p) (py "/") = false := by
    rw [Bool.eq_false_iff, ne_eq, endsWith_iff]
    rintro ⟨pre, heq⟩
    refine (hpiece [] ?_).1 rfl
    rw [← heq]
    simpa [py, slash] using mem_split_tail_last pre (List.not_mem_nil (a := slash))
  have hany : ((split slash (render p)).tail.any fun segment =>
      decide (segment = [] ∨ segment = py "." ∨ segment = py "..")) = false := by
    rw [Bool.eq_false_iff, ne_eq, List.any_eq_true]
    rintro ⟨s, hs, hbad⟩
    have := hpiece s hs
    simp_all
  have hnul : contains [nul] (render p) = false := by
    rw [Bool.eq_false_iff, ne_eq, contains_singleton]
    intro hmem
    rw [render, List.mem_append, List.mem_flatMap] at hmem
    rcases hmem with hmem | ⟨s, hs, hmem⟩
    · revert hmem
      decide
    · rcases List.mem_cons.mp hmem with hmem | hmem
      · revert hmem
        decide
      · exact (h s hs).no_nul hmem
  have hstart : startsWith (render p) (py "/") = true :=
    startsWith_iff.mpr ⟨_, rfl⟩
  rw [canonicalAbsolute, hstart, hslashes, hdot, hdotend, hslashend, hany, hnul]
  by_cases hroot : render p = ROOT
  · simp [hroot]
  · have hbelow : startsWith (render p) (ROOT ++ py "/") = true := by
      cases p with
      | nil => simp at hroot
      | cons s p =>
        refine startsWith_iff.mpr ⟨s ++ p.flatMap fun s => slash :: s, ?_⟩
        simp [render, py, slash]
    simp [hroot, hbelow]

/-- The canonical texts: the empty one and the renderings. -/
theorem canonicalAbsolute_eq_self_iff {value : Text} :
    canonicalAbsolute value = value ↔
      value = [] ∨ ∃ p, (∀ s ∈ p, ValidSegment s) ∧ value = render p := by
  constructor
  · intro h
    by_cases hnil : value = []
    · exact .inl hnil
    refine .inr ?_
    unfold canonicalAbsolute at h
    split at h
    · exact absurd h.symm hnil
    split at h
    · next hroot => exact ⟨[], by simp, by simpa using hroot⟩
    split at h
    · exact absurd h.symm hnil
    next hbelow =>
    split at h
    · exact absurd h.symm hnil
    split at h
    · exact absurd h.symm hnil
    next hany =>
    split at h
    · exact absurd h.symm hnil
    next hnul =>
    rw [Bool.not_eq_true, Bool.not_eq_false', startsWith_iff] at hbelow
    obtain ⟨rest, rfl⟩ := hbelow
    have hvalue : ROOT ++ py "/" ++ rest = ROOT ++ slash :: rest := by simp [py, slash]
    rw [hvalue] at hany hnul ⊢
    have htail : (split slash (ROOT ++ slash :: rest)).tail =
        py "workspace" :: split slash rest := by
      rw [split_append_cons, show split slash ROOT = [[], py "workspace"] by decide]
      rfl
    rw [htail] at hany
    refine ⟨split slash rest, ?_, ?_⟩
    · intro s hs
      have hgood : ¬ (s = [] ∨ s = py "." ∨ s = py "..") := by
        intro hbad
        exact hany (List.any_eq_true.mpr ⟨s, List.mem_cons_of_mem _ hs, by simpa using hbad⟩)
      simp only [not_or] at hgood
      refine ⟨hgood.1, hgood.2.1, hgood.2.2, (mem_split hs).1, fun hmem => hnul ?_⟩
      rw [contains_singleton]
      exact List.mem_append_right _ (List.mem_cons_of_mem _ ((mem_split hs).2 hmem))
    · conv_lhs => rw [← join_split slash rest]
      cases hs : split slash rest with
      | nil => exact absurd hs (split_ne_nil slash rest)
      | cons head tail =>
        rw [join_cons]
        simp [render]
  · rintro (rfl | ⟨p, hp, rfl⟩)
    · rfl
    · exact canonicalAbsolute_render hp

end SandboxPath

/-! ## Section 2: The path value -/

/-- A normalized path below the workspace root. -/
structure SandboxPath where
  value : Text
  canonical : SandboxPath.canonicalAbsolute value = value
  deriving DecidableEq

namespace SandboxPath

/-- `SandboxPath(value)`. -/
def new (value : Text) : Except PyError SandboxPath :=
  if h : canonicalAbsolute value = value then
    .ok ⟨value, h⟩
  else
    raise .invalidPathError (py "SandboxPath value must already be canonical")

/-- The path with the given segments. -/
def ofSegments (p : List Text) (h : ∀ s ∈ p, ValidSegment s) : SandboxPath :=
  ⟨render p, canonicalAbsolute_render h⟩

/-- `SandboxPath.root`. -/
def root : SandboxPath := ⟨ROOT, by decide⟩

/-- `SandboxPath.is_root`. -/
def isRoot (path : SandboxPath) : Bool := path.value = ROOT

/-- `SandboxPath.parts`. -/
def parts (path : SandboxPath) : List Text :=
  if path.isRoot then [] else split slash (path.value.drop (ROOT.length + 1))

/-- `SandboxPath.name`. -/
def name (path : SandboxPath) : Text :=
  if path.isRoot then py "workspace" else path.parts.getLastD []

@[simp] theorem value_root : root.value = ROOT := rfl

@[simp] theorem isRoot_root : root.isRoot = true := by simp [isRoot]

@[simp] theorem parts_root : root.parts = [] := by simp [parts]

theorem ext_value {p q : SandboxPath} (h : p.value = q.value) : p = q := by
  cases p
  cases q
  simp_all

/-- A path whose text is a rendering has those segments. -/
theorem parts_of_value {path : SandboxPath} {p : List Text} (hp : ∀ s ∈ p, ValidSegment s)
    (h : path.value = render p) : path.parts = p := by
  unfold parts isRoot
  rw [h]
  cases p with
  | nil => simp
  | cons s p =>
    have hne : render (s :: p) ≠ ROOT := by simp [render]
    have hdrop : (render (s :: p)).drop (ROOT.length + 1) = s ++ p.flatMap fun s => slash :: s := by
      rw [← List.drop_drop]
      simp [render]
    rw [hdrop, show s ++ (p.flatMap fun s => slash :: s) = join [slash] (s :: p) by
      rw [join_cons]; rfl]
    simp only [hne, decide_false, Bool.false_eq_true, if_false]
    exact split_join (fun s hs => (hp s hs).no_slash) (List.cons_ne_nil _ _)

/-- Every path but the empty one is the rendering of its parts, which are valid. -/
theorem value_eq_render {path : SandboxPath} (h : path.value ≠ []) :
    path.value = render path.parts ∧ ∀ s ∈ path.parts, ValidSegment s := by
  rcases canonicalAbsolute_eq_self_iff.mp path.canonical with hnil | ⟨p, hp, hvalue⟩
  · exact absurd hnil h
  · rw [parts_of_value hp hvalue]
    exact ⟨hvalue, hp⟩

theorem parts_empty {path : SandboxPath} (h : path.value = []) : path.parts = [[]] := by
  unfold parts isRoot
  rw [h]
  decide

/-- The parts of the parent are those of the path without the last. -/
theorem validSegment_dropLast (path : SandboxPath) :
    ∀ s ∈ path.parts.dropLast, ValidSegment s := by
  intro s hs
  by_cases h : path.value = []
  · rw [parts_empty h] at hs
    simp at hs
  · exact (value_eq_render h).2 s (List.dropLast_subset _ hs)

theorem root_join_eq_render {p : List Text} (h : p ≠ []) :
    ROOT ++ py "/" ++ Python.join [slash] p = render p := by
  cases p with
  | nil => exact absurd rfl h
  | cons s p =>
    rw [join_cons]
    simp [render, py, slash]

/-- `SandboxPath.parent`; the constructor it calls accepts the text it is given. -/
def parent (path : SandboxPath) : SandboxPath :=
  if path.isRoot then
    path
  else if hparts : path.parts.dropLast = [] then
    root
  else
    ⟨ROOT ++ py "/" ++ Python.join [slash] path.parts.dropLast, by
      rw [root_join_eq_render hparts]
      exact canonicalAbsolute_render (validSegment_dropLast path)⟩

/-- `SandboxPath.is_ancestor_of`. -/
def isAncestorOf (path other : SandboxPath) : Bool :=
  startsWith other.value (path.value ++ py "/")

/-! ## Section 3: Resolution -/

/-- `_utf8_length`. -/
def utf8LengthOf (name value : Text) : Except PyError Nat :=
  match utf8Length value with
  | some n => .ok n
  | none => raise .invalidPathError (name ++ py " must be valid UTF-8 text")

/-- `_require_positive_limit`, for a limit that is an integer. -/
def requirePositiveLimit (name : Text) (value : Nat) : Except PyError Unit :=
  require (0 < value) .valueError (name ++ py " must be positive")

/-- The loop of `resolve` over the pieces of its argument. -/
def appendSegments : List Text → List Text → Except PyError (List Text)
  | [], parts => .ok parts
  | segment :: rest, parts =>
    if segment = [] ∨ segment = py "." then
      appendSegments rest parts
    else if segment = py ".." then
      raise .invalidPathError (py "parent traversal is not allowed")
    else if contains [nul] segment then
      raise .invalidPathError (py "path segment must not contain NUL")
    else
      appendSegments rest (parts ++ [segment])

/-- The loop of `resolve` over the segments' lengths. -/
def checkSegments (maxSegmentBytes : Nat) : List Text → Except PyError Unit
  | [] => .ok ()
  | segment :: rest => do
    let segmentBytes ← utf8LengthOf (py "path segment") segment
    require (segmentBytes ≤ maxSegmentBytes) .invalidPathError
      (py "path segment exceeds " ++ Text.ofNat maxSegmentBytes ++ py " UTF-8 bytes")
    checkSegments maxSegmentBytes rest

/-- The checks that `resolve` makes on the segments it has collected. -/
def ofParts (parts : List Text) (maxPathBytes maxSegmentBytes : Nat) :
    Except PyError SandboxPath := do
  require (parts.head? = some (py "workspace")) .pathOutsideWorkspaceError
    (py "path must be contained by " ++ ROOT)
  let normalized := py "/" ++ join [slash] parts
  require (normalized = ROOT ∨ startsWith normalized (ROOT ++ py "/")) .pathOutsideWorkspaceError
    (py "path must be contained by " ++ ROOT)
  checkSegments maxSegmentBytes parts
  let pathBytes ← utf8LengthOf (py "path") normalized
  require (pathBytes ≤ maxPathBytes) .invalidPathError
    (py "path exceeds " ++ Text.ofNat maxPathBytes ++ py " UTF-8 bytes")
  new normalized

/-- The segments that `resolve` starts from: none, or those of the working directory. -/
def startParts (value : Text) (cwd : Option SandboxPath) : Except PyError (List Text) :=
  if startsWith value (py "/") then
    .ok []
  else
    match cwd with
    | none => raise .invalidPathError (py "relative path requires an explicit working directory")
    | some cwd => .ok (py "workspace" :: cwd.parts)

/-- `SandboxPath.resolve`. -/
def resolve (value : Text) (cwd : Option SandboxPath) (maxPathBytes maxSegmentBytes : Nat) :
    Except PyError SandboxPath := do
  require (value ≠ []) .invalidPathError (py "path must not be empty")
  require (contains [nul] value = false) .invalidPathError (py "path must not contain NUL")
  requirePositiveLimit (py "max_path_bytes") maxPathBytes
  requirePositiveLimit (py "max_segment_bytes") maxSegmentBytes
  let start ← startParts value cwd
  let parts ← appendSegments (split slash value) start
  ofParts parts maxPathBytes maxSegmentBytes

/-- `path.join(segment)`. -/
def join (path : SandboxPath) (segment : Text) (maxPathBytes maxSegmentBytes : Nat) :
    Except PyError SandboxPath :=
  resolve segment (some path) maxPathBytes maxSegmentBytes

/-! ## Section 4: What resolution returns -/

/-- The path and each of its segments are within the limits. -/
structure Fits (maxPathBytes maxSegmentBytes : Nat) (p : List Text) : Prop where
  segments : ∀ s ∈ py "workspace" :: p, ∃ n, utf8Length s = some n ∧ n ≤ maxSegmentBytes
  path : ∃ n, utf8Length (render p) = some n ∧ n ≤ maxPathBytes

variable {maxPathBytes maxSegmentBytes : Nat}

theorem Fits.of_isPrefix {p q : List Text} (h : Fits maxPathBytes maxSegmentBytes q)
    (hpq : p <+: q) : Fits maxPathBytes maxSegmentBytes p := by
  refine ⟨fun s hs => h.segments s ?_, ?_⟩
  · rcases List.mem_cons.mp hs with rfl | hs
    · exact List.mem_cons_self
    · exact List.mem_cons_of_mem _ (hpq.subset hs)
  · obtain ⟨r, rfl⟩ := hpq
    obtain ⟨n, hn, hle⟩ := h.path
    rw [render_append, utf8Length, Option.map_eq_some_iff] at hn
    obtain ⟨b, hb, rfl⟩ := hn
    obtain ⟨bp, br, hp, -, rfl⟩ := encodeUtf8_append_eq_some.mp hb
    refine ⟨bp.length, by simp [utf8Length, hp], ?_⟩
    rw [List.length_append] at hle
    omega

@[simp] theorem new_eq_ok {value : Text} {q : SandboxPath} : new value = .ok q ↔ q.value = value := by
  unfold new
  split
  · constructor
    · rintro ⟨⟩
      rfl
    · intro h
      rw [Except.ok.injEq]
      exact ext_value h.symm
  · next h =>
    simp only [raise_ne_ok, false_iff]
    rintro rfl
    exact h q.canonical

@[simp] theorem utf8LengthOf_eq_ok {what value : Text} {n : Nat} :
    utf8LengthOf what value = .ok n ↔ utf8Length value = some n := by
  unfold utf8LengthOf
  cases utf8Length value <;> simp

theorem checkSegments_eq_ok {p : List Text} {u : Unit} :
    checkSegments maxSegmentBytes p = .ok u ↔
      ∀ s ∈ p, ∃ n, utf8Length s = some n ∧ n ≤ maxSegmentBytes := by
  induction p with
  | nil => simp [checkSegments]
  | cons s p ih =>
    simp only [checkSegments, Except.bind_eq_ok_iff, utf8LengthOf_eq_ok, require_eq_ok,
      List.forall_mem_cons]
    constructor
    · rintro ⟨n, hn, _, hle, hp⟩
      exact ⟨⟨n, hn, hle⟩, ih.mp hp⟩
    · rintro ⟨⟨n, hn, hle⟩, hp⟩
      exact ⟨n, hn, (), hle, ih.mpr hp⟩

theorem ofParts_eq_ok {p : List Text} {q : SandboxPath} :
    ofParts (py "workspace" :: p) maxPathBytes maxSegmentBytes = .ok q ↔
      Fits maxPathBytes maxSegmentBytes p ∧ q.value = render p := by
  have hrender : py "/" ++ Python.join [slash] (py "workspace" :: p) = render p := by
    rw [render_eq_join]
    rfl
  have hbelow : render p = ROOT ∨ startsWith (render p) (ROOT ++ py "/") := by
    cases p with
    | nil => exact .inl (by simp)
    | cons s p =>
      exact .inr (startsWith_iff.mpr ⟨s ++ p.flatMap fun s => slash :: s, by simp [render, py, slash]⟩)
  simp only [ofParts, Except.bind_eq_ok_iff, require_eq_ok, utf8LengthOf_eq_ok, new_eq_ok, hrender,
    checkSegments_eq_ok, hbelow, List.head?_cons, true_and, exists_const]
  constructor
  · rintro ⟨hsegments, n, hn, hle, hq⟩
    exact ⟨⟨hsegments, n, hn, hle⟩, hq⟩
  · rintro ⟨⟨hsegments, n, hn, hle⟩, hq⟩
    exact ⟨hsegments, n, hn, hle, hq⟩

theorem appendSegments_valid (start : List Text) {segments : List Text}
    (h : ∀ s ∈ segments, ValidSegment s) :
    appendSegments segments start = .ok (start ++ segments) := by
  induction segments generalizing start with
  | nil => simp [appendSegments]
  | cons s segments ih =>
    obtain ⟨hs, htail⟩ := List.forall_mem_cons.mp h
    have hnul : contains [nul] s = false := by
      rw [Bool.eq_false_iff, ne_eq, contains_singleton]
      exact hs.no_nul
    simp [appendSegments, hs.ne_nil, hs.ne_dot, hs.ne_dotdot, hnul, ih _ htail]

/-- What the loop collects: the start and valid segments of the text. -/
theorem appendSegments_eq_ok {segments start out : List Text}
    (h : appendSegments segments start = .ok out) :
    ∃ added, out = start ++ added ∧ added ⊆ segments := by
  induction segments generalizing start with
  | nil =>
    simp only [appendSegments, Except.ok.injEq] at h
    exact ⟨[], by simp [h]⟩
  | cons s segments ih =>
    unfold appendSegments at h
    split at h
    · obtain ⟨added, rfl, hsub⟩ := ih h
      exact ⟨added, rfl, List.subset_cons_of_subset _ hsub⟩
    · split at h
      · cases h
      · split at h
        · cases h
        · obtain ⟨added, rfl, hsub⟩ := ih h
          exact ⟨s :: added, by simp, List.cons_subset_cons _ hsub⟩

/-- A rendering resolves to itself when it fits, whatever the working directory. -/
theorem resolve_render {p : List Text} (hp : ∀ s ∈ p, ValidSegment s) (cwd : Option SandboxPath)
    (hpath : 0 < maxPathBytes) (hsegment : 0 < maxSegmentBytes) {q : SandboxPath} :
    resolve (render p) cwd maxPathBytes maxSegmentBytes = .ok q ↔
      Fits maxPathBytes maxSegmentBytes p ∧ q.value = render p := by
  have hnul : contains [nul] (render p) = false := by
    have := canonicalAbsolute_render hp
    unfold canonicalAbsolute at this
    by_contra hcontra
    simp only [Bool.not_eq_false] at hcontra
    rw [contains_singleton, render, List.mem_append, List.mem_flatMap] at hcontra
    rcases hcontra with hmem | ⟨s, hs, hmem⟩
    · revert hmem
      decide
    · rcases List.mem_cons.mp hmem with hmem | hmem
      · revert hmem
        decide
      · exact (hp s hs).no_nul hmem
  have hstart : startsWith (render p) (py "/") = true := startsWith_iff.mpr ⟨_, rfl⟩
  have hvalid : ∀ s ∈ py "workspace" :: p, ValidSegment s := by
    refine List.forall_mem_cons.mpr ⟨by decide, hp⟩
  have happend : appendSegments (split slash (render p)) [] = .ok (py "workspace" :: p) := by
    rw [split_render hp]
    simpa [appendSegments] using appendSegments_valid [] hvalid
  simp only [resolve, Except.bind_eq_ok_iff, require_eq_ok, requirePositiveLimit, startParts,
    hstart, if_true, ne_eq, render_ne_nil, not_false_eq_true, hnul, hpath, hsegment, true_and,
    exists_const, Except.ok.injEq, exists_eq_left', happend, ofParts_eq_ok]

/-- Joining a valid segment appends it, when the result fits. -/
theorem join_eq_ok {path : SandboxPath} {s : Text} (hs : ValidSegment s)
    (hpath : 0 < maxPathBytes) (hsegment : 0 < maxSegmentBytes) {q : SandboxPath} :
    path.join s maxPathBytes maxSegmentBytes = .ok q ↔
      Fits maxPathBytes maxSegmentBytes (path.parts ++ [s]) ∧
        q.value = render (path.parts ++ [s]) := by
  have hnul : contains [nul] s = false := by
    rw [Bool.eq_false_iff, ne_eq, contains_singleton]
    exact hs.no_nul
  have hstart : startsWith s (py "/") = false := by
    rw [Bool.eq_false_iff, ne_eq, startsWith_iff]
    rintro ⟨rest, rfl⟩
    exact hs.no_slash List.mem_cons_self
  have happend : appendSegments (split slash s) (py "workspace" :: path.parts) =
      .ok (py "workspace" :: (path.parts ++ [s])) := by
    rw [split_of_not_mem hs.no_slash]
    simpa using appendSegments_valid (py "workspace" :: path.parts)
      (List.forall_mem_singleton.mpr hs)
  simp only [join, resolve, Except.bind_eq_ok_iff, require_eq_ok, requirePositiveLimit, startParts,
    hstart, Bool.false_eq_true, if_false, ne_eq, hs.ne_nil, not_false_eq_true, hnul, hpath, hsegment,
    true_and, exists_const, Except.ok.injEq, exists_eq_left', happend, ofParts_eq_ok]

/-- Nothing joins to the empty path. -/
theorem join_value_ne_nil {path : SandboxPath} {s : Text} (hs : ValidSegment s)
    (hpath : 0 < maxPathBytes) (hsegment : 0 < maxSegmentBytes) {q : SandboxPath}
    (h : path.join s maxPathBytes maxSegmentBytes = .ok q) : path.value ≠ [] := by
  intro hnil
  obtain ⟨-, hq⟩ := (join_eq_ok hs hpath hsegment).mp h
  have hne : q.value ≠ [] := by
    rw [hq]
    exact render_ne_nil _
  obtain ⟨hqv, hvalid⟩ := value_eq_render hne
  have hsplit := split_render hvalid
  rw [← hqv, hq, parts_empty hnil, render_eq_join, split_cons_sep, split_join _ (by simp)] at hsplit
  · have hparts : [[], s] = q.parts := by simpa using hsplit
    exact (hvalid [] (hparts ▸ List.mem_cons_self)).ne_nil rfl
  · intro t ht
    simp only [List.cons_append, List.nil_append, List.mem_cons, List.not_mem_nil, or_false] at ht
    rcases ht with rfl | rfl | rfl
    · decide
    · simp
    · exact hs.no_slash

/-- The empty text never joins. -/
theorem join_nil_ne_ok {path q : SandboxPath} : path.join [] maxPathBytes maxSegmentBytes ≠ .ok q := by
  simp [join, resolve, Except.bind_eq_ok_iff]

/-- Whatever `resolve` returns is a proper path within the limits, and its
    parts are what the loop has collected. -/
theorem resolve_spec {value : Text} {cwd : Option SandboxPath} {q : SandboxPath}
    (h : resolve value cwd maxPathBytes maxSegmentBytes = .ok q) :
    q.value ≠ [] ∧ Fits maxPathBytes maxSegmentBytes q.parts ∧ ∃ start,
      startParts value cwd = .ok start ∧
        appendSegments (split slash value) start = .ok (py "workspace" :: q.parts) := by
  simp only [resolve, Except.bind_eq_ok_iff] at h
  obtain ⟨-, -, -, -, -, -, -, -, start, hstart, parts, hparts, hof⟩ := h
  obtain ⟨added, rfl, hadded⟩ := appendSegments_eq_ok hparts
  have hslash : ∀ s ∈ start ++ added, slash ∉ s := by
    intro s hs
    rcases List.mem_append.mp hs with hs | hs
    · unfold startParts at hstart
      split at hstart
      · rw [Except.ok.injEq] at hstart
        rw [← hstart] at hs
        exact absurd hs List.not_mem_nil
      · cases cwd with
        | none => simp at hstart
        | some cwd =>
          rw [Except.ok.injEq] at hstart
          rw [← hstart] at hs
          rcases List.mem_cons.mp hs with rfl | hs
          · decide
          · by_cases hnil : cwd.value = []
            · rw [parts_empty hnil] at hs
              simp_all
            · exact ((value_eq_render hnil).2 s hs).no_slash
    · exact (mem_split (hadded hs)).1
  cases hall : start ++ added with
  | nil =>
    rw [hall] at hof
    simp [ofParts, Except.bind_eq_ok_iff] at hof
  | cons first p =>
    rw [hall] at hof hslash hparts
    have hfirst : first = py "workspace" := by
      simp only [ofParts, Except.bind_eq_ok_iff, require_eq_ok] at hof
      obtain ⟨-, hhead, -⟩ := hof
      simpa using hhead
    subst hfirst
    obtain ⟨hfits, hvalue⟩ := ofParts_eq_ok.mp hof
    have hne : q.value ≠ [] := by rw [hvalue]; exact render_ne_nil p
    obtain ⟨hq, hvalid⟩ := value_eq_render hne
    -- the two ways to split the value agree
    have hp : p = q.parts := by
      have h₁ := split_render hvalid
      rw [← hq, hvalue, render_eq_join, split_cons_sep,
        split_join hslash (List.cons_ne_nil _ _)] at h₁
      simpa using h₁
    subst hp
    exact ⟨hne, hfits, start, hstart, hparts⟩

theorem resolve_fits {value : Text} {cwd : Option SandboxPath} {q : SandboxPath}
    (h : resolve value cwd maxPathBytes maxSegmentBytes = .ok q) :
    q.value ≠ [] ∧ Fits maxPathBytes maxSegmentBytes q.parts :=
  ⟨(resolve_spec h).1, (resolve_spec h).2.1⟩

/-! ## Section 5: Relations between paths -/

theorem ext_parts {p q : SandboxPath} (hp : p.value ≠ []) (hq : q.value ≠ [])
    (h : p.parts = q.parts) : p = q := by
  apply ext_value
  rw [(value_eq_render hp).1, (value_eq_render hq).1, h]

theorem isRoot_iff {path : SandboxPath} (h : path.value ≠ []) :
    path.isRoot = true ↔ path.parts = [] := by
  constructor
  · intro hroot
    simp [parts, hroot]
  · intro hparts
    have := (value_eq_render h).1
    rw [hparts, render_nil] at this
    simp [isRoot, this]

/-- A path that is not the root is its parent's parts and its name. -/
theorem parts_eq_concat {path : SandboxPath} (h : path.isRoot = false) :
    path.parts = path.parts.dropLast ++ [path.name] := by
  have hne : path.parts ≠ [] := by
    by_cases hvalue : path.value = []
    · simp [parts_empty hvalue]
    · exact fun hparts => by simp [(isRoot_iff hvalue).mpr hparts] at h
  rw [name, h, if_neg (by simp), List.getLastD_eq_getLast?, List.getLast?_eq_some_getLast hne,
    Option.getD_some]
  exact (List.dropLast_concat_getLast hne).symm

theorem parent_spec (path : SandboxPath) (h : path.isRoot = false) :
    path.parent.value ≠ [] ∧ path.parent.parts = path.parts.dropLast := by
  have hvalid := validSegment_dropLast path
  have hvalue : path.parent.value = render path.parts.dropLast := by
    unfold parent
    rw [if_neg (by simp [h])]
    split
    · next hnil => simp [hnil]
    · next hne => exact root_join_eq_render hne
  exact ⟨by rw [hvalue]; exact render_ne_nil _, parts_of_value hvalid hvalue⟩

/-- A path is an ancestor of another when its parts are a proper prefix. -/
theorem isAncestorOf_iff {p q : SandboxPath} (hp : p.value ≠ []) (hq : q.value ≠ []) :
    p.isAncestorOf q = true ↔ p.parts <+: q.parts ∧ p.parts ≠ q.parts := by
  obtain ⟨hpv, hpvalid⟩ := value_eq_render hp
  obtain ⟨hqv, hqvalid⟩ := value_eq_render hq
  rw [isAncestorOf, startsWith_iff, hpv, hqv]
  constructor
  · rintro ⟨rest, heq⟩
    have hsplit := congrArg (split slash) heq
    rw [show render p.parts ++ py "/" ++ rest = render p.parts ++ slash :: rest by simp [py, slash],
      split_append_cons, split_render hpvalid, split_render hqvalid] at hsplit
    have happend : p.parts ++ split slash rest = q.parts := by simpa using hsplit
    refine ⟨⟨_, happend⟩, fun hparts => split_ne_nil slash rest ?_⟩
    rw [hparts] at happend
    simpa using happend
  · rintro ⟨⟨r, hr⟩, hne⟩
    cases r with
    | nil => exact absurd (by simpa using hr) hne
    | cons s r =>
      refine ⟨s ++ r.flatMap fun s => slash :: s, ?_⟩
      rw [← hr, render_append]
      simp [py, slash]

end SandboxPath
