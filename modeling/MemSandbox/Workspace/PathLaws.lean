import MemSandbox.Workspace.Paths

/-! # Laws of path resolution

    What every caller of `SandboxPath.resolve` relies on, for all texts and
    limits: the result is canonical, confined and a fixed point, the constructor
    accepts the same texts, resolution goes segment by segment, and a joined
    segment is the name below its parent.

    The constructor compares its argument with `canonicalAbsolute`, which
    answers the empty text where its argument is not canonical; so the empty
    text passes, and it is the only text on which the laws fail (`laws_iff`). -/

open Python

namespace SandboxPath

variable {maxPathBytes maxSegmentBytes : Nat}

/-! ## Section 1: Segment by segment -/

/-- The loop may stop between two segments. -/
theorem appendSegments_append (first second start : List Text) :
    appendSegments (first ++ second) start =
      (appendSegments first start).bind (appendSegments second) := by
  induction first generalizing start with
  | nil => rfl
  | cons s first ih =>
    rw [List.cons_append]
    unfold appendSegments
    by_cases hskip : s = [] ∨ s = py "."
    · rw [if_pos hskip, if_pos hskip]
      exact ih start
    rw [if_neg hskip, if_neg hskip]
    by_cases hparent : s = py ".."
    · rw [if_pos hparent, if_pos hparent]
      rfl
    rw [if_neg hparent, if_neg hparent]
    by_cases hnul : contains [nul] s = true
    · rw [if_pos hnul, if_pos hnul]
      rfl
    · rw [if_neg hnul, if_neg hnul]
      exact ih (start ++ [s])

theorem startsWith_append {a : Text} (h : a ≠ []) (b : Text) :
    startsWith (a ++ slash :: b) (py "/") = startsWith a (py "/") := by
  cases a with
  | nil => exact absurd rfl h
  | cons c a =>
    show (slash == c && true) = (slash == c && true)
    rfl

/-- The empty text does not resolve. -/
theorem resolve_ne_nil {a : Text} {cwd : Option SandboxPath} {p : SandboxPath}
    (h : resolve a cwd maxPathBytes maxSegmentBytes = .ok p) : a ≠ [] := by
  simp only [resolve, Except.bind_eq_ok_iff, require_eq_ok] at h
  obtain ⟨-, hne, -⟩ := h
  exact hne

/-- Resolving below an accepted path goes on from what it resolved to. -/
theorem resolve_append {a b : Text} {cwd : Option SandboxPath} {p : SandboxPath}
    (ha : resolve a cwd maxPathBytes maxSegmentBytes = .ok p) (hb : b ≠ [])
    (hrelative : startsWith b (py "/") = false) :
    resolve (a ++ slash :: b) cwd maxPathBytes maxSegmentBytes =
      resolve b (some p) maxPathBytes maxSegmentBytes := by
  obtain ⟨-, -, start, hstart, hparts⟩ := resolve_spec ha
  simp only [resolve, Except.bind_eq_ok_iff, require_eq_ok, requirePositiveLimit] at ha
  obtain ⟨-, hne, -, hnul, -, hpath, -, hsegment, -⟩ := ha
  have hstart' : startParts (a ++ slash :: b) cwd = .ok start := by
    rw [← hstart]
    unfold startParts
    rw [startsWith_append hne]
  have hstartb : startParts b (some p) = .ok (py "workspace" :: p.parts) := by
    rw [startParts, hrelative]
    rfl
  have hnulb : contains [nul] (a ++ slash :: b) = contains [nul] b := by
    rw [Bool.eq_false_iff, ne_eq, contains_singleton] at hnul
    rw [Bool.eq_iff_iff, contains_singleton, contains_singleton, List.mem_append, List.mem_cons]
    constructor
    · rintro (hmem | hmem | hmem)
      · exact absurd hmem hnul
      · exact absurd hmem (by decide)
      · exact hmem
    · exact fun hmem => .inr (.inr hmem)
  have happend : appendSegments (split slash (a ++ slash :: b)) start =
      appendSegments (split slash b) (py "workspace" :: p.parts) := by
    rw [split_append_cons, appendSegments_append, hparts]
    rfl
  have hleft : a ++ slash :: b ≠ [] := List.append_ne_nil_of_left_ne_nil hne _
  unfold resolve requirePositiveLimit require
  rw [hnulb, if_pos hleft, if_pos hb, if_pos hpath, if_pos hsegment]
  by_cases hnul' : contains [nul] b = false
  · rw [if_pos hnul']
    show (startParts (a ++ slash :: b) cwd).bind _ = (startParts b (some p)).bind _
    rw [hstart', hstartb]
    show (appendSegments (split slash (a ++ slash :: b)) start).bind _ =
      (appendSegments (split slash b) (py "workspace" :: p.parts)).bind _
    rw [happend]
  · rw [if_neg hnul']
    rfl

/-- A slash at the end changes nothing. -/
theorem resolve_trailing {a : Text} (ha : a ≠ []) (cwd : Option SandboxPath) :
    resolve (a ++ [slash]) cwd maxPathBytes maxSegmentBytes =
      resolve a cwd maxPathBytes maxSegmentBytes := by
  have hstart : startParts (a ++ [slash]) cwd = startParts a cwd := by
    unfold startParts
    rw [startsWith_append ha []]
  have hnul : contains [nul] (a ++ [slash]) = contains [nul] a := by
    rw [Bool.eq_iff_iff, contains_singleton, contains_singleton, List.mem_append,
      List.mem_singleton]
    exact or_iff_left (by decide)
  have happend : ∀ start, appendSegments (split slash (a ++ [slash])) start =
      appendSegments (split slash a) start := by
    intro start
    rw [split_append_cons, appendSegments_append]
    cases appendSegments (split slash a) start with
    | error e => rfl
    | ok parts => simp [Except.bind, split, appendSegments]
  have hne : a ++ [slash] ≠ [] := List.append_ne_nil_of_left_ne_nil ha _
  unfold resolve
  rw [hnul, hstart]
  simp only [happend, require, if_pos hne, if_pos ha]

/-! ## Section 2: Canonical results -/

/-- A text within the limits of `resolve`, as a whole and piece by piece. -/
structure Within (maxPathBytes maxSegmentBytes : Nat) (value : Text) : Prop where
  path : ∃ n, utf8Length value = some n ∧ n ≤ maxPathBytes
  segments : ∀ s ∈ split slash value, ∃ n, utf8Length s = some n ∧ n ≤ maxSegmentBytes

theorem Fits.limits_pos {p : List Text} (h : Fits maxPathBytes maxSegmentBytes p) :
    0 < maxPathBytes ∧ 0 < maxSegmentBytes := by
  have hroot := (h.of_isPrefix (List.nil_prefix)).path
  rw [render_nil] at hroot
  obtain ⟨n, hn, hle⟩ := hroot
  obtain ⟨m, hm, hle'⟩ := h.segments (py "workspace") List.mem_cons_self
  have hroot : utf8Length ROOT = some 10 := by decide
  have hworkspace : utf8Length (py "workspace") = some 9 := by decide
  rw [hroot] at hn
  rw [hworkspace] at hm
  cases hn
  cases hm
  omega

theorem Within.fits {p : List Text} (hp : ∀ s ∈ p, ValidSegment s)
    (h : Within maxPathBytes maxSegmentBytes (render p)) : Fits maxPathBytes maxSegmentBytes p := by
  refine ⟨fun s hs => h.segments s ?_, h.path⟩
  rw [split_render hp]
  exact List.mem_cons_of_mem _ hs

/-- A fixed point of `resolve`, whatever the working directory. -/
theorem resolve_self {value : Text} {cwd : Option SandboxPath} {q : SandboxPath}
    (h : resolve value cwd maxPathBytes maxSegmentBytes = .ok q) (other : Option SandboxPath) :
    resolve q.value other maxPathBytes maxSegmentBytes = .ok q := by
  obtain ⟨hne, hfits, -⟩ := resolve_spec h
  obtain ⟨hvalue, hvalid⟩ := value_eq_render hne
  obtain ⟨hpath, hsegment⟩ := hfits.limits_pos
  have hself := (resolve_render hvalid other hpath hsegment).mpr ⟨hfits, hvalue⟩
  rwa [← hvalue] at hself

/-- Segments joined by slashes begin with no slash. -/
theorem startsWith_join {segments : List Text} (hne : segments ≠ [])
    (hvalid : ∀ s ∈ segments, ValidSegment s) :
    Python.join (py "/") segments ≠ [] ∧
      startsWith (Python.join (py "/") segments) (py "/") = false := by
  cases segments with
  | nil => exact absurd rfl hne
  | cons s segments =>
    have hs := hvalid s List.mem_cons_self
    rw [join_cons]
    refine ⟨List.append_ne_nil_of_left_ne_nil hs.ne_nil _, ?_⟩
    rw [Bool.eq_false_iff, ne_eq, startsWith_iff]
    rintro ⟨rest, heq⟩
    cases s with
    | nil => exact hs.ne_nil rfl
    | cons c s =>
      obtain rfl : slash = c := (List.cons.inj heq).1
      exact hs.no_slash List.mem_cons_self

/-- A path below an accepted one, spelled from there. -/
theorem resolve_below {a : Text} {cwd : Option SandboxPath} {p q : SandboxPath}
    {segments : List Text} (ha : resolve a cwd maxPathBytes maxSegmentBytes = .ok p)
    (hne : segments ≠ []) (hq : q.value ≠ []) (hparts : q.parts = p.parts ++ segments)
    (hfits : Fits maxPathBytes maxSegmentBytes q.parts) :
    resolve (a ++ slash :: Python.join (py "/") segments) cwd maxPathBytes maxSegmentBytes = .ok q := by
  obtain ⟨hp, hpfits, -⟩ := resolve_spec ha
  obtain ⟨hpath, hsegment⟩ := hfits.limits_pos
  obtain ⟨hvalue, hvalid⟩ := value_eq_render hq
  have hsegments : ∀ s ∈ segments, ValidSegment s := fun s hs =>
    hvalid s (hparts ▸ List.mem_append_right _ hs)
  obtain ⟨hjoin, hrelative⟩ := startsWith_join hne hsegments
  -- the same path, spelled from the root
  have hrender : p.value ++ slash :: Python.join (py "/") segments = q.value := by
    rw [hvalue, hparts, render_append, (value_eq_render hp).1]
    congr 1
    cases segments with
    | nil => exact absurd rfl hne
    | cons s segments =>
      rw [join_cons]
      rfl
  rw [resolve_append ha hjoin hrelative, ← resolve_append (resolve_self ha none) hjoin hrelative,
    hrender, hvalue]
  exact (resolve_render hvalid none hpath hsegment).mpr ⟨hfits, hvalue⟩

theorem eq_root_or_below {q : SandboxPath} (h : q.value ≠ []) :
    q = root ∨ root.isAncestorOf q = true := by
  by_cases hparts : q.parts = []
  · left
    refine ext_parts h (by decide) ?_
    rw [hparts, parts_root]
  · right
    rw [isAncestorOf_iff (by decide) h, parts_root]
    exact ⟨List.nil_prefix, fun hnil => hparts hnil.symm⟩

/-- The constructor accepts a text that is not empty when `resolve` leaves it as it is. -/
theorem new_iff_resolve {value : Text} (hne : value ≠ [])
    (h : Within maxPathBytes maxSegmentBytes value) (cwd : Option SandboxPath) :
    (∃ q, new value = .ok q) ↔
      ∃ q, resolve value cwd maxPathBytes maxSegmentBytes = .ok q ∧ q.value = value := by
  constructor
  · rintro ⟨q, hq⟩
    rw [new_eq_ok] at hq
    subst hq
    obtain ⟨hvalue, hvalid⟩ := value_eq_render hne
    rw [hvalue] at h ⊢
    have hfits := h.fits hvalid
    obtain ⟨hpath, hsegment⟩ := hfits.limits_pos
    exact ⟨q, (resolve_render hvalid cwd hpath hsegment).mpr ⟨hfits, hvalue⟩, hvalue⟩
  · rintro ⟨q, -, hq⟩
    exact ⟨q, new_eq_ok.mpr hq⟩

/-! ## Section 3: Joined segments -/

/-- A valid segment joins where the result fits. -/
theorem join_of_fits {p : SandboxPath} {s : Text} (hs : ValidSegment s) (hp : p.value ≠ [])
    (h : Fits maxPathBytes maxSegmentBytes (p.parts ++ [s])) :
    ∃ q, p.join s maxPathBytes maxSegmentBytes = .ok q := by
  obtain ⟨hpath, hsegment⟩ := h.limits_pos
  have hvalid : ∀ t ∈ p.parts ++ [s], ValidSegment t := by
    intro t ht
    rcases List.mem_append.mp ht with ht | ht
    · exact (value_eq_render hp).2 t ht
    · rw [List.mem_singleton.mp ht]
      exact hs
  exact ⟨ofSegments _ hvalid, (join_eq_ok hs hpath hsegment).mpr ⟨h, rfl⟩⟩

theorem join_parent_name {p q : SandboxPath} {s : Text} (hs : ValidSegment s) (hp : p.value ≠ [])
    (h : p.join s maxPathBytes maxSegmentBytes = .ok q) : q.parent = p ∧ q.name = s := by
  obtain ⟨hne, hfits, -⟩ := resolve_spec h
  obtain ⟨hpath, hsegment⟩ := hfits.limits_pos
  obtain ⟨-, hvalue⟩ := (join_eq_ok hs hpath hsegment).mp h
  have hvalid : ∀ t ∈ p.parts ++ [s], ValidSegment t := by
    intro t ht
    rcases List.mem_append.mp ht with ht | ht
    · exact (value_eq_render hp).2 t ht
    · rw [List.mem_singleton.mp ht]
      exact hs
  have hparts : q.parts = p.parts ++ [s] := parts_of_value hvalid hvalue
  have hroot : q.isRoot = false := by
    rw [Bool.eq_false_iff, ne_eq, isRoot_iff hne, hparts]
    exact List.append_ne_nil_of_right_ne_nil _ (List.cons_ne_nil _ _)
  obtain ⟨hparent, hparentParts⟩ := parent_spec q hroot
  constructor
  · refine ext_parts hparent hp ?_
    rw [hparentParts, hparts, List.dropLast_concat]
  · have hconcat := parts_eq_concat hroot
    rw [hparts, List.dropLast_concat] at hconcat
    simpa using hconcat.symm

/-! ## Section 4: The laws -/

/-- The laws of resolution at one text and two limits. -/
structure Laws (maxPathBytes maxSegmentBytes : Nat) (value : Text) : Prop where
  canonical : ∀ cwd q, resolve value cwd maxPathBytes maxSegmentBytes = .ok q →
    new q.value = .ok q ∧ (q = root ∨ root.isAncestorOf q = true) ∧
      ∀ other, resolve q.value other maxPathBytes maxSegmentBytes = .ok q
  accepted : Within maxPathBytes maxSegmentBytes value → ∀ cwd, (∃ q, new value = .ok q) ↔
    ∃ q, resolve value cwd maxPathBytes maxSegmentBytes = .ok q ∧ q.value = value
  appended : ∀ cwd p b, resolve value cwd maxPathBytes maxSegmentBytes = .ok p → b ≠ [] →
    startsWith b (py "/") = false → ∀ q,
      resolve (value ++ py "/" ++ b) cwd maxPathBytes maxSegmentBytes = .ok q ↔
        resolve b (some p) maxPathBytes maxSegmentBytes = .ok q
  joined : ∀ cwd p, resolve value cwd maxPathBytes maxSegmentBytes = .ok p →
    ∀ s, ValidSegment s → ∀ maxJoinedBytes maxNameBytes,
      (Fits maxJoinedBytes maxNameBytes (p.parts ++ [s]) →
        ∃ q, p.join s maxJoinedBytes maxNameBytes = .ok q) ∧
      ∀ q, p.join s maxJoinedBytes maxNameBytes = .ok q → q.parent = p ∧ q.name = s

/-- The constructor takes the empty text, which resolves to nothing. -/
theorem not_laws_nil (maxPathBytes maxSegmentBytes : Nat) :
    ¬ Laws maxPathBytes maxSegmentBytes [] := by
  intro h
  have hwithin : Within maxPathBytes maxSegmentBytes [] :=
    ⟨⟨0, rfl, Nat.zero_le _⟩, by simp [split, utf8Length]⟩
  obtain ⟨q, hq, -⟩ := (h.accepted hwithin none).mp ⟨⟨[], rfl⟩, rfl⟩
  cases hq

/-- The laws hold of every text but the empty one. -/
theorem laws_iff (maxPathBytes maxSegmentBytes : Nat) (value : Text) :
    Laws maxPathBytes maxSegmentBytes value ↔ value ≠ [] := by
  constructor
  · rintro h rfl
    exact not_laws_nil _ _ h
  · intro hne
    refine ⟨fun cwd q hq => ?_, fun hwithin cwd => new_iff_resolve hne hwithin cwd,
      fun cwd p b hp hb hrelative q => ?_, fun cwd p hp s hs maxJoinedBytes maxNameBytes => ?_⟩
    · obtain ⟨hvalue, -⟩ := resolve_spec hq
      exact ⟨new_eq_ok.mpr rfl, eq_root_or_below hvalue, resolve_self hq⟩
    · rw [List.append_assoc]
      show resolve (value ++ slash :: b) cwd maxPathBytes maxSegmentBytes = .ok q ↔ _
      rw [resolve_append hp hb hrelative]
    · obtain ⟨hvalue, -⟩ := resolve_spec hp
      exact ⟨join_of_fits hs hvalue, fun q hq => join_parent_name hs hvalue hq⟩

/-- `SandboxPath("")` is a value; `SandboxPath.resolve("")` raises. -/
theorem laws_empty_text : ¬ Laws 4096 255 (py "") := not_laws_nil 4096 255

end SandboxPath
