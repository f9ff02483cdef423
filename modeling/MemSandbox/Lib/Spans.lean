import MemSandbox.Lib.Sorted
import Mathlib.Data.Prod.Lex

/-! # Overlapping spans

    A span is the half-open interval of positions from its start to its end.
    Given a collection of spans, a *union* of the collection is what one span
    and all those linked to it by overlaps cover together.

    `merge` computes the unions of a finite collection by a sweep over the
    spans in the order of their starts (`mem_merge`).  Between the two stands
    `Block`, which describes a union without mentioning chains of overlaps: no
    span crosses its ends, and some span straddles every position inside. -/

abbrev Span : Type := Nat × Nat

namespace Spans

/-! ## Section 1: Unions -/

/-- The span covers the position. -/
def Covers (s : Span) (i : Nat) : Prop := s.1 ≤ i ∧ i < s.2

/-- Both spans cover some position, if neither is empty. -/
def Overlap (s t : Span) : Prop := s.1 < t.2 ∧ t.1 < s.2

/-- The spans that a chain of overlaps links to `s`. -/
def Linked (P : Span → Prop) : Span → Span → Prop :=
  Relation.ReflTransGen fun s t => P t ∧ Overlap s t

/-- The span covers what one span of the collection and all linked to it cover. -/
def Union (P : Span → Prop) (u : Span) : Prop :=
  ∃ s, P s ∧ ∀ i, Covers u i ↔ ∃ t, Linked P s t ∧ Covers t i

/-- A non-empty span that no span of the collection crosses the ends of, where
    one begins at its start and one straddles every position inside. -/
structure Block (P : Span → Prop) (u : Span) : Prop where
  lt : u.1 < u.2
  start : ∃ s, P s ∧ s.1 = u.1
  apart : ∀ s, P s → s.2 ≤ u.1 ∨ (u.1 ≤ s.1 ∧ s.2 ≤ u.2) ∨ u.2 ≤ s.1
  straddled : ∀ p, u.1 < p → p < u.2 → ∃ s, P s ∧ s.1 < p ∧ p < s.2

variable {P : Span → Prop} {u v : Span}

theorem overlap_of_covers {s t : Span} {i : Nat} (hs : Covers s i) (ht : Covers t i) :
    Overlap s t := ⟨hs.1.trans_lt ht.2, ht.1.trans_lt hs.2⟩

theorem Linked.mem {s t : Span} (hs : P s) (h : Linked P s t) : P t := by
  cases h with
  | refl => exact hs
  | tail _ h => exact h.1

/-- What is linked to a span inside a block is inside the block. -/
theorem Block.linked (h : Block P u) {s t : Span}
    (hs : u.1 ≤ s.1 ∧ s.2 ≤ u.2) (hlinked : Linked P s t) : u.1 ≤ t.1 ∧ t.2 ≤ u.2 := by
  induction hlinked with
  | refl => exact hs
  | tail _ hnext ih =>
    obtain ⟨hmem, hover⟩ := hnext
    unfold Overlap at hover
    rcases h.apart _ hmem with hbefore | hinside | hafter
    · omega
    · exact hinside
    · omega

/-- From the start of a block, the chains of overlaps reach all of its positions. -/
theorem Block.reach (h : Block P u) {s : Span} (hs : P s) (hstart : s.1 = u.1)
    (hP : ∀ s, P s → s.1 < s.2) {i : Nat} (hi : Covers u i) {t : Span} (ht : Linked P s t)
    (hle : t.1 ≤ i) : ∃ t', Linked P s t' ∧ Covers t' i := by
  -- by induction on how far the reached span ends before the block does
  induction hn : u.2 - t.2 using Nat.strong_induction_on generalizing t with
  | _ n ih =>
    by_cases hlt : i < t.2
    · exact ⟨t, ht, hle, hlt⟩
    · have hinside := h.linked ⟨hstart.ge, by
        rcases h.apart s hs with hs' | hs' | hs'
        · have := hP s hs
          omega
        · exact hs'.2
        · have := h.lt
          omega⟩ ht
      have hnonempty := hP t (ht.mem hs)
      have hend : t.2 < u.2 := by
        have := hi.2
        omega
      obtain ⟨next, hnext, hbefore, hafter⟩ := h.straddled t.2 (by omega) hend
      have hover : Overlap t next := by
        unfold Overlap
        omega
      exact ih (u.2 - next.2) (by omega) (ht.tail ⟨hnext, hover⟩) (by omega) rfl

theorem Block.union (hP : ∀ s, P s → s.1 < s.2) (h : Block P u) : Union P u := by
  obtain ⟨s, hs, hstart⟩ := h.start
  have hinside : u.1 ≤ s.1 ∧ s.2 ≤ u.2 := by
    have := hP s hs
    have := h.lt
    rcases h.apart s hs with hs' | hs' | hs' <;> omega
  refine ⟨s, hs, ?_⟩
  intro i
  constructor
  · intro hi
    exact h.reach hs hstart hP hi .refl (hstart.le.trans hi.1)
  · rintro ⟨t, ht, hcovers⟩
    have := h.linked hinside ht
    unfold Covers at hcovers ⊢
    omega

/-- A chain of overlaps does not pass a position that no span straddles. -/
theorem linked_side {s t : Span} {p : Nat} (hP : ∀ s, P s → s.1 < s.2)
    (hcut : ∀ s, P s → ¬ (s.1 < p ∧ p < s.2)) (hs : P s) (h : Linked P s t) :
    s.2 ≤ p ↔ t.2 ≤ p := by
  induction h with
  | refl => exact Iff.rfl
  | tail hlinked hnext ih =>
    rename_i b c
    obtain ⟨hc, hover⟩ := hnext
    unfold Overlap at hover
    have hb := Linked.mem hs hlinked
    have h1 := hcut b hb
    have h2 := hcut c hc
    have h3 := hP b hb
    have h4 := hP c hc
    rw [ih]
    omega

theorem Union.block (hP : ∀ s, P s → s.1 < s.2) (hlt : u.1 < u.2) (h : Union P u) : Block P u := by
  obtain ⟨s, hs, hcovers⟩ := h
  have hinside : ∀ t, Linked P s t → u.1 ≤ t.1 ∧ t.2 ≤ u.2 := by
    intro t ht
    have hnonempty := hP t (ht.mem hs)
    have hfirst := (hcovers t.1).mpr ⟨t, ht, le_rfl, hnonempty⟩
    have hlast := (hcovers (t.2 - 1)).mpr ⟨t, ht, by omega, by omega⟩
    unfold Covers at hfirst hlast
    omega
  refine ⟨hlt, ?_, ?_, ?_⟩
  · obtain ⟨t, ht, hcov⟩ := (hcovers u.1).mp ⟨le_rfl, hlt⟩
    exact ⟨t, ht.mem hs, le_antisymm hcov.1 (hinside t ht).1⟩
  · intro t ht
    by_cases hmeets : ∃ i, Covers u i ∧ Covers t i
    · obtain ⟨i, hui, hti⟩ := hmeets
      obtain ⟨t', ht', hcov⟩ := (hcovers i).mp hui
      exact .inr (.inl (hinside t (ht'.tail ⟨ht, overlap_of_covers hcov hti⟩)))
    · -- the spans share no position, not even the greater of their starts
      have hnonempty := hP t ht
      have hmax : ¬ (Covers u (max u.1 t.1) ∧ Covers t (max u.1 t.1)) := fun h => hmeets ⟨_, h⟩
      unfold Covers at hmax
      omega
  · intro p hup hpu
    by_contra hnot
    have hcut : ∀ t, P t → ¬ (t.1 < p ∧ p < t.2) := fun t ht h => hnot ⟨t, ht, h⟩
    obtain ⟨t, ht, htcov⟩ := (hcovers (p - 1)).mp ⟨by omega, by omega⟩
    obtain ⟨t', ht', htcov'⟩ := (hcovers p).mp ⟨hup.le, hpu⟩
    have hside := (linked_side hP hcut hs ht).symm.trans (linked_side hP hcut hs ht')
    have h1 := hcut t (ht.mem hs)
    unfold Covers at htcov htcov'
    omega

/-- A union of non-empty spans is not empty. -/
theorem Union.lt (hP : ∀ s, P s → s.1 < s.2) (h : Union P u) : u.1 < u.2 := by
  obtain ⟨s, hs, hcovers⟩ := h
  have hstart := (hcovers s.1).mpr ⟨s, .refl, le_rfl, hP s hs⟩
  exact hstart.1.trans_lt hstart.2

theorem block_iff_union (hP : ∀ s, P s → s.1 < s.2) : Block P u ↔ Union P u :=
  ⟨fun h => h.union hP, fun h => h.block hP (h.lt hP)⟩

/-- Two blocks that share a position are the same. -/
theorem Block.eq_of_overlap (hu : Block P u) (hv : Block P v)
    (h : Overlap u v) : u = v := by
  have half : ∀ {u v : Span}, Block P u → Block P v → Overlap u v → v.1 ≤ u.1 ∧ u.2 ≤ v.2 := by
    intro u v hu hv h
    unfold Overlap at h
    have hlt := hv.lt
    constructor
    · -- else the start of `v` is inside `u`, where a span straddles it
      by_contra hout
      obtain ⟨s, hs, hbefore, hafter⟩ := hu.straddled v.1 (by omega) (by omega)
      have := hv.apart s hs
      omega
    · by_contra hout
      obtain ⟨s, hs, hbefore, hafter⟩ := hu.straddled v.2 (by omega) (by omega)
      have := hv.apart s hs
      omega
  have h1 := half hu hv h
  have h2 := half hv hu ⟨h.2, h.1⟩
  exact Prod.ext (by omega) (by omega)

/-! ## Section 2: The sweep -/

/-- The sweep, with the union it is at. -/
def sweep (current : Span) : List Span → List Span
  | [] => [current]
  | s :: rest =>
    if current.2 ≤ s.1 then current :: sweep s rest
    else sweep (current.1, max current.2 s.2) rest

/-- The spans in the order of their starts, the longer one first. -/
def ordered (spans : List Span) : List Span :=
  Python.sorted (fun s : Span => toLex ((s.1 : Int), -(s.2 : Int))) spans

/-- The unions of the spans. -/
def merge (spans : List Span) : List Span :=
  match ordered spans with
  | [] => []
  | s :: rest => sweep s rest

/-- Each span ends before the next one starts. -/
def Separate (spans : List Span) : Prop := spans.Pairwise fun s t => s.2 ≤ t.1

/-- What the sweep knows: every span is behind it, in the current union, or ahead. -/
structure Sweeping (P : Span → Prop) (current : Span) (ahead : List Span) : Prop where
  lt : current.1 < current.2
  start : ∃ s, P s ∧ s.1 = current.1
  straddled : ∀ p, current.1 < p → p < current.2 → ∃ s, P s ∧ s.1 < p ∧ p < s.2
  placed : ∀ s, P s → s.2 ≤ current.1 ∨ (current.1 ≤ s.1 ∧ s.2 ≤ current.2) ∨ s ∈ ahead
  pending : ∀ s ∈ ahead, P s ∧ current.1 ≤ s.1
  sorted : ahead.Pairwise fun s t => s.1 ≤ t.1

/-- The current union is complete when the next span starts behind its end. -/
theorem Sweeping.block {current : Span} {ahead : List Span} (h : Sweeping P current ahead)
    (hafter : ∀ s ∈ ahead, current.2 ≤ s.1) : Block P current where
  lt := h.lt
  start := h.start
  straddled := h.straddled
  apart s hs := (h.placed s hs).imp_right (Or.imp_right (hafter s))

/-- A block that begins before the spans ahead is the current union. -/
theorem Sweeping.eq_current {current : Span} {ahead : List Span} (hP : ∀ s, P s → s.1 < s.2)
    (h : Sweeping P current ahead) (hblock : Block P current) (hu : Block P u)
    (hle : current.1 ≤ u.1) (hbefore : ∀ s ∈ ahead, u.1 < s.1) : u = current := by
  obtain ⟨s, hs, hstart⟩ := hu.start
  have hnonempty := hP s hs
  have hlt := hu.lt
  rcases h.placed s hs with hbehind | hinside | hahead
  · omega
  · exact hu.eq_of_overlap hblock ⟨by omega, by omega⟩
  · have := hbefore s hahead
    omega

/-- The next span opens a new union. -/
theorem Sweeping.open {current s : Span} {rest : List Span} (hP : ∀ s, P s → s.1 < s.2)
    (h : Sweeping P current (s :: rest)) (hle : current.2 ≤ s.1) : Sweeping P s rest := by
  have hs := (h.pending s List.mem_cons_self).1
  have hsorted := List.pairwise_cons.mp h.sorted
  refine ⟨hP s hs, ⟨s, hs, rfl⟩, fun p hp hp' => ⟨s, hs, hp, hp'⟩, ?_, ?_, hsorted.2⟩
  · intro t ht
    rcases h.placed t ht with hbehind | hinside | hahead
    · have := h.lt
      omega
    · omega
    · rcases List.mem_cons.mp hahead with rfl | hahead
      · exact .inr (.inl ⟨le_rfl, le_rfl⟩)
      · exact .inr (.inr hahead)
  · intro t ht
    exact ⟨(h.pending t (List.mem_cons_of_mem _ ht)).1, hsorted.1 t ht⟩

/-- The next span overlaps the current union and extends it. -/
theorem Sweeping.extend {current s : Span} {rest : List Span}
    (h : Sweeping P current (s :: rest)) (hlt : ¬ current.2 ≤ s.1) :
    Sweeping P (current.1, max current.2 s.2) rest := by
  obtain ⟨hs, hafter⟩ := h.pending s List.mem_cons_self
  have hcurrent := h.lt
  refine ⟨?_, h.start, ?_, ?_, ?_, (List.pairwise_cons.mp h.sorted).2⟩
  · show current.1 < max current.2 s.2
    omega
  · show ∀ p, current.1 < p → p < max current.2 s.2 → _
    intro p hp hp'
    by_cases hin : p < current.2
    · exact h.straddled p hp hin
    · exact ⟨s, hs, by omega, by omega⟩
  · show ∀ t, P t → t.2 ≤ current.1 ∨ (current.1 ≤ t.1 ∧ t.2 ≤ max current.2 s.2) ∨ t ∈ rest
    intro t ht
    rcases h.placed t ht with hbehind | hinside | hahead
    · exact .inl hbehind
    · exact .inr (.inl ⟨hinside.1, hinside.2.trans (le_max_left _ _)⟩)
    · rcases List.mem_cons.mp hahead with rfl | hahead
      · exact .inr (.inl ⟨hafter, le_max_right _ _⟩)
      · exact .inr (.inr hahead)
  · intro t ht
    exact h.pending t (List.mem_cons_of_mem _ ht)

/-- The sweep finds the blocks from the current union on. -/
theorem mem_sweep {current : Span} {ahead : List Span} (hP : ∀ s, P s → s.1 < s.2)
    (h : Sweeping P current ahead) : u ∈ sweep current ahead ↔ Block P u ∧ current.1 ≤ u.1 := by
  induction ahead generalizing current with
  | nil =>
    have hblock := h.block (List.forall_mem_nil _)
    rw [sweep, List.mem_singleton]
    constructor
    · rintro rfl
      exact ⟨hblock, le_rfl⟩
    · exact fun hu => h.eq_current hP hblock hu.1 hu.2 (List.forall_mem_nil _)
  | cons s rest ih =>
    rw [sweep]
    by_cases hle : current.2 ≤ s.1
    · have hsorted := List.pairwise_cons.mp h.sorted
      have hblock : Block P current := h.block (List.forall_mem_cons.mpr
        ⟨hle, fun t ht => hle.trans (hsorted.1 t ht)⟩)
      rw [if_pos hle, List.mem_cons, ih (h.open hP hle)]
      constructor
      · rintro (rfl | ⟨hu, hsu⟩)
        · exact ⟨hblock, le_rfl⟩
        · have := h.lt
          exact ⟨hu, by omega⟩
      · rintro ⟨hu, hcu⟩
        by_cases hsu : s.1 ≤ u.1
        · exact .inr ⟨hu, hsu⟩
        · refine .inl (h.eq_current hP hblock hu hcu (List.forall_mem_cons.mpr ⟨by omega, ?_⟩))
          intro t ht
          have := hsorted.1 t ht
          omega
    · rw [if_neg hle, ih (h.extend hle)]

theorem start_le_of_mem_sweep {current : Span} {ahead : List Span}
    (h : ∀ s ∈ ahead, current.1 ≤ s.1) (hsorted : ahead.Pairwise fun s t => s.1 ≤ t.1)
    (hu : u ∈ sweep current ahead) : current.1 ≤ u.1 := by
  induction ahead generalizing current with
  | nil =>
    rw [sweep, List.mem_singleton] at hu
    exact hu ▸ le_rfl
  | cons s rest ih =>
    obtain ⟨hs, hrest⟩ := List.forall_mem_cons.mp h
    obtain ⟨hnext, hsorted⟩ := List.pairwise_cons.mp hsorted
    rw [sweep] at hu
    split at hu
    · rcases List.mem_cons.mp hu with rfl | hu
      · exact le_rfl
      · exact hs.trans (ih hnext hsorted hu)
    · exact @ih (current.1, max current.2 s.2) hrest hsorted hu

theorem separate_sweep {current : Span} {ahead : List Span}
    (h : ∀ s ∈ ahead, current.1 ≤ s.1) (hsorted : ahead.Pairwise fun s t => s.1 ≤ t.1) :
    Separate (sweep current ahead) := by
  induction ahead generalizing current with
  | nil => exact List.pairwise_singleton _ _
  | cons s rest ih =>
    obtain ⟨-, hrest⟩ := List.forall_mem_cons.mp h
    obtain ⟨hnext, hsorted⟩ := List.pairwise_cons.mp hsorted
    rw [sweep]
    split
    · next hle =>
      refine List.pairwise_cons.mpr ⟨?_, ih hnext hsorted⟩
      intro u hu
      exact hle.trans (start_le_of_mem_sweep hnext hsorted hu)
    · exact @ih (current.1, max current.2 s.2) hrest hsorted

theorem mem_ordered {spans : List Span} {s : Span} : s ∈ ordered spans ↔ s ∈ spans :=
  Python.mem_sorted

theorem ordered_sorted (spans : List Span) : (ordered spans).Pairwise fun s t => s.1 ≤ t.1 := by
  refine (Python.sorted_pairwise _ spans).imp ?_
  intro s t h
  rcases Prod.Lex.le_iff.mp h with h | h
  · exact Int.ofNat_le.mp h.le
  · exact (Int.ofNat_inj.mp h.1).le

/-- The sweep computes the unions of the spans. -/
theorem mem_merge {spans : List Span} (hspans : ∀ s ∈ spans, s.1 < s.2) :
    u ∈ merge spans ↔ Union (· ∈ spans) u := by
  rw [← block_iff_union hspans]
  have hsorted := ordered_sorted spans
  unfold merge
  split
  · next hnil =>
    refine iff_of_false List.not_mem_nil ?_
    rintro ⟨-, ⟨s, hs, -⟩, -, -⟩
    rw [← mem_ordered, hnil] at hs
    cases hs
  · next first rest hcons =>
    rw [hcons] at hsorted
    obtain ⟨hfirst, hsorted⟩ := List.pairwise_cons.mp hsorted
    have hmem : ∀ s, s ∈ spans ↔ s = first ∨ s ∈ rest := by
      intro s
      rw [← mem_ordered, hcons, List.mem_cons]
    have hin : first ∈ spans := (hmem first).mpr (.inl rfl)
    have hsweeping : Sweeping (· ∈ spans) first rest := by
      refine ⟨hspans first hin, ⟨first, hin, rfl⟩, fun p hp hp' => ⟨first, hin, hp, hp'⟩, ?_, ?_,
        hsorted⟩
      · intro s hs
        rcases (hmem s).mp hs with rfl | hs
        · exact .inr (.inl ⟨le_rfl, le_rfl⟩)
        · exact .inr (.inr hs)
      · intro s hs
        exact ⟨(hmem s).mpr (.inr hs), hfirst s hs⟩
    rw [mem_sweep hspans hsweeping, and_iff_left_iff_imp]
    rintro ⟨-, ⟨s, hs, hstart⟩, -, -⟩
    rcases (hmem s).mp hs with rfl | hs
    · exact hstart.le
    · exact hstart ▸ hfirst s hs

theorem separate_merge (spans : List Span) : Separate (merge spans) := by
  have hsorted := ordered_sorted spans
  unfold merge
  split
  · exact List.Pairwise.nil
  · next first rest hcons =>
    rw [hcons] at hsorted
    obtain ⟨hfirst, hsorted⟩ := List.pairwise_cons.mp hsorted
    exact separate_sweep hfirst hsorted

/-- The sweep covers what the spans cover. -/
theorem covers_sweep {current : Span} {ahead : List Span} {i : Nat}
    (h : ∀ s ∈ ahead, current.1 ≤ s.1) (hsorted : ahead.Pairwise fun s t => s.1 ≤ t.1) :
    (∃ u ∈ sweep current ahead, Covers u i) ↔ Covers current i ∨ ∃ s ∈ ahead, Covers s i := by
  induction ahead generalizing current with
  | nil => simp [sweep]
  | cons s rest ih =>
    obtain ⟨hs, hrest⟩ := List.forall_mem_cons.mp h
    obtain ⟨hnext, hsorted⟩ := List.pairwise_cons.mp hsorted
    rw [sweep]
    split
    · rw [List.exists_mem_cons_iff, List.exists_mem_cons_iff, ih hnext hsorted]
    · have hextend : Covers (current.1, max current.2 s.2) i ↔ Covers current i ∨ Covers s i := by
        unfold Covers
        omega
      rw [@ih (current.1, max current.2 s.2) hrest hsorted, hextend, or_assoc,
        List.exists_mem_cons_iff]

theorem covers_merge {spans : List Span} {i : Nat} :
    (∃ u ∈ merge spans, Covers u i) ↔ ∃ s ∈ spans, Covers s i := by
  have hsorted := ordered_sorted spans
  have hmem : (∃ s ∈ spans, Covers s i) ↔ ∃ s ∈ ordered spans, Covers s i := by
    simp only [mem_ordered]
  rw [hmem]
  unfold merge
  split
  · next hnil => rw [hnil]
  · next first rest hcons =>
    rw [hcons] at hsorted ⊢
    obtain ⟨hfirst, hsorted⟩ := List.pairwise_cons.mp hsorted
    rw [covers_sweep hfirst hsorted, List.exists_mem_cons_iff]

/-- Separate non-empty spans are determined by their members. -/
theorem Separate.eq_of_mem_iff {spans spans' : List Span} (h : Separate spans)
    (h' : Separate spans') (hspans : ∀ s ∈ spans, s.1 < s.2) (hspans' : ∀ s ∈ spans', s.1 < s.2)
    (hmem : ∀ s, s ∈ spans ↔ s ∈ spans') : spans = spans' := by
  have strict : ∀ {spans : List Span}, Separate spans → (∀ s ∈ spans, s.1 < s.2) →
      spans.Pairwise fun s t => s.1 < t.1 := by
    intro spans h hspans
    refine List.Pairwise.imp_of_mem ?_ h
    intro s t hs _ hst
    exact (hspans s hs).trans_le hst
  have nodup : ∀ {spans : List Span}, (spans.Pairwise fun s t => s.1 < t.1) → spans.Nodup := by
    intro spans h
    refine h.imp ?_
    rintro s t hlt rfl
    exact lt_irrefl _ hlt
  have hstrict := strict h hspans
  have hstrict' := strict h' hspans'
  have hperm : spans.Perm spans' :=
    (List.perm_ext_iff_of_nodup (nodup hstrict) (nodup hstrict')).mpr hmem
  refine List.Perm.eq_of_pairwise ?_ hstrict hstrict' hperm
  intro s t _ _ hst hts
  exact absurd hst hts.not_gt

/-- The unions depend on which spans there are, not on their order or number. -/
theorem merge_congr {spans spans' : List Span} (hspans : ∀ s ∈ spans, s.1 < s.2)
    (hmem : ∀ s, s ∈ spans ↔ s ∈ spans') : merge spans = merge spans' := by
  have hspans' : ∀ s ∈ spans', s.1 < s.2 := fun s hs => hspans s ((hmem s).mpr hs)
  have hsame : (· ∈ spans) = (· ∈ spans') := funext fun s => propext (hmem s)
  refine (separate_merge spans).eq_of_mem_iff (separate_merge spans')
    (fun u hu => ((mem_merge hspans).mp hu).lt hspans)
    (fun u hu => ((mem_merge hspans').mp hu).lt hspans') ?_
  intro u
  rw [mem_merge hspans, mem_merge hspans', hsame]

/-! ## Section 3: Other positions -/

/-- The span between the images of two positions. -/
def image (f : Nat → Nat) (s : Span) : Span := (f s.1, f s.2)

variable {f : Nat → Nat}

theorem sweep_image (hf : StrictMono f) (current : Span) (ahead : List Span) :
    sweep (image f current) (ahead.map (image f)) = (sweep current ahead).map (image f) := by
  induction ahead generalizing current with
  | nil => rfl
  | cons s rest ih =>
    have hle : (image f current).2 ≤ (image f s).1 ↔ current.2 ≤ s.1 := hf.le_iff_le
    rw [List.map_cons, sweep, sweep]
    by_cases hnext : current.2 ≤ s.1
    · rw [if_pos (hle.mpr hnext), if_pos hnext, ih, List.map_cons]
    · have hmax : ((image f current).1, max (image f current).2 (image f s).2) =
          image f (current.1, max current.2 s.2) := by
        simp only [image, hf.monotone.map_max]
      rw [if_neg (hle.not.mpr hnext), if_neg hnext, hmax, ih]

theorem ordered_image (hf : StrictMono f) (spans : List Span) :
    ordered (spans.map (image f)) = (ordered spans).map (image f) := by
  unfold ordered Python.sorted
  refine (List.map_insertionSort _ _ (image f) spans ?_).symm
  intro a _ b _
  have hfirst : f a.1 < f b.1 ↔ a.1 < b.1 := hf.lt_iff_lt
  have heq : f a.1 = f b.1 ↔ a.1 = b.1 := hf.injective.eq_iff
  have hsecond : f b.2 ≤ f a.2 ↔ b.2 ≤ a.2 := hf.le_iff_le
  simp only [Prod.Lex.le_iff, image, ofLex_toLex, Int.ofNat_lt, Int.ofNat_inj, neg_le_neg_iff,
    Int.ofNat_le, hfirst, heq, hsecond]

/-- Moving all positions strictly upwards moves the unions along. -/
theorem merge_image (hf : StrictMono f) (spans : List Span) :
    merge (spans.map (image f)) = (merge spans).map (image f) := by
  unfold merge
  rw [ordered_image hf]
  cases ordered spans with
  | nil => rfl
  | cons first rest => exact sweep_image hf first rest

end Spans
