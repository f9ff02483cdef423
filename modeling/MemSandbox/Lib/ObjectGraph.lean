import MemSandbox.Lib.Tree
import Mathlib.Logic.Function.Basic

/-! # Graphs of objects

    A heap of files and of directories that refer to other objects by address.
    Nothing keeps the references acyclic, or two directories from referring to
    the same object: a tree is what a graph may unfold to.

    - `follow`: the object at the end of a path of names
    - `Unfolds`: the tree that the paths from an object spell
    - `ReachesTwice`, `Exceeds`: the two ways not to be a small tree -/

/-- What an address holds. -/
inductive Object (κ β : Type) where
  | file (content : β)
  | directory (children : List (κ × Nat))
deriving Repr

/-- The objects allocated so far are those below `next`. -/
structure Heap (κ β : Type) where
  cells : Nat → Object κ β
  next : Nat

namespace Heap

variable {κ β : Type}

/-- The references that an address holds. -/
def children (heap : Heap κ β) (a : Nat) : List (κ × Nat) :=
  match heap.cells a with
  | .file _ => []
  | .directory refs => refs

/-- `a` holds a directory. -/
def IsDirectory (heap : Heap κ β) (a : Nat) : Prop := heap.cells a = .directory (heap.children a)

/-- No dangling reference, and no name twice in a directory. -/
structure WellFormed (heap : Heap κ β) : Prop where
  closed : ∀ a < heap.next, ∀ r ∈ heap.children a, r.2 < heap.next
  unique : ∀ a < heap.next, Dict.UniqueKeys (heap.children a)

theorem children_of_file {heap : Heap κ β} {a : Nat} {c : β} (h : heap.cells a = .file c) :
    heap.children a = [] := by
  simp [children, h]

theorem children_of_directory {heap : Heap κ β} {a : Nat} {refs : List (κ × Nat)}
    (h : heap.cells a = .directory refs) : heap.children a = refs := by
  simp [children, h]

theorem isDirectory_iff {heap : Heap κ β} {a : Nat} :
    heap.IsDirectory a ↔ ∃ refs, heap.cells a = .directory refs := by
  constructor
  · exact fun h => ⟨_, h⟩
  · rintro ⟨refs, h⟩
    rw [IsDirectory, children_of_directory h, h]

theorem not_isDirectory_of_file {heap : Heap κ β} {a : Nat} {c : β} (h : heap.cells a = .file c) :
    ¬ heap.IsDirectory a := by
  simp [IsDirectory, h]

theorem file_or_isDirectory (heap : Heap κ β) (a : Nat) :
    (∃ c, heap.cells a = .file c) ∨ heap.IsDirectory a := by
  unfold IsDirectory children
  cases heap.cells a with
  | file c => exact .inl ⟨c, rfl⟩
  | directory refs => exact .inr rfl

variable [DecidableEq κ]

/-! ## Section 1: Paths -/

/-- The address at the end of a path of names. -/
def follow (heap : Heap κ β) : Nat → List κ → Option Nat
  | a, [] => some a
  | a, k :: p => (Dict.get? k (heap.children a)).bind fun b => follow heap b p

@[simp] theorem follow_nil (heap : Heap κ β) (a : Nat) : heap.follow a [] = some a := rfl

theorem follow_append (heap : Heap κ β) (a : Nat) (p q : List κ) :
    heap.follow a (p ++ q) = (heap.follow a p).bind (heap.follow · q) := by
  induction p generalizing a with
  | nil => rfl
  | cons k p ih =>
    rw [List.cons_append, follow, follow]
    cases Dict.get? k (heap.children a) with
    | none => rfl
    | some b => exact ih b

/-- One name further. -/
theorem follow_concat_iff {heap : Heap κ β} {a c : Nat} {p : List κ} {k : κ} :
    heap.follow a (p ++ [k]) = some c ↔
      ∃ b, heap.follow a p = some b ∧ Dict.get? k (heap.children b) = some c := by
  rw [follow_append, Option.bind_eq_some_iff]
  simp only [follow, Option.bind_fun_some]

/-- What a path leads to is allocated. -/
theorem WellFormed.follow_lt {heap : Heap κ β} (h : heap.WellFormed) {a b : Nat} {p : List κ}
    (ha : a < heap.next) (hp : heap.follow a p = some b) : b < heap.next := by
  induction p generalizing a with
  | nil => exact Option.some.inj hp ▸ ha
  | cons k p ih =>
    obtain ⟨c, hc, hp⟩ := Option.bind_eq_some_iff.mp hp
    exact ih (h.closed a ha _ (Dict.mem_of_get? hc)) hp

/-- Two paths lead from `a` to one directory. -/
def ReachesTwice (heap : Heap κ β) (a : Nat) : Prop :=
  ∃ p q d, p ≠ q ∧ heap.follow a p = some d ∧ heap.follow a q = some d ∧ heap.IsDirectory d

/-- More than `n` paths lead from `a` to an object. -/
def Exceeds (heap : Heap κ β) (a n : Nat) : Prop :=
  ∃ paths : List (List κ), paths.Nodup ∧ n < paths.length ∧
    ∀ p ∈ paths, (heap.follow a p).isSome

/-! ## Section 2: Unfolding -/

mutual

/-- The paths from an address spell the tree. -/
def Unfolds (heap : Heap κ β) : FileTree κ β → Nat → Prop
  | .file c, a => heap.cells a = .file c
  | .directory cs, a => ∃ refs, heap.cells a = .directory refs ∧ UnfoldsAll heap cs refs

/-- The references spell the children, in their order. -/
def UnfoldsAll (heap : Heap κ β) : List (κ × FileTree κ β) → List (κ × Nat) → Prop
  | [], refs => refs = []
  | (k, t) :: cs, refs =>
    ∃ b rest, refs = (k, b) :: rest ∧ Unfolds heap t b ∧ UnfoldsAll heap cs rest

end

omit [DecidableEq κ] in
theorem unfoldsAll_iff {heap : Heap κ β} {cs : List (κ × FileTree κ β)} {refs : List (κ × Nat)} :
    heap.UnfoldsAll cs refs ↔
      List.Forall₂ (fun c r => c.1 = r.1 ∧ heap.Unfolds c.2 r.2) cs refs := by
  induction cs generalizing refs with
  | nil => simp [UnfoldsAll]
  | cons c cs ih =>
    obtain ⟨k, t⟩ := c
    simp only [UnfoldsAll, List.forall₂_cons_left_iff, ih]
    constructor
    · rintro ⟨b, rest, rfl, ht, hcs⟩
      exact ⟨(k, b), rest, ⟨rfl, ht⟩, hcs, rfl⟩
    · rintro ⟨⟨k', b⟩, rest, ⟨rfl, ht⟩, hcs, rfl⟩
      exact ⟨b, rest, rfl, ht, hcs⟩

omit [DecidableEq κ] in
/-- A directory unfolds child by child. -/
theorem unfolds_directory {heap : Heap κ β} {cs : List (κ × FileTree κ β)} {a : Nat} :
    heap.Unfolds (.directory cs) a ↔ heap.IsDirectory a ∧
      List.Forall₂ (fun c r => c.1 = r.1 ∧ heap.Unfolds c.2 r.2) cs (heap.children a) := by
  simp only [Unfolds, unfoldsAll_iff]
  constructor
  · rintro ⟨refs, ha, h⟩
    exact ⟨isDirectory_iff.mpr ⟨refs, ha⟩, by rwa [children_of_directory ha]⟩
  · rintro ⟨ha, h⟩
    exact ⟨_, ha, h⟩

omit [DecidableEq κ] in
/-- A child for every child. -/
theorem exists_of_forall₂ {α γ : Type} {R : α → γ → Prop} {xs : List α} {ys : List γ}
    (h : List.Forall₂ R xs ys) : ∀ x ∈ xs, ∃ y ∈ ys, R x y := by
  induction h with
  | nil => exact List.forall_mem_nil _
  | @cons x y xs ys hxy _ ih =>
    refine List.forall_mem_cons.mpr ⟨⟨y, List.mem_cons_self .., hxy⟩, fun x' hx' => ?_⟩
    obtain ⟨y', hy', h'⟩ := ih x' hx'
    exact ⟨y', List.mem_cons_of_mem _ hy', h'⟩

omit [DecidableEq κ] in
/-- Related references that unfold pairwise to one tree unfold to the same children. -/
theorem exists_unfolds_forall₂ {heap heap' : Heap κ β} {refs refs' : List (κ × Nat)}
    (h : List.Forall₂ (fun r r' => r'.1 = r.1 ∧ ∃ t, heap.Unfolds t r.2 ∧ heap'.Unfolds t r'.2)
      refs refs') :
    ∃ cs : List (κ × FileTree κ β),
      List.Forall₂ (fun c r => c.1 = r.1 ∧ heap.Unfolds c.2 r.2) cs refs ∧
      List.Forall₂ (fun c r => c.1 = r.1 ∧ heap'.Unfolds c.2 r.2) cs refs' := by
  induction h with
  | nil => exact ⟨[], .nil, .nil⟩
  | @cons r r' refs refs' hr _ ih =>
    obtain ⟨hname, t, ht, ht'⟩ := hr
    obtain ⟨cs, hcs, hcs'⟩ := ih
    exact ⟨(r.1, t) :: cs, .cons ⟨rfl, ht⟩ hcs, .cons ⟨hname.symm, ht'⟩ hcs'⟩

/-- The same lookups in related dictionaries. -/
theorem get?_of_forall₂ {α γ : Type} {R : α → γ → Prop} {d : List (κ × α)} {e : List (κ × γ)}
    (h : List.Forall₂ (fun x y => x.1 = y.1 ∧ R x.2 y.2) d e) (k : κ) :
    Option.Rel R (Dict.get? k d) (Dict.get? k e) := by
  induction h with
  | nil => exact .none
  | @cons x y d e hxy _ ih =>
    obtain ⟨kx, x⟩ := x
    obtain ⟨ky, y⟩ := y
    obtain ⟨rfl, hR⟩ := hxy
    rw [Dict.get?, Dict.get?]
    by_cases hk : kx = k
    · rw [if_pos hk, if_pos hk]
      exact .some hR
    · rw [if_neg hk, if_neg hk]
      exact ih

/-- The paths of the tree are those of the graph. -/
theorem Unfolds.rel {heap : Heap κ β} {t : FileTree κ β} {a : Nat} (h : heap.Unfolds t a)
    (p : List κ) : Option.Rel heap.Unfolds (t.at? p) (heap.follow a p) := by
  induction p generalizing t a with
  | nil =>
    rw [FileTree.at?_nil, follow_nil]
    exact .some h
  | cons k p ih =>
    cases t with
    | file c =>
      rw [follow, children_of_file (by simpa [Unfolds] using h)]
      exact .none
    | directory cs =>
      rw [FileTree.at?_directory_cons, follow]
      have hk := get?_of_forall₂ (unfolds_directory.mp h).2 k
      generalize Dict.get? k cs = child at hk
      generalize Dict.get? k (heap.children a) = ref at hk
      cases hk with
      | none => exact .none
      | some hb => exact ih hb

omit [DecidableEq κ] in
/-- An object unfolds to one tree at most. -/
theorem Unfolds.eq {heap : Heap κ β} {t t' : FileTree κ β} {a : Nat} (h : heap.Unfolds t a)
    (h' : heap.Unfolds t' a) : t = t' := by
  induction t using FileTree.induct generalizing t' a with
  | file c =>
    cases t' with
    | file c' => simp_all [Unfolds]
    | directory cs' => simp_all [Unfolds]
  | directory cs ih =>
    cases t' with
    | file c' => simp_all [Unfolds]
    | directory cs' =>
      congr 1
      have hcs := (unfolds_directory.mp h).2
      have hcs' := (unfolds_directory.mp h').2
      clear h h'
      generalize heap.children a = refs at hcs hcs'
      induction hcs generalizing cs' with
      | nil => exact (List.forall₂_nil_right_iff.mp hcs').symm
      | @cons c r cs refs hc _ ihcs =>
        obtain ⟨c', cs', hc', hrest, rfl⟩ := List.forall₂_cons_right_iff.mp hcs'
        have hchild := ih c (List.mem_cons_self ..) hc.2 hc'.2
        rw [ihcs (fun d hd => ih d (List.mem_cons_of_mem _ hd)) cs' hrest,
          Prod.ext (hc.1.trans hc'.1.symm) hchild]

theorem Unfolds.wellFormed {heap : Heap κ β} (hheap : heap.WellFormed) {t : FileTree κ β} {a : Nat}
    (ha : a < heap.next) (h : heap.Unfolds t a) : t.WellFormed fun _ => True := by
  induction t using FileTree.induct generalizing a with
  | file c => exact .file c
  | directory cs ih =>
    have hcs := (unfolds_directory.mp h).2
    have hkeys : Dict.keys cs = Dict.keys (heap.children a) :=
      List.forall₂_eq_eq_eq ▸ List.forall₂_map_left_iff.mpr
        (List.forall₂_map_right_iff.mpr (hcs.imp fun _ _ h => h.1))
    have hunique : Dict.UniqueKeys cs := by
      rw [Dict.UniqueKeys, hkeys]
      exact hheap.unique a ha
    refine .directory hunique (fun _ _ => trivial) fun c hc => ?_
    have hrel := get?_of_forall₂ hcs c.1
    rw [Dict.get?_of_mem hunique hc] at hrel
    cases hb : Dict.get? c.1 (heap.children a) with
    | none => simp [hb] at hrel
    | some b =>
      rw [hb, Option.rel_some_some] at hrel
      exact ih c hc (hheap.closed a ha (c.1, b) (Dict.mem_of_get? hb)) hrel

/-- The tree has a node for every path. -/
theorem Unfolds.exceeds_iff {heap : Heap κ β} (hheap : heap.WellFormed) {t : FileTree κ β} {a n : Nat}
    (ha : a < heap.next) (h : heap.Unfolds t a) : heap.Exceeds a n ↔ n < t.count := by
  have ht := h.wellFormed hheap ha
  have hpaths : ∀ p, (heap.follow a p).isSome ↔ p ∈ (t.listing []).map Prod.fst := by
    intro p
    have hrel := h.rel p
    have hmem : ∀ e, (p, e) ∈ t.listing [] ↔ t.view p = some e := fun e =>
      FileTree.mem_listing_iff ht
    simp only [List.mem_map, Prod.exists, exists_and_right, exists_eq_right, hmem, FileTree.view]
    generalize t.at? p = node at hrel
    generalize heap.follow a p = b at hrel
    cases hrel <;> simp
  constructor
  · rintro ⟨paths, hnodup, hlt, hall⟩
    have hsub : paths ⊆ (t.listing []).map Prod.fst := fun p hp => (hpaths p).mp (hall p hp)
    have hle := (hnodup.subperm hsub).length_le
    rw [List.length_map, FileTree.length_listing] at hle
    omega
  · intro hlt
    refine ⟨_, FileTree.nodup_listing ht [], ?_, fun p hp => (hpaths p).mpr hp⟩
    rwa [List.length_map, FileTree.length_listing]

end Heap
