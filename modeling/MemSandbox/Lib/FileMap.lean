import Mathlib.Tactic
import Mathlib.Data.Rat.Defs
import Mathlib.Data.Set.Finite.Basic
import Mathlib.Data.List.Infix

/-! # The abstract filesystem

    What a hierarchical file store is for, independently of how it keeps its
    tree: a finite map from paths (lists of names) to directories and file
    contents, closed under taking parents.

    A `View` is the bare map; a `FileMap` is a view with its invariant.  The
    updates below are the vocabulary in which an operation on a concrete store
    is specified: assign one path, create the ancestors, cut a subtree, graft
    a subtree. -/

namespace FileMap

variable {α : Type u} {β : Type v}

/-- What a path holds. -/
inductive Entry (β : Type v) where
  | directory
  | file (content : β)
  deriving DecidableEq

/-- The weight of an entry, given that of a content. -/
def Entry.weight (weight : β → Nat) : Entry β → Nat
  | .directory => 0
  | .file content => weight content

/-- A map from paths to entries, with no invariant. -/
abbrev View (α : Type u) (β : Type v) : Type (max u v) := List α → Option (Entry β)

end FileMap

open FileMap in
/-- A filesystem: the root is a directory, so is the parent of every path held,
    and finitely many paths are held. -/
structure FileMap (α : Type u) (β : Type v) where
  entry : View α β
  root_directory : entry [] = some .directory
  parent_directory : ∀ p a, entry (p ++ [a]) ≠ none → entry p = some .directory
  finite : {p | entry p ≠ none}.Finite

namespace FileMap

variable {α : Type u} {β : Type v}

/-- Every proper ancestor of a path held is a directory. -/
theorem ancestor_directory (m : FileMap α β) {p q : List α} (hpq : p <+: q) (hne : p ≠ q)
    (hq : m.entry q ≠ none) : m.entry p = some .directory := by
  obtain ⟨r, rfl⟩ := hpq
  induction r using List.reverseRecOn with
  | nil => exact absurd (by simp) hne
  | append_singleton r a ih =>
    have hparent : m.entry (p ++ r) = some .directory := by
      refine m.parent_directory (p ++ r) a ?_
      rw [List.append_assoc]
      exact hq
    by_cases hr : r = []
    · subst hr
      simpa using hparent
    · exact ih (by simpa using Ne.symm hr) (by rw [hparent]; simp)

/-- Nothing lies below a file. -/
theorem below_file (m : FileMap α β) {p q : List α} {c : β} (hp : m.entry p = some (.file c))
    (hpq : p <+: q) (hne : p ≠ q) : m.entry q = none := by
  by_contra hq
  have := m.ancestor_directory hpq hne hq
  rw [hp] at this
  cases this

/-- Nothing lies below an absent path. -/
theorem below_absent (m : FileMap α β) {p q : List α} (hp : m.entry p = none) (hpq : p <+: q) :
    m.entry q = none := by
  by_cases hne : p = q
  · exact hne ▸ hp
  · by_contra hq
    have := m.ancestor_directory hpq hne hq
    rw [hp] at this
    cases this

/-! ## Updates of views -/

namespace View

variable [DecidableEq α]

/-- `p` holds `e`; every other path is as before. -/
def assign (p : List α) (e : Entry β) (m : View α β) : View α β :=
  fun q => if q = p then some e else m q

/-- Every proper ancestor of `p` is a directory; every other path is as before. -/
def withAncestors (p : List α) (m : View α β) : View α β :=
  fun q => if q <+: p ∧ q ≠ p then some .directory else m q

/-- `p` and everything below it are gone; every other path is as before. -/
def without (p : List α) (m : View α β) : View α β :=
  fun q => if p <+: q then none else m q

/-- The part of a view below `p`, with paths relative to `p`. -/
def subtree (p : List α) (m : View α β) : View α β := fun q => m (p ++ q)

/-- Below `p` the view is `sub`; every other path is as before. -/
def graft (p : List α) (sub : View α β) (m : View α β) : View α β :=
  fun q => if p <+: q then sub (q.drop p.length) else m q

@[simp] theorem assign_self (p : List α) (e : Entry β) (m : View α β) :
    assign p e m p = some e := by
  simp [assign]

theorem assign_of_ne {p q : List α} (h : q ≠ p) (e : Entry β) (m : View α β) :
    assign p e m q = m q := by
  simp [assign, h]

theorem withAncestors_of_not_isPrefix {p q : List α} (h : ¬ q <+: p) (m : View α β) :
    withAncestors p m q = m q := by
  simp [withAncestors, h]

@[simp] theorem withAncestors_self (p : List α) (m : View α β) : withAncestors p m p = m p := by
  simp [withAncestors]

theorem graft_below (p q : List α) (sub m : View α β) : graft p sub m (p ++ q) = sub q := by
  simp [graft]

theorem graft_of_not_below {p q : List α} (h : ¬ p <+: q) (sub m : View α β) :
    graft p sub m q = m q := by
  simp [graft, h]

/-- Creating ancestors that are there already changes nothing. -/
theorem withAncestors_eq_self {p : List α} {m : View α β}
    (h : ∀ q, q <+: p → q ≠ p → m q = some .directory) : withAncestors p m = m := by
  funext q
  unfold withAncestors
  split
  · next hq => exact (h q hq.1 hq.2).symm
  · rfl

/-- A view that holds a single entry and nothing below it. -/
def single (e : Entry β) : View α β := fun q => if q = [] then some e else none

/-- Assigning a path below which nothing lies is grafting a single entry there. -/
theorem graft_single {p : List α} {m : View α β} (e : Entry β)
    (h : ∀ q, p <+: q → q ≠ p → m q = none) : graft p (single e) m = assign p e m := by
  funext q
  by_cases hpq : p <+: q
  · obtain ⟨r, rfl⟩ := hpq
    rw [graft_below]
    by_cases hr : r = []
    · simp [single, assign, hr]
    · rw [assign_of_ne (by simpa using hr), h (p ++ r) (List.prefix_append p r) (by simpa using hr)]
      simp [single, hr]
  · rw [graft_of_not_below hpq, assign_of_ne]
    rintro rfl
    exact hpq (List.prefix_refl _)

/-- The entries assigned one after the other. -/
def assignAll : List (List α × Entry β) → View α β → View α β
  | [], m => m
  | item :: rest, m => assignAll rest (m.assign item.1 item.2)

theorem assignAll_of_not_mem {items : List (List α × Entry β)} {q : List α}
    (h : q ∉ items.map Prod.fst) (m : View α β) : assignAll items m q = m q := by
  induction items generalizing m with
  | nil => rfl
  | cons item items ih =>
    rw [List.map_cons, List.mem_cons, not_or] at h
    rw [assignAll, ih h.2, assign_of_ne h.1]

theorem assignAll_of_mem {items : List (List α × Entry β)}
    (hdistinct : (items.map Prod.fst).Nodup) {q : List α} {e : Entry β} (h : (q, e) ∈ items)
    (m : View α β) : assignAll items m q = some e := by
  induction items generalizing m with
  | nil => cases h
  | cons item items ih =>
    rw [List.map_cons, List.nodup_cons] at hdistinct
    rw [assignAll]
    rcases List.mem_cons.mp h with heq | hmem
    · subst heq
      rw [assignAll_of_not_mem hdistinct.1, assign_self]
    · exact ih hdistinct.2 hmem _

/-- Each entry is new when its turn comes, and its parent is a directory then. -/
def Buildable : List (List α × Entry β) → View α β → Prop
  | [], _ => True
  | item :: rest, m =>
    m item.1.dropLast = some .directory ∧ m item.1 = none ∧
      Buildable rest (m.assign item.1 item.2)

/-- Entries in an order in which parents come first can be built, whatever the order is. -/
theorem buildable_of_order {γ : Type} [Preorder γ] (key : List α → γ)
    {items : List (List α × Entry β)} {m : View α β}
    (horder : items.Pairwise fun a b => key a.1 < key b.1)
    (hkey : ∀ item ∈ items, key item.1.dropLast < key item.1)
    (hparent : ∀ item ∈ items,
      m item.1.dropLast = some .directory ∨ (item.1.dropLast, Entry.directory) ∈ items)
    (hnew : ∀ item ∈ items, m item.1 = none) : Buildable items m := by
  induction items generalizing m with
  | nil => trivial
  | cons item items ih =>
    obtain ⟨hfirst, horder⟩ := List.pairwise_cons.mp horder
    have hself := hnew item List.mem_cons_self
    refine ⟨?_, hself, ih horder ?_ ?_ ?_⟩
    · -- the parent cannot come at this place or later
      rcases hparent item List.mem_cons_self with hdir | hmem
      · exact hdir
      · have hlt := hkey item List.mem_cons_self
        rcases List.mem_cons.mp hmem with heq | hmem
        · have hdrop : item.1.dropLast = item.1 := congrArg Prod.fst heq
          rw [hdrop] at hlt
          exact absurd hlt (lt_irrefl _)
        · exact absurd (hlt.trans (hfirst _ hmem)) (lt_irrefl _)
    · exact fun next hnext => hkey next (List.mem_cons_of_mem _ hnext)
    · intro next hnext
      by_cases hp : next.1.dropLast = item.1
      · rcases hparent next (List.mem_cons_of_mem _ hnext) with hdir | hmem
        · rw [hp, hself] at hdir
          cases hdir
        · rcases List.mem_cons.mp hmem with heq | hmem
          · left
            rw [hp, assign_self, ← heq]
          · exact .inr hmem
      · rcases hparent next (List.mem_cons_of_mem _ hnext) with hdir | hmem
        · left
          rw [assign_of_ne hp]
          exact hdir
        · rcases List.mem_cons.mp hmem with heq | hmem
          · exact absurd (congrArg Prod.fst heq) hp
          · exact .inr hmem
    · intro next hnext
      have hne : next.1 ≠ item.1 := by
        intro heq
        have hlt := hfirst next hnext
        rw [heq] at hlt
        exact lt_irrefl _ hlt
      rw [assign_of_ne hne]
      exact hnew next (List.mem_cons_of_mem _ hnext)

/-- What can be built has no path twice, nothing that was there already, and
    the parent of every entry. -/
theorem Buildable.spec {items : List (List α × Entry β)} {m : View α β} (h : Buildable items m) :
    (items.map Prod.fst).Nodup ∧ ∀ item ∈ items, m item.1 = none ∧
      (m item.1.dropLast = some .directory ∨ (item.1.dropLast, Entry.directory) ∈ items) := by
  induction items generalizing m with
  | nil => simp
  | cons item items ih =>
    obtain ⟨hparent, hnew, hrest⟩ := h
    obtain ⟨hnodup, hall⟩ := ih hrest
    have hne : ∀ next ∈ items, next.1 ≠ item.1 := by
      intro next hnext heq
      have hnone := (hall next hnext).1
      rw [heq, assign_self] at hnone
      cases hnone
    refine ⟨?_, ?_⟩
    · rw [List.map_cons, List.nodup_cons]
      refine ⟨?_, hnodup⟩
      intro hmem
      obtain ⟨next, hnext, heq⟩ := List.mem_map.mp hmem
      exact hne next hnext heq
    · intro next hnext
      rcases List.mem_cons.mp hnext with rfl | hnext
      · exact ⟨hnew, .inl hparent⟩
      · obtain ⟨hnone, hdir⟩ := hall next hnext
        rw [assign_of_ne (hne next hnext)] at hnone
        refine ⟨hnone, ?_⟩
        rcases hdir with hdir | hmem
        · by_cases hp : next.1.dropLast = item.1
          · -- the entry just assigned is the parent
            rw [hp, assign_self, Option.some.injEq] at hdir
            right
            rw [hp, ← hdir]
            exact List.mem_cons_self
          · rw [assign_of_ne hp] at hdir
            exact .inl hdir
        · exact .inr (List.mem_cons_of_mem _ hmem)

end View

end FileMap
