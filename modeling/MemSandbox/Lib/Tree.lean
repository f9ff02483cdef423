import MemSandbox.Lib.Dict
import MemSandbox.Lib.FileMap

/-! # Trees of named children

    The store behind an in-memory filesystem: a file is a leaf, a directory is
    a dictionary of named children.  A tree denotes a `FileMap` (`FileTree.view`),
    and an assignment to one dictionary inside the tree denotes a graft of the
    map, a deletion from it the cut of a subtree.

    - `at?`, `view`: what a path holds
    - `modifyAt`: assignment to the dictionary a path leads to
    - `WellFormed`: no dictionary has a key twice
    - `count`, `total`: the measures
    - `listing`: every node with its path -/

open FileMap

/-- A file or a dictionary of named children. -/
inductive FileTree (κ β : Type) where
  | file (content : β)
  | directory (children : List (κ × FileTree κ β))

namespace FileTree

variable {κ β : Type}

/-- Induction over trees: a directory may use the claim for each child. -/
@[elab_as_elim]
theorem induct {motive : FileTree κ β → Prop} (file : ∀ content, motive (.file content))
    (directory : ∀ children, (∀ p ∈ children, motive p.2) → motive (.directory children))
    (t : FileTree κ β) : motive t :=
  FileTree.rec (motive_1 := motive) (motive_2 := fun children => ∀ p ∈ children, motive p.2)
    (motive_3 := fun p => motive p.2)
    file directory (by simp)
    (fun _ _ hd tl p hp => by
      rcases List.mem_cons.mp hp with rfl | hp
      · exact hd
      · exact tl p hp)
    (fun _ _ h => h) t

/-- The entry a node contributes to the map. -/
def entry : FileTree κ β → Entry β
  | .file content => .file content
  | .directory _ => .directory

@[simp] theorem entry_file (content : β) : (FileTree.file content : FileTree κ β).entry = .file content := rfl

@[simp] theorem entry_directory (children : List (κ × FileTree κ β)) :
    (FileTree.directory children).entry = .directory := rfl

theorem entry_eq_directory {t : FileTree κ β} : t.entry = .directory ↔ ∃ cs, t = .directory cs := by
  cases t <;> simp [entry]

theorem entry_eq_file {t : FileTree κ β} {c : β} : t.entry = .file c ↔ t = .file c := by
  cases t <;> simp [entry]

/-! ## Section 1: Lookups -/

section Lookups

variable [DecidableEq κ]

/-- The node a path leads to. -/
def at? : FileTree κ β → List κ → Option (FileTree κ β)
  | t, [] => some t
  | .file _, _ :: _ => none
  | .directory children, k :: rest => (Dict.get? k children).bind fun child => at? child rest

@[simp] theorem at?_nil (t : FileTree κ β) : t.at? [] = some t := by
  cases t <;> rfl

@[simp] theorem at?_file_cons (c : β) (k : κ) (p : List κ) :
    (FileTree.file c : FileTree κ β).at? (k :: p) = none := rfl

theorem at?_directory_cons (cs : List (κ × FileTree κ β)) (k : κ) (p : List κ) :
    (FileTree.directory cs).at? (k :: p) = (Dict.get? k cs).bind (at? · p) := rfl

theorem at?_append (t : FileTree κ β) (p q : List κ) : t.at? (p ++ q) = (t.at? p).bind (at? · q) := by
  induction p generalizing t with
  | nil => simp
  | cons k p ih =>
    cases t with
    | file c => rfl
    | directory cs =>
      rw [List.cons_append, at?_directory_cons, at?_directory_cons]
      cases Dict.get? k cs with
      | none => rfl
      | some t => exact ih t

/-- The map a tree denotes. -/
def view (t : FileTree κ β) : View κ β := fun p => (t.at? p).map entry

@[simp] theorem view_nil (t : FileTree κ β) : t.view [] = some t.entry := by
  simp [view]

@[simp] theorem view_file_cons (c : β) (k : κ) (p : List κ) :
    (FileTree.file c : FileTree κ β).view (k :: p) = none := rfl

theorem view_directory_cons (cs : List (κ × FileTree κ β)) (k : κ) (p : List κ) :
    (FileTree.directory cs).view (k :: p) = (Dict.get? k cs).bind (view · p) := by
  simp only [view, at?_directory_cons]
  cases Dict.get? k cs <;> rfl

theorem view_append {t s : FileTree κ β} {p : List κ} (h : t.at? p = some s) (q : List κ) :
    t.view (p ++ q) = s.view q := by
  simp [view, at?_append, h]

theorem view_eq_none_iff {t : FileTree κ β} {p : List κ} : t.view p = none ↔ t.at? p = none := by
  simp [view]

theorem view_eq_directory_iff {t : FileTree κ β} {p : List κ} :
    t.view p = some .directory ↔ ∃ cs, t.at? p = some (.directory cs) := by
  simp [view, entry_eq_directory]

theorem view_eq_file_iff {t : FileTree κ β} {p : List κ} {c : β} :
    t.view p = some (.file c) ↔ t.at? p = some (.file c) := by
  simp [view, entry_eq_file]

theorem view_file (c : β) : (FileTree.file c : FileTree κ β).view = View.single (.file c) := by
  funext p
  cases p <;> simp [View.single]

theorem view_directory_nil : (FileTree.directory [] : FileTree κ β).view = View.single .directory := by
  funext p
  cases p <;> simp [View.single, view_directory_cons]

end Lookups

/-! ## Section 2: Assignment inside a tree -/

section Assignment

variable [DecidableEq κ]

/-- Apply `f` to the dictionary that the path leads to. -/
def modifyAt (f : List (κ × FileTree κ β) → List (κ × FileTree κ β)) :
    List κ → List (κ × FileTree κ β) → List (κ × FileTree κ β)
  | [], children => f children
  | k :: rest, children =>
    match Dict.get? k children with
    | some (.directory inner) => Dict.set k (.directory (modifyAt f rest inner)) children
    | _ => children

theorem modifyAt_cons {f : List (κ × FileTree κ β) → List (κ × FileTree κ β)} {k : κ} {p : List κ}
    {cs inner : List (κ × FileTree κ β)} (h : Dict.get? k cs = some (.directory inner)) :
    modifyAt f (k :: p) cs = Dict.set k (.directory (modifyAt f p inner)) cs := by
  simp [modifyAt, h]

/-- Assigning a child grafts the child's map below its name. -/
theorem view_set (k : κ) (t : FileTree κ β) (cs : List (κ × FileTree κ β)) :
    (FileTree.directory (Dict.set k t cs)).view = View.graft [k] t.view (FileTree.directory cs).view := by
  funext p
  cases p with
  | nil => simp [View.graft]
  | cons k' p =>
    rw [view_directory_cons, Dict.get?_set]
    by_cases hk : k' = k
    · subst hk
      simp [View.graft]
    · simp [View.graft, hk, Ne.symm hk, view_directory_cons]

/-- Deleting a child cuts its subtree. -/
theorem view_erase {cs : List (κ × FileTree κ β)} (hcs : Dict.UniqueKeys cs) (k : κ) :
    (FileTree.directory (Dict.erase k cs)).view = View.without [k] (FileTree.directory cs).view := by
  funext p
  cases p with
  | nil => simp [View.without]
  | cons k' p =>
    rw [view_directory_cons, Dict.get?_erase hcs]
    by_cases hk : k' = k
    · subst hk
      simp [View.without]
    · simp [View.without, hk, Ne.symm hk, view_directory_cons]

/-- Changing one dictionary grafts the map of its new contents at its path. -/
theorem view_modifyAt (f : List (κ × FileTree κ β) → List (κ × FileTree κ β)) {p : List κ}
    {cs inner : List (κ × FileTree κ β)} (h : (FileTree.directory cs).at? p = some (.directory inner)) :
    (FileTree.directory (modifyAt f p cs)).view =
      View.graft p (FileTree.directory (f inner)).view (FileTree.directory cs).view := by
  induction p generalizing cs with
  | nil =>
    simp only [at?_nil, Option.some.injEq, FileTree.directory.injEq] at h
    subst h
    funext q
    simp [modifyAt, View.graft]
  | cons k p ih =>
    rw [at?_directory_cons, Option.bind_eq_some_iff] at h
    obtain ⟨child, hk, hp⟩ := h
    cases child with
    | file c =>
      cases p with
      | nil => simp at hp
      | cons => simp at hp
    | directory ds =>
      rw [modifyAt_cons hk, view_set, ih hp]
      funext q
      cases q with
      | nil => simp [View.graft]
      | cons k' q =>
        by_cases hk' : k = k'
        · subst hk'
          simp only [View.graft, List.cons_prefix_cons, List.nil_prefix, and_self, ite_true,
            List.length_cons, List.length_nil, List.drop_succ_cons, List.drop_zero, true_and]
          simp [view_directory_cons, hk]
        · simp [View.graft, hk']

end Assignment

/-! ## Section 3: Grafts and cuts one level down -/

section Nested

variable [DecidableEq κ]

theorem graft_graft (p q : List κ) (sub : View κ β) (m : View κ β) :
    View.graft p (View.graft q sub (View.subtree p m)) m = View.graft (p ++ q) sub m := by
  funext r
  by_cases hp : p <+: r
  · obtain ⟨s, rfl⟩ := hp
    rw [View.graft_below]
    simp [View.graft, View.subtree, List.prefix_append_right_inj]
  · have hpq : ¬ (p ++ q) <+: r := fun h => hp ((List.prefix_append p q).trans h)
    rw [View.graft_of_not_below hp, View.graft_of_not_below hpq]

theorem graft_without (p q : List κ) (m : View κ β) :
    View.graft p (View.without q (View.subtree p m)) m = View.without (p ++ q) m := by
  funext r
  by_cases hp : p <+: r
  · obtain ⟨s, rfl⟩ := hp
    rw [View.graft_below]
    simp [View.without, View.subtree, List.prefix_append_right_inj]
  · have hpq : ¬ (p ++ q) <+: r := fun h => hp ((List.prefix_append p q).trans h)
    rw [View.graft_of_not_below hp]
    simp [View.without, hpq]

theorem subtree_view {t s : FileTree κ β} {p : List κ} (h : t.at? p = some s) :
    View.subtree p t.view = s.view := by
  funext q
  exact view_append h q

/-- Assigning a child of the directory at `p` grafts at `p ++ [k]`. -/
theorem view_modifyAt_set (k : κ) (t : FileTree κ β) {p : List κ} {cs inner : List (κ × FileTree κ β)}
    (h : (FileTree.directory cs).at? p = some (.directory inner)) :
    (FileTree.directory (modifyAt (Dict.set k t) p cs)).view =
      View.graft (p ++ [k]) t.view (FileTree.directory cs).view := by
  rw [view_modifyAt _ h, view_set, ← subtree_view h, graft_graft]

/-- Deleting a child of the directory at `p` cuts `p ++ [k]`. -/
theorem view_modifyAt_erase (k : κ) {p : List κ} {cs inner : List (κ × FileTree κ β)}
    (h : (FileTree.directory cs).at? p = some (.directory inner)) (hinner : Dict.UniqueKeys inner) :
    (FileTree.directory (modifyAt (Dict.erase k) p cs)).view =
      View.without (p ++ [k]) (FileTree.directory cs).view := by
  rw [view_modifyAt _ h, view_erase hinner, ← subtree_view h, graft_without]

end Nested

/-! ## Section 4: Well-formed trees -/

/-- No dictionary of the tree has a key twice, and every name satisfies `P`. -/
inductive WellFormed (P : κ → Prop) : FileTree κ β → Prop
  | file (content : β) : WellFormed P (.file content)
  | directory {children : List (κ × FileTree κ β)} (unique : Dict.UniqueKeys children)
      (names : ∀ p ∈ children, P p.1) (subtrees : ∀ p ∈ children, WellFormed P p.2) :
      WellFormed P (.directory children)

namespace WellFormed

variable {P : κ → Prop}

theorem unique {cs : List (κ × FileTree κ β)} (h : WellFormed P (.directory cs)) :
    Dict.UniqueKeys cs := by
  cases h with
  | directory unique _ _ => exact unique

theorem names {cs : List (κ × FileTree κ β)} (h : WellFormed P (.directory cs)) :
    ∀ p ∈ cs, P p.1 := by
  cases h with
  | directory _ names _ => exact names

theorem subtrees {cs : List (κ × FileTree κ β)} (h : WellFormed P (.directory cs)) :
    ∀ p ∈ cs, WellFormed P p.2 := by
  cases h with
  | directory _ _ subtrees => exact subtrees

theorem empty : WellFormed P (.directory [] : FileTree κ β) :=
  .directory Dict.uniqueKeys_nil (by simp) (by simp)

variable [DecidableEq κ]

theorem at? {t s : FileTree κ β} {p : List κ} (ht : WellFormed P t) (h : t.at? p = some s) :
    WellFormed P s := by
  induction p generalizing t with
  | nil =>
    rw [at?_nil, Option.some.injEq] at h
    exact h ▸ ht
  | cons k p ih =>
    cases t with
    | file c => simp at h
    | directory cs =>
      rw [at?_directory_cons, Option.bind_eq_some_iff] at h
      obtain ⟨child, hk, hp⟩ := h
      exact ih (ht.subtrees _ (Dict.mem_of_get? hk)) hp

/-- Every name on a path held by the tree satisfies `P`. -/
theorem path {t : FileTree κ β} {p : List κ} (ht : WellFormed P t) (h : t.view p ≠ none) :
    ∀ k ∈ p, P k := by
  induction p generalizing t with
  | nil => simp
  | cons k p ih =>
    cases t with
    | file c => simp at h
    | directory cs =>
      rw [view_directory_cons] at h
      cases hk : Dict.get? k cs with
      | none => simp [hk] at h
      | some child =>
        simp only [hk, Option.bind_some] at h
        have hmem := Dict.mem_of_get? hk
        intro k' hk'
        rcases List.mem_cons.mp hk' with rfl | hk'
        · exact ht.names _ hmem
        · exact ih (ht.subtrees _ hmem) h k' hk'

/-- The names may be held to whatever every path of the tree satisfies. -/
theorem of_paths {Q : κ → Prop} {t : FileTree κ β} (ht : WellFormed P t)
    (h : ∀ p, t.view p ≠ none → ∀ k ∈ p, Q k) : WellFormed Q t := by
  induction t using FileTree.induct with
  | file c => exact .file c
  | directory cs ih =>
    have hview : ∀ c ∈ cs, ∀ p, (FileTree.directory cs).view (c.1 :: p) = c.2.view p := by
      intro c hc p
      rw [view_directory_cons, Dict.get?_of_mem ht.unique hc]
      rfl
    refine .directory ht.unique ?_ ?_
    · intro c hc
      exact h [c.1] (by rw [hview c hc]; simp) c.1 List.mem_cons_self
    · intro c hc
      refine ih c hc (ht.subtrees c hc) ?_
      intro p hp k hk
      exact h (c.1 :: p) (by rwa [hview c hc]) k (List.mem_cons_of_mem _ hk)

theorem mono {Q : κ → Prop} {t : FileTree κ β} (ht : WellFormed P t) (h : ∀ k, P k → Q k) :
    WellFormed Q t :=
  ht.of_paths fun _ hp k hk => h k (ht.path hp k hk)

theorem set {cs : List (κ × FileTree κ β)} (hcs : WellFormed P (.directory cs)) {k : κ} (hk : P k)
    {t : FileTree κ β} (ht : WellFormed P t) : WellFormed P (.directory (Dict.set k t cs)) := by
  refine .directory (Dict.uniqueKeys_set hcs.unique k t) ?_ ?_
  · intro p hp
    rcases Dict.mem_set hp with rfl | hp
    · exact hk
    · exact hcs.names p hp
  · intro p hp
    rcases Dict.mem_set hp with rfl | hp
    · exact ht
    · exact hcs.subtrees p hp

theorem erase {cs : List (κ × FileTree κ β)} (hcs : WellFormed P (.directory cs)) (k : κ) :
    WellFormed P (.directory (Dict.erase k cs)) :=
  .directory (Dict.uniqueKeys_erase hcs.unique k)
    (fun p hp => hcs.names p ((Dict.erase_sublist k cs).subset hp))
    (fun p hp => hcs.subtrees p ((Dict.erase_sublist k cs).subset hp))

/-- Well-formedness survives a change of one dictionary that keeps it. -/
theorem modifyAt {f : List (κ × FileTree κ β) → List (κ × FileTree κ β)}
    (hf : ∀ ds, WellFormed P (.directory ds) → WellFormed P (.directory (f ds)))
    (p : List κ) {cs : List (κ × FileTree κ β)} (hcs : WellFormed P (.directory cs)) :
    WellFormed P (.directory (FileTree.modifyAt f p cs)) := by
  induction p generalizing cs with
  | nil => exact hf cs hcs
  | cons k p ih =>
    unfold FileTree.modifyAt
    split
    · next inner hk =>
      have hmem := Dict.mem_of_get? hk
      exact hcs.set (hcs.names _ hmem) (ih (hcs.subtrees _ hmem))
    · exact hcs

end WellFormed

/-! ## Section 5: Measures -/

mutual

/-- The number of nodes. -/
def count : FileTree κ β → Nat
  | .file _ => 1
  | .directory children => 1 + countAll children

/-- The number of nodes of a list of children. -/
def countAll : List (κ × FileTree κ β) → Nat
  | [] => 0
  | (_, t) :: rest => count t + countAll rest

end

@[simp] theorem count_file (c : β) : (FileTree.file c : FileTree κ β).count = 1 := by
  simp [count]

theorem count_directory (cs : List (κ × FileTree κ β)) :
    (FileTree.directory cs).count = 1 + (cs.map fun p => p.2.count).sum := by
  rw [count]
  congr 1
  induction cs with
  | nil => rfl
  | cons p cs ih => rw [countAll, ih]; rfl

theorem count_pos (t : FileTree κ β) : 0 < t.count := by
  cases t with
  | file c => simp
  | directory cs => rw [count_directory]; omega

theorem count_child_lt {cs : List (κ × FileTree κ β)} {c : κ × FileTree κ β} (h : c ∈ cs) :
    c.2.count < (FileTree.directory cs).count := by
  rw [count_directory]
  have hle := List.le_sum_of_mem (List.mem_map.mpr ⟨c, h, rfl⟩ :
    c.2.count ∈ cs.map fun p => p.2.count)
  omega

theorem count_at?_le [DecidableEq κ] {t s : FileTree κ β} {p : List κ} (h : t.at? p = some s) :
    s.count ≤ t.count := by
  induction p generalizing t with
  | nil =>
    rw [at?_nil, Option.some.injEq] at h
    rw [h]
  | cons k p ih =>
    cases t with
    | file c => simp at h
    | directory cs =>
      rw [at?_directory_cons, Option.bind_eq_some_iff] at h
      obtain ⟨child, hk, hp⟩ := h
      exact (ih hp).trans (count_child_lt (Dict.mem_of_get? hk)).le

mutual

/-- The sum of a weight over the files. -/
def total (weight : β → Nat) : FileTree κ β → Nat
  | .file content => weight content
  | .directory children => totalAll weight children

/-- The sum of a weight over the files of a list of children. -/
def totalAll (weight : β → Nat) : List (κ × FileTree κ β) → Nat
  | [] => 0
  | (_, t) :: rest => total weight t + totalAll weight rest

end

@[simp] theorem total_file (weight : β → Nat) (c : β) :
    (FileTree.file c : FileTree κ β).total weight = weight c := by
  simp [total]

theorem total_directory (weight : β → Nat) (cs : List (κ × FileTree κ β)) :
    (FileTree.directory cs).total weight = (cs.map fun p => p.2.total weight).sum := by
  rw [total]
  induction cs with
  | nil => rfl
  | cons p cs ih => rw [totalAll, ih]; rfl

/-! ## Section 6: Deletions -/

section Deletions

variable [DecidableEq κ]

/-- Where the path leads to no directory nothing changes. -/
theorem modifyAt_skip {f : List (κ × FileTree κ β) → List (κ × FileTree κ β)} {k : κ} {p : List κ}
    {cs : List (κ × FileTree κ β)} (h : ∀ inner, Dict.get? k cs ≠ some (.directory inner)) :
    modifyAt f (k :: p) cs = cs := by
  unfold modifyAt
  split
  · next inner hk => exact absurd hk (h inner)
  · rfl

theorem get?_modifyAt_of_ne {f : List (κ × FileTree κ β) → List (κ × FileTree κ β)} {k k' : κ}
    (h : k' ≠ k) (p : List κ) (cs : List (κ × FileTree κ β)) :
    Dict.get? k' (modifyAt f (k :: p) cs) = Dict.get? k' cs := by
  unfold modifyAt
  split
  · exact Dict.get?_set_ne h _ _
  · rfl

/-- Changes below two children commute. -/
theorem modifyAt_comm_of_ne {f g : List (κ × FileTree κ β) → List (κ × FileTree κ β)} {a b : κ}
    (hab : a ≠ b) (p q : List κ) (cs : List (κ × FileTree κ β)) :
    modifyAt f (a :: p) (modifyAt g (b :: q) cs) = modifyAt g (b :: q) (modifyAt f (a :: p) cs) := by
  by_cases ha : ∃ inner, Dict.get? a cs = some (.directory inner)
  · obtain ⟨inner, ha⟩ := ha
    by_cases hb : ∃ inner, Dict.get? b cs = some (.directory inner)
    · obtain ⟨inner', hb⟩ := hb
      have ha' := (get?_modifyAt_of_ne (f := g) hab q cs).trans ha
      have hb' := (get?_modifyAt_of_ne (f := f) (Ne.symm hab) p cs).trans hb
      rw [modifyAt_cons ha', modifyAt_cons hb', modifyAt_cons ha, modifyAt_cons hb]
      exact Dict.set_set_of_mem hab (Dict.mem_keys_of_mem (Dict.mem_of_get? ha)) _ _
    · have hb : ∀ inner, Dict.get? b cs ≠ some (.directory inner) := fun inner h => hb ⟨inner, h⟩
      rw [modifyAt_skip hb, modifyAt_skip fun inner h =>
        hb inner ((get?_modifyAt_of_ne (Ne.symm hab) p cs).symm.trans h)]
  · have ha : ∀ inner, Dict.get? a cs ≠ some (.directory inner) := fun inner h => ha ⟨inner, h⟩
    rw [modifyAt_skip ha, modifyAt_skip fun inner h =>
      ha inner ((get?_modifyAt_of_ne hab q cs).symm.trans h)]

/-- An assignment and a deletion at paths that do not overlap commute. -/
theorem modifyAt_set_erase {k j : κ} {p q : List κ} (hkj : ¬ p ++ [k] <+: q ++ [j])
    (hjk : ¬ q ++ [j] <+: p ++ [k]) (t : FileTree κ β) (cs : List (κ × FileTree κ β)) :
    modifyAt (Dict.set k t) p (modifyAt (Dict.erase j) q cs) =
      modifyAt (Dict.erase j) q (modifyAt (Dict.set k t) p cs) := by
  induction p generalizing q cs with
  | nil =>
    cases q with
    | nil =>
      have hne : k ≠ j := by
        rintro rfl
        exact hkj (List.prefix_refl _)
      exact (Dict.erase_set_of_ne hne t cs).symm
    | cons b q =>
      have hne : b ≠ k := by
        rintro rfl
        exact hkj ⟨q ++ [j], rfl⟩
      show Dict.set k t (modifyAt _ _ cs) = modifyAt _ (b :: q) (Dict.set k t cs)
      unfold modifyAt
      rw [Dict.get?_set_ne hne]
      split
      · next inner hb =>
        have hmem : b ∈ Dict.keys cs := Dict.mem_keys_of_mem (Dict.mem_of_get? hb)
        exact (Dict.set_set_of_mem hne hmem _ _).symm
      · rfl
  | cons a p ih =>
    cases q with
    | nil =>
      have hne : a ≠ j := by
        rintro rfl
        exact hjk ⟨p ++ [k], rfl⟩
      show modifyAt _ (a :: p) (Dict.erase j cs) = Dict.erase j (modifyAt _ (a :: p) cs)
      unfold modifyAt
      rw [Dict.get?_erase_of_ne hne]
      split
      · exact (Dict.erase_set_of_ne hne _ cs).symm
      · rfl
    | cons b q =>
      by_cases hab : a = b
      · subst hab
        have hkj' : ¬ p ++ [k] <+: q ++ [j] := fun h => hkj (by simpa using h)
        have hjk' : ¬ q ++ [j] <+: p ++ [k] := fun h => hjk (by simpa using h)
        cases ha : Dict.get? a cs with
        | none => simp [modifyAt, ha]
        | some child =>
          cases child with
          | file c => simp [modifyAt, ha]
          | directory inner =>
            rw [modifyAt_cons ha, modifyAt_cons ha, modifyAt_cons (Dict.get?_set_self ..),
              modifyAt_cons (Dict.get?_set_self ..), Dict.set_set_self, Dict.set_set_self,
              ih hkj' hjk']
      · exact modifyAt_comm_of_ne hab p q cs

/-- A change of one child leaves alone what does not overlap with it. -/
theorem at?_modifyAt_of_apart {f : List (κ × FileTree κ β) → List (κ × FileTree κ β)} {k : κ}
    (hf : ∀ j, j ≠ k → ∀ cs, Dict.get? j (f cs) = Dict.get? j cs) {p q : List κ}
    (hkq : ¬ p ++ [k] <+: q) (hqk : ¬ q <+: p ++ [k]) (cs : List (κ × FileTree κ β)) :
    (FileTree.directory (modifyAt f p cs)).at? q = (FileTree.directory cs).at? q := by
  induction p generalizing q cs with
  | nil =>
    cases q with
    | nil => exact absurd List.nil_prefix hqk
    | cons j q =>
      have hne : j ≠ k := by
        rintro rfl
        exact hkq ⟨q, rfl⟩
      show (FileTree.directory (f cs)).at? (j :: q) = _
      rw [at?_directory_cons, at?_directory_cons, hf j hne]
  | cons a p ih =>
    cases q with
    | nil => exact absurd List.nil_prefix hqk
    | cons b q =>
      rw [at?_directory_cons, at?_directory_cons]
      by_cases hab : b = a
      · subst hab
        have hkq' : ¬ p ++ [k] <+: q := fun h => hkq (by simpa using h)
        have hqk' : ¬ q <+: p ++ [k] := fun h => hqk (by simpa using h)
        by_cases hb : ∃ inner, Dict.get? b cs = some (.directory inner)
        · obtain ⟨inner, hb⟩ := hb
          rw [modifyAt_cons hb, Dict.get?_set_self, hb]
          exact ih hkq' hqk' inner
        · rw [modifyAt_skip fun inner h => hb ⟨inner, h⟩]
      · rw [get?_modifyAt_of_ne hab]

/-- What is assigned is found where it was assigned. -/
theorem at?_modifyAt_set_self {k : κ} {p : List κ} (t : FileTree κ β)
    {cs inner : List (κ × FileTree κ β)}
    (h : (FileTree.directory cs).at? p = some (.directory inner)) :
    (FileTree.directory (modifyAt (Dict.set k t) p cs)).at? (p ++ [k]) = some t := by
  induction p generalizing cs with
  | nil =>
    show (FileTree.directory (Dict.set k t cs)).at? [k] = _
    rw [at?_directory_cons, Dict.get?_set_self]
    simp
  | cons a p ih =>
    rw [at?_directory_cons, Option.bind_eq_some_iff] at h
    obtain ⟨child, ha, hp⟩ := h
    cases child with
    | file c => cases p <;> simp at hp
    | directory ds =>
      rw [modifyAt_cons ha, List.cons_append, at?_directory_cons, Dict.get?_set_self]
      exact ih hp

/-- A child that becomes no greater makes the sum no greater. -/
theorem sum_set_le {m : FileTree κ β → Nat} {k : κ} {t t' : FileTree κ β}
    {cs : List (κ × FileTree κ β)} (hk : Dict.get? k cs = some t) (h : m t' ≤ m t) :
    ((Dict.set k t' cs).map fun c => m c.2).sum ≤ (cs.map fun c => m c.2).sum := by
  induction cs with
  | nil => cases hk
  | cons c cs ih =>
    by_cases hc : c.1 = k
    · rw [Dict.get?, if_pos hc, Option.some.injEq] at hk
      rw [Dict.set, if_pos hc, List.map_cons, List.map_cons, List.sum_cons, List.sum_cons, hk]
      exact Nat.add_le_add_right h _
    · rw [Dict.get?, if_neg hc] at hk
      have := ih hk
      rw [Dict.set, if_neg hc, List.map_cons, List.map_cons, List.sum_cons, List.sum_cons]
      exact Nat.add_le_add_left this _

/-- A measure that adds up over the children does not grow by a deletion. -/
theorem measure_erase_le {m : FileTree κ β → Nat} {base : Nat}
    (hm : ∀ cs, m (.directory cs) = base + (cs.map fun c => m c.2).sum) (k : κ) (p : List κ)
    (cs : List (κ × FileTree κ β)) :
    m (.directory (modifyAt (Dict.erase k) p cs)) ≤ m (.directory cs) := by
  induction p generalizing cs with
  | nil =>
    rw [hm, hm]
    have hsub := (Dict.erase_sublist k cs).map fun c => m c.2
    have := hsub.sum_le_sum fun _ _ => Nat.zero_le _
    show base + ((Dict.erase k cs).map fun c => m c.2).sum ≤ _
    omega
  | cons a p ih =>
    unfold modifyAt
    split
    · next inner ha =>
      rw [hm, hm]
      have := sum_set_le ha (ih inner)
      omega
    · exact le_rfl

end Deletions

/-! ## Section 7: Every node with its path -/

mutual

/-- The nodes of a tree with their paths, the tree itself at `p`. -/
def listing (p : List κ) : FileTree κ β → List (List κ × Entry β)
  | .file content => [(p, .file content)]
  | .directory children => (p, .directory) :: listingAll p children

/-- The nodes below `p`, child by child. -/
def listingAll (p : List κ) : List (κ × FileTree κ β) → List (List κ × Entry β)
  | [] => []
  | (k, t) :: rest => listing (p ++ [k]) t ++ listingAll p rest

end

@[simp] theorem listing_file (p : List κ) (c : β) :
    (FileTree.file c : FileTree κ β).listing p = [(p, .file c)] := by
  simp [listing]

theorem listingAll_eq_flatMap (p : List κ) (cs : List (κ × FileTree κ β)) :
    listingAll p cs = cs.flatMap fun q => q.2.listing (p ++ [q.1]) := by
  induction cs with
  | nil => simp [listingAll]
  | cons q cs ih => rw [listingAll, ih]; rfl

theorem listing_directory (p : List κ) (cs : List (κ × FileTree κ β)) :
    (FileTree.directory cs).listing p =
      (p, .directory) :: cs.flatMap fun q => q.2.listing (p ++ [q.1]) := by
  rw [listing, listingAll_eq_flatMap]

theorem length_listing (t : FileTree κ β) (p : List κ) : (t.listing p).length = t.count := by
  induction t using FileTree.induct generalizing p with
  | file c => simp
  | directory cs ih =>
    rw [listing_directory, count_directory, List.length_cons, List.length_flatMap, Nat.add_comm]
    congr 2
    exact List.map_congr_left fun q hq => ih q hq _

/-- Every listed path extends the start. -/
theorem prefix_of_mem_listing {t : FileTree κ β} {p q : List κ} {e : Entry β}
    (h : (q, e) ∈ t.listing p) : p <+: q := by
  induction t using FileTree.induct generalizing p with
  | file c =>
    simp only [listing_file, List.mem_singleton, Prod.mk.injEq] at h
    exact h.1 ▸ List.prefix_refl _
  | directory cs ih =>
    simp only [listing_directory, List.mem_cons, List.mem_flatMap, Prod.mk.injEq] at h
    rcases h with ⟨rfl, -⟩ | ⟨c, hc, h⟩
    · exact List.prefix_refl _
    · exact (List.prefix_append p [c.1]).trans (ih c hc h)

variable [DecidableEq κ]

/-- The listing is the graph of the map. -/
theorem mem_listing_iff {P : κ → Prop} {t : FileTree κ β} (ht : WellFormed P t) {p q : List κ}
    {e : Entry β} : (p ++ q, e) ∈ t.listing p ↔ t.view q = some e := by
  induction t using FileTree.induct generalizing p q with
  | file c =>
    cases q <;> simp [eq_comm]
  | directory cs ih =>
    cases q with
    | nil =>
      simp only [List.append_nil, listing_directory, List.mem_cons, List.mem_flatMap, view_nil,
        entry_directory, Option.some.injEq, Prod.mk.injEq, true_and]
      constructor
      · rintro (rfl | ⟨c, _, hc⟩)
        · rfl
        · have := (prefix_of_mem_listing hc).length_le
          simp at this
      · rintro rfl
        exact .inl rfl
    | cons k q =>
      rw [view_directory_cons, Option.bind_eq_some_iff]
      simp only [listing_directory, List.mem_cons, List.mem_flatMap, Prod.mk.injEq,
        List.append_right_eq_self, reduceCtorEq, false_and, false_or]
      constructor
      · rintro ⟨⟨k', child⟩, hc, h⟩
        have hk : k' = k := by
          have := prefix_of_mem_listing h
          simpa [List.prefix_append_right_inj] using this
        subst hk
        rw [show p ++ k' :: q = (p ++ [k']) ++ q by simp] at h
        exact ⟨child, Dict.get?_of_mem ht.unique hc, (ih _ hc (ht.subtrees _ hc)).mp h⟩
      · rintro ⟨child, hk, h⟩
        have hc := Dict.mem_of_get? hk
        refine ⟨(k, child), hc, ?_⟩
        rw [show p ++ k :: q = (p ++ [k]) ++ q by simp]
        exact (ih _ hc (ht.subtrees _ hc)).mpr h

omit [DecidableEq κ] in
/-- No path is listed twice. -/
theorem nodup_listing {P : κ → Prop} {t : FileTree κ β} (ht : WellFormed P t) (p : List κ) :
    ((t.listing p).map Prod.fst).Nodup := by
  induction t using FileTree.induct generalizing p with
  | file c => simp
  | directory cs ih =>
    rw [listing_directory, List.map_cons, List.nodup_cons, List.map_flatMap]
    constructor
    · simp only [List.mem_flatMap, List.mem_map, not_exists, not_and]
      rintro c hc ⟨q, e⟩ hq rfl
      have := (prefix_of_mem_listing hq).length_le
      simp at this
    · rw [List.nodup_flatMap]
      refine ⟨fun c hc => ih c hc (ht.subtrees c hc) _, ?_⟩
      have hkeys : cs.Pairwise fun a b => a.1 ≠ b.1 := by
        have := ht.unique
        rwa [Dict.UniqueKeys, Dict.keys, List.Nodup, List.pairwise_map] at this
      refine hkeys.imp ?_
      intro a b hne q ha hb
      simp only [List.mem_map] at ha hb
      obtain ⟨⟨_, ea⟩, ha, rfl⟩ := ha
      obtain ⟨⟨q, eb⟩, hb, heq⟩ := hb
      simp only at heq
      subst heq
      have hpa := prefix_of_mem_listing ha
      have hpb := prefix_of_mem_listing hb
      have := List.prefix_of_prefix_length_le hpa hpb (by simp)
      rw [List.prefix_append_right_inj] at this
      simp at this
      exact hne this

/-- The filesystem a directory denotes. -/
def toFileMap {P : κ → Prop} (cs : List (κ × FileTree κ β)) (h : WellFormed P (.directory cs)) :
    FileMap κ β where
  entry := (FileTree.directory cs).view
  root_directory := by simp
  parent_directory := by
    intro p k hk
    simp only [ne_eq, view_eq_none_iff, at?_append] at hk
    cases hp : (FileTree.directory cs).at? p with
    | none => simp [hp] at hk
    | some s =>
      cases s with
      | file c => simp [hp] at hk
      | directory ds => exact view_eq_directory_iff.mpr ⟨ds, hp⟩
  finite := by
    refine (((FileTree.directory cs).listing []).map Prod.fst).toFinset.finite_toSet.subset ?_
    intro p hp
    obtain ⟨e, he⟩ := Option.ne_none_iff_exists'.mp hp
    have := (mem_listing_iff h (p := []) (q := p)).mpr he
    simp only [List.coe_toFinset, List.mem_map, Set.mem_ofPred_eq]
    exact ⟨(p, e), this, rfl⟩

/-! ## Section 8: Trees with the same map -/

omit [DecidableEq κ] in
/-- The total is the sum over the listing. -/
theorem total_eq_listing (weight : β → Nat) (t : FileTree κ β) (p : List κ) :
    t.total weight = ((t.listing p).map fun q => q.2.weight weight).sum := by
  induction t using FileTree.induct generalizing p with
  | file c => simp [Entry.weight]
  | directory cs ih =>
    rw [listing_directory, total_directory, List.map_cons, List.sum_cons, List.map_flatMap,
      List.flatMap_def, List.sum_flatten, List.map_map]
    have hsums : cs.map (fun q => q.2.total weight) =
        cs.map (List.sum ∘ fun q => (q.2.listing (p ++ [q.1])).map fun r => r.2.weight weight) :=
      List.map_congr_left fun q hq => ih q hq _
    rw [hsums]
    simp [Entry.weight]

omit [DecidableEq κ] in
/-- What a listing holds lies below its start. -/
theorem exists_of_mem_listing {t : FileTree κ β} {p : List κ} {item : List κ × Entry β}
    (h : item ∈ t.listing p) : ∃ q, item = (p ++ q, item.2) := by
  obtain ⟨q, hq⟩ := prefix_of_mem_listing h
  exact ⟨q, by rw [hq]⟩

/-- The listing is determined by the map, up to its order. -/
theorem listing_perm {P Q : κ → Prop} {t t' : FileTree κ β} (ht : WellFormed P t)
    (ht' : WellFormed Q t') (h : t.view = t'.view) (p : List κ) :
    (t.listing p).Perm (t'.listing p) := by
  rw [List.perm_ext_iff_of_nodup (nodup_listing ht p).of_map (nodup_listing ht' p).of_map]
  intro item
  constructor
  · intro hitem
    obtain ⟨q, hq⟩ := exists_of_mem_listing hitem
    rw [hq] at hitem ⊢
    rw [mem_listing_iff ht] at hitem
    rw [mem_listing_iff ht', ← h]
    exact hitem
  · intro hitem
    obtain ⟨q, hq⟩ := exists_of_mem_listing hitem
    rw [hq] at hitem ⊢
    rw [mem_listing_iff ht'] at hitem
    rw [mem_listing_iff ht, h]
    exact hitem

theorem count_eq_of_view {P Q : κ → Prop} {t t' : FileTree κ β} (ht : WellFormed P t)
    (ht' : WellFormed Q t') (h : t.view = t'.view) : t.count = t'.count := by
  rw [← length_listing t [], ← length_listing t' []]
  exact (listing_perm ht ht' h []).length_eq

theorem total_eq_of_view {P Q : κ → Prop} {t t' : FileTree κ β} (ht : WellFormed P t)
    (ht' : WellFormed Q t') (h : t.view = t'.view) (weight : β → Nat) :
    t.total weight = t'.total weight := by
  rw [total_eq_listing weight t [], total_eq_listing weight t' []]
  exact ((listing_perm ht ht' h []).map _).sum_eq

theorem view_child {P : κ → Prop} {cs : List (κ × FileTree κ β)}
    (hcs : WellFormed P (.directory cs)) {c : κ × FileTree κ β} (hc : c ∈ cs) (q : List κ) :
    (FileTree.directory cs).view (c.1 :: q) = c.2.view q := by
  rw [view_directory_cons, Dict.get?_of_mem hcs.unique hc]
  rfl

/-- Directories with the same map have, up to order, the same names, and below
    each name the same map. -/
theorem children_of_view {P Q : κ → Prop} {cs cs' : List (κ × FileTree κ β)}
    (hcs : WellFormed P (.directory cs)) (hcs' : WellFormed Q (.directory cs'))
    (h : (FileTree.directory cs).view = (FileTree.directory cs').view) :
    ∃ matched, matched.Perm cs' ∧
      List.Forall₂ (fun c c' => c.1 = c'.1 ∧ c.2.view = c'.2.view) cs matched := by
  have hfound : ∀ c ∈ cs, ∃ child, Dict.get? c.1 cs' = some child ∧ c.2.view = child.view := by
    intro c hc
    have hview : ∀ q, c.2.view q = (Dict.get? c.1 cs').bind (·.view q) := by
      intro q
      rw [← view_child hcs hc, h, view_directory_cons]
    cases hget : Dict.get? c.1 cs' with
    | none =>
      have hnil := hview []
      rw [hget, view_nil] at hnil
      cases hnil
    | some child =>
      refine ⟨child, rfl, ?_⟩
      funext q
      rw [hview q, hget]
      rfl
  refine ⟨cs.map fun c => (c.1, (Dict.get? c.1 cs').getD c.2), ?_, ?_⟩
  · have hkeys : ((cs.map fun c => (c.1, (Dict.get? c.1 cs').getD c.2)).map Prod.fst).Nodup := by
      rw [List.map_map]
      exact hcs.unique
    rw [List.perm_ext_iff_of_nodup hkeys.of_map (List.Nodup.of_map _ hcs'.unique)]
    intro item
    constructor
    · intro hitem
      obtain ⟨c, hc, rfl⟩ := List.mem_map.mp hitem
      obtain ⟨child, hget, -⟩ := hfound c hc
      rw [hget]
      exact Dict.mem_of_get? hget
    · intro hitem
      have hthere : (FileTree.directory cs).view [item.1] ≠ none := by
        rw [h, view_child hcs' hitem, view_nil]
        simp
      rw [view_directory_cons] at hthere
      cases hget : Dict.get? item.1 cs with
      | none => simp [hget] at hthere
      | some child =>
        refine List.mem_map.mpr ⟨_, Dict.mem_of_get? hget, ?_⟩
        rw [Dict.get?_of_mem hcs'.unique hitem]
        rfl
  · rw [List.forall₂_map_right_iff, List.forall₂_same]
    intro c hc
    obtain ⟨child, hget, hview⟩ := hfound c hc
    rw [hget]
    exact ⟨rfl, hview⟩

end FileTree
