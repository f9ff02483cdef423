import Mathlib.Tactic
import Mathlib.Data.Rat.Defs
import Mathlib.Data.List.Sort

/-! # Insertion-ordered dictionaries

    A Python `dict` keeps its keys in insertion order, assigns in place to a
    key it has and appends a key it has not.  It is modelled by the list of
    its items; `UniqueKeys` is the invariant that `set` and `erase` keep. -/

namespace Dict

variable {κ : Type u} {ν : Type v} [DecidableEq κ]

/-- `d[k] = v`. -/
def set (k : κ) (v : ν) : List (κ × ν) → List (κ × ν)
  | [] => [(k, v)]
  | (k', v') :: rest => if k' = k then (k, v) :: rest else (k', v') :: set k v rest

/-- `d.get(k)`. -/
def get? (k : κ) : List (κ × ν) → Option ν
  | [] => none
  | (k', v) :: rest => if k' = k then some v else get? k rest

/-- `del d[k]`, which is a no-op here when the key is absent. -/
def erase (k : κ) : List (κ × ν) → List (κ × ν)
  | [] => []
  | (k', v) :: rest => if k' = k then rest else (k', v) :: erase k rest

/-- The keys in insertion order. -/
def keys (d : List (κ × ν)) : List κ := d.map Prod.fst

/-- No key occurs twice. -/
def UniqueKeys (d : List (κ × ν)) : Prop := (keys d).Nodup

omit [DecidableEq κ] in
@[simp] theorem keys_nil : keys ([] : List (κ × ν)) = [] := rfl

omit [DecidableEq κ] in
@[simp] theorem keys_cons (p : κ × ν) (d : List (κ × ν)) : keys (p :: d) = p.1 :: keys d := rfl

omit [DecidableEq κ] in
@[simp] theorem uniqueKeys_nil : UniqueKeys ([] : List (κ × ν)) := List.nodup_nil

omit [DecidableEq κ] in
theorem uniqueKeys_cons {p : κ × ν} {d : List (κ × ν)} :
    UniqueKeys (p :: d) ↔ p.1 ∉ keys d ∧ UniqueKeys d := by
  simp [UniqueKeys]

omit [DecidableEq κ] in
theorem mem_keys_of_mem {p : κ × ν} {d : List (κ × ν)} (h : p ∈ d) : p.1 ∈ keys d :=
  List.mem_map_of_mem h

/-! ## Lookups -/

@[simp] theorem get?_nil (k : κ) : get? k ([] : List (κ × ν)) = none := rfl

@[simp] theorem get?_set_self (k : κ) (v : ν) (d : List (κ × ν)) : get? k (set k v d) = some v := by
  induction d with
  | nil => simp [set, get?]
  | cons p d ih =>
    by_cases h : p.1 = k
    · simp [set, get?, h]
    · simp [set, get?, h, ih]

theorem get?_set_ne {k k' : κ} (h : k' ≠ k) (v : ν) (d : List (κ × ν)) :
    get? k' (set k v d) = get? k' d := by
  induction d with
  | nil => simp [set, get?, Ne.symm h]
  | cons p d ih =>
    by_cases hk : p.1 = k
    · subst hk
      simp [set, get?, Ne.symm h]
    · simp [set, get?, hk, ih]

theorem get?_set (k k' : κ) (v : ν) (d : List (κ × ν)) :
    get? k' (set k v d) = if k' = k then some v else get? k' d := by
  split
  · next h => rw [h, get?_set_self]
  · next h => exact get?_set_ne h v d

theorem get?_eq_none_iff {k : κ} {d : List (κ × ν)} : get? k d = none ↔ k ∉ keys d := by
  induction d with
  | nil => simp
  | cons p d ih =>
    by_cases h : p.1 = k
    · simp [get?, h]
    · simp [get?, h, ih, Ne.symm h]

theorem mem_of_get? {k : κ} {v : ν} {d : List (κ × ν)} (h : get? k d = some v) : (k, v) ∈ d := by
  induction d with
  | nil => simp at h
  | cons p d ih =>
    by_cases hk : p.1 = k
    · subst hk
      simp only [get?, if_pos, Option.some.injEq] at h
      subst h
      exact List.mem_cons_self
    · simp only [get?, if_neg hk] at h
      exact List.mem_cons_of_mem _ (ih h)

theorem get?_of_mem {k : κ} {v : ν} {d : List (κ × ν)} (hd : UniqueKeys d) (h : (k, v) ∈ d) :
    get? k d = some v := by
  induction d with
  | nil => cases h
  | cons p d ih =>
    obtain ⟨hp, hd⟩ := uniqueKeys_cons.mp hd
    rcases List.mem_cons.mp h with rfl | h
    · simp [get?]
    · have hne : p.1 ≠ k := fun heq => hp (heq ▸ mem_keys_of_mem h)
      simp [get?, hne, ih hd h]

theorem get?_eq_some_iff {k : κ} {v : ν} {d : List (κ × ν)} (hd : UniqueKeys d) :
    get? k d = some v ↔ (k, v) ∈ d :=
  ⟨mem_of_get?, get?_of_mem hd⟩

/-- Two duplicate-free listings of one dictionary answer every lookup alike. -/
theorem get?_perm {d e : List (κ × ν)} (hd : UniqueKeys d) (h : d.Perm e) (k : κ) :
    get? k d = get? k e := by
  have he : UniqueKeys e := (h.map Prod.fst).nodup_iff.mp hd
  ext v
  rw [get?_eq_some_iff hd, get?_eq_some_iff he, h.mem_iff]

/-! ## Updates -/

theorem keys_set (k : κ) (v : ν) (d : List (κ × ν)) :
    keys (set k v d) = if k ∈ keys d then keys d else keys d ++ [k] := by
  induction d with
  | nil => simp [set]
  | cons p d ih =>
    by_cases h : p.1 = k
    · simp [set, h]
    · by_cases hk : k ∈ keys d <;> simp [set, h, ih, hk, Ne.symm h]

/-- A new key goes to the end. -/
theorem set_of_not_mem {k : κ} {d : List (κ × ν)} (h : k ∉ keys d) (v : ν) :
    set k v d = d ++ [(k, v)] := by
  induction d with
  | nil => rfl
  | cons p d ih =>
    rw [keys_cons, List.mem_cons, not_or] at h
    rw [set, if_neg (Ne.symm h.1), ih h.2, List.cons_append]

theorem uniqueKeys_set {d : List (κ × ν)} (hd : UniqueKeys d) (k : κ) (v : ν) :
    UniqueKeys (set k v d) := by
  unfold UniqueKeys
  rw [keys_set]
  split
  · exact hd
  · next h =>
    refine List.nodup_append.mpr ⟨hd, List.nodup_singleton k, ?_⟩
    intro a ha b hb
    rw [List.mem_singleton] at hb
    exact fun heq => h (hb ▸ heq ▸ ha)

theorem mem_set {k : κ} {v : ν} {d : List (κ × ν)} {p : κ × ν} (h : p ∈ set k v d) :
    p = (k, v) ∨ p ∈ d := by
  induction d with
  | nil => simpa [set] using h
  | cons q d ih =>
    by_cases hk : q.1 = k
    · simp only [set, if_pos hk, List.mem_cons] at h
      rcases h with h | h
      · exact .inl h
      · exact .inr (List.mem_cons_of_mem _ h)
    · simp only [set, if_neg hk, List.mem_cons] at h
      rcases h with h | h
      · exact .inr (h ▸ List.mem_cons_self)
      · exact (ih h).imp_right (List.mem_cons_of_mem _)

theorem erase_sublist (k : κ) (d : List (κ × ν)) : (erase k d).Sublist d := by
  induction d with
  | nil => exact List.Sublist.slnil
  | cons p d ih =>
    by_cases h : p.1 = k
    · simp [erase, h]
    · simp [erase, h, ih]

theorem erase_of_not_mem {k : κ} {d : List (κ × ν)} (h : k ∉ keys d) : erase k d = d := by
  induction d with
  | nil => rfl
  | cons p d ih =>
    rw [keys_cons, List.mem_cons, not_or] at h
    rw [erase, if_neg (Ne.symm h.1), ih h.2]

theorem uniqueKeys_erase {d : List (κ × ν)} (hd : UniqueKeys d) (k : κ) :
    UniqueKeys (erase k d) :=
  List.Nodup.sublist ((erase_sublist k d).map Prod.fst) hd

theorem erase_perm {k : κ} {v : ν} {d : List (κ × ν)} (h : get? k d = some v) :
    d.Perm ((k, v) :: erase k d) := by
  induction d with
  | nil => cases h
  | cons p d ih =>
    by_cases hk : p.1 = k
    · subst hk
      simp only [get?, if_pos, Option.some.injEq] at h
      subst h
      simp [erase]
    · simp only [get?, if_neg hk] at h
      simp only [erase, if_neg hk]
      exact ((ih h).cons p).trans (List.Perm.swap _ _ _)

theorem get?_erase {d : List (κ × ν)} (hd : UniqueKeys d) (k k' : κ) :
    get? k' (erase k d) = if k' = k then none else get? k' d := by
  induction d with
  | nil => simp [erase]
  | cons p d ih =>
    obtain ⟨hp, hd⟩ := uniqueKeys_cons.mp hd
    by_cases h : p.1 = k
    · subst h
      by_cases hk : k' = p.1
      · simp [erase, hk, get?_eq_none_iff, hp]
      · simp [erase, get?, hk, Ne.symm hk]
    · by_cases hk : p.1 = k'
      · subst hk
        simp [erase, get?, h]
      · simp [erase, get?, h, hk, ih hd]

theorem mem_set_iff {d : List (κ × ν)} (hd : UniqueKeys d) {k : κ} {v : ν} {p : κ × ν} :
    p ∈ set k v d ↔ p = (k, v) ∨ (p ∈ d ∧ p.1 ≠ k) := by
  obtain ⟨k', v'⟩ := p
  rw [← get?_eq_some_iff (uniqueKeys_set hd k v), ← get?_eq_some_iff hd, get?_set, Prod.mk.injEq]
  by_cases h : k' = k
  · simp [h, eq_comm]
  · simp [h]

theorem mem_erase_iff {d : List (κ × ν)} (hd : UniqueKeys d) {k : κ} {p : κ × ν} :
    p ∈ erase k d ↔ p ∈ d ∧ p.1 ≠ k := by
  obtain ⟨k', v'⟩ := p
  rw [← get?_eq_some_iff (uniqueKeys_erase hd k), ← get?_eq_some_iff hd, get?_erase hd]
  by_cases h : k' = k
  · simp [h]
  · simp [h]

/-! ## Updates at two keys -/

theorem set_set_self (k : κ) (v v' : ν) (d : List (κ × ν)) : set k v (set k v' d) = set k v d := by
  induction d with
  | nil => simp [set]
  | cons p d ih =>
    by_cases h : p.1 = k
    · simp [set, h]
    · simp [set, h, ih]

/-- Assignments in place commute with assignments to other keys. -/
theorem set_set_of_mem {k k' : κ} (h : k ≠ k') {d : List (κ × ν)} (hk : k ∈ keys d) (v v' : ν) :
    set k v (set k' v' d) = set k' v' (set k v d) := by
  induction d with
  | nil => cases hk
  | cons p d ih =>
    by_cases hp : p.1 = k
    · have hne : p.1 ≠ k' := hp ▸ h
      simp [set, hp, h]
    · have hmem : k ∈ keys d := by
        rw [keys_cons, List.mem_cons] at hk
        exact hk.resolve_left (Ne.symm hp)
      by_cases hp' : p.1 = k'
      · simp [set, hp', Ne.symm h]
      · simp [set, hp, hp', ih hmem]

theorem erase_set_of_ne {k k' : κ} (h : k' ≠ k) (v : ν) (d : List (κ × ν)) :
    erase k (set k' v d) = set k' v (erase k d) := by
  induction d with
  | nil => simp [set, erase, h]
  | cons p d ih =>
    by_cases hp : p.1 = k
    · have hne : p.1 ≠ k' := fun heq => h (heq.symm.trans hp)
      simp [set, erase, hp, Ne.symm h]
    · by_cases hp' : p.1 = k'
      · simp [set, erase, hp', h]
      · simp [set, erase, hp, hp', ih]

theorem get?_erase_of_ne {k k' : κ} (h : k' ≠ k) (d : List (κ × ν)) :
    get? k' (erase k d) = get? k' d := by
  induction d with
  | nil => rfl
  | cons p d ih =>
    by_cases hp : p.1 = k
    · simp [erase, get?, hp, Ne.symm h]
    · by_cases hp' : p.1 = k'
      · simp [erase, get?, hp', h]
      · simp [erase, get?, hp, hp', ih]

theorem erase_eq_filter {d : List (κ × ν)} (hd : UniqueKeys d) (k : κ) :
    erase k d = d.filter fun p => decide (p.1 ≠ k) := by
  induction d with
  | nil => rfl
  | cons p d ih =>
    obtain ⟨hp, hd⟩ := uniqueKeys_cons.mp hd
    by_cases h : p.1 = k
    · have hall : d.filter (fun p => decide (p.1 ≠ k)) = d := by
        rw [List.filter_eq_self]
        intro q hq
        have : q.1 ≠ k := fun heq => hp (h ▸ heq ▸ mem_keys_of_mem hq)
        simpa using this
      rw [erase, if_pos h, List.filter_cons_of_neg (by simpa using h), hall]
    · rw [erase, if_neg h, List.filter_cons_of_pos (by simpa using h), ih hd]

theorem set_eq_map {d : List (κ × ν)} (hd : UniqueKeys d) {k : κ} (hk : k ∈ keys d) (v : ν) :
    set k v d = d.map fun p => if p.1 = k then (k, v) else p := by
  induction d with
  | nil => cases hk
  | cons p d ih =>
    obtain ⟨hp, hd⟩ := uniqueKeys_cons.mp hd
    by_cases h : p.1 = k
    · have hall : d.map (fun p => if p.1 = k then (k, v) else p) = d := by
        refine (List.map_congr_left ?_).trans (List.map_id d)
        intro q hq
        have hne : q.1 ≠ k := fun heq => hp (h ▸ heq ▸ mem_keys_of_mem hq)
        rw [if_neg hne]
        rfl
      simp [set, h, hall]
    · have hmem : k ∈ keys d := by
        rw [keys_cons, List.mem_cons] at hk
        exact hk.resolve_left (Ne.symm h)
      simp [set, h, ih hd hmem]

end Dict
