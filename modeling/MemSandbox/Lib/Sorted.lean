import Mathlib.Tactic
import Mathlib.Data.Rat.Defs
import Mathlib.Data.List.Sort

/-! # Sorting by a key

    `sorted(items, key=key)`: a stable sort.  The result is determined by the
    items up to their order when the key tells them apart, which is what lets
    two traversals in different orders agree. -/

namespace Python

variable {α : Type u} {β : Type v} [LinearOrder β]

/-- `sorted(items, key=key)`. -/
def sorted (key : α → β) (items : List α) : List α :=
  items.insertionSort fun a b => key a ≤ key b

theorem sorted_perm (key : α → β) (items : List α) : (sorted key items).Perm items :=
  List.perm_insertionSort _ items

@[simp] theorem mem_sorted {key : α → β} {items : List α} {a : α} : a ∈ sorted key items ↔ a ∈ items :=
  (sorted_perm key items).mem_iff

@[simp] theorem length_sorted (key : α → β) (items : List α) :
    (sorted key items).length = items.length :=
  (sorted_perm key items).length_eq

theorem sorted_pairwise (key : α → β) (items : List α) :
    (sorted key items).Pairwise fun a b => key a ≤ key b := by
  have : Std.Total fun a b : α => key a ≤ key b := ⟨fun a b => le_total (key a) (key b)⟩
  have : IsTrans α fun a b : α => key a ≤ key b := ⟨fun _ _ _ => le_trans⟩
  exact List.pairwise_insertionSort _ items

/-- A sort of items with distinct keys is strictly increasing. -/
theorem sorted_pairwise_lt {key : α → β} {items : List α} (h : (items.map key).Nodup) :
    (sorted key items).Pairwise fun a b => key a < key b := by
  have hnodup : ((sorted key items).map key).Nodup :=
    ((sorted_perm key items).map key).nodup_iff.mpr h
  rw [List.Nodup, List.pairwise_map] at hnodup
  exact (sorted_pairwise key items).imp₂ (fun _ _ hle hne => lt_of_le_of_ne hle hne) hnodup

/-- The sort is stable: items of one key keep their order. -/
theorem sorted_filter (key : α → β) (items : List α) (k : β) :
    (sorted key items).filter (key · = k) = items.filter (key · = k) := by
  have : Std.Total fun a b : α => key a ≤ key b := ⟨fun a b => le_total (key a) (key b)⟩
  have : IsTrans α fun a b : α => key a ≤ key b := ⟨fun _ _ _ => le_trans⟩
  have hequal : (items.filter (key · = k)).Pairwise fun a b => key a ≤ key b := by
    refine List.pairwise_of_forall_mem_list fun a ha b hb => ?_
    rw [of_decide_eq_true (List.mem_filter.mp ha).2, of_decide_eq_true (List.mem_filter.mp hb).2]
  have hsub : (items.filter (key · = k)).Sublist (sorted key items) :=
    List.sublist_insertionSort hequal List.filter_sublist
  have hsub' := hsub.filter (key · = k)
  simp only [List.filter_filter, Bool.and_self] at hsub'
  exact (hsub'.eq_of_length ((sorted_perm key items).filter _).length_eq.symm).symm

/-- A list that is strictly increasing is sorted already. -/
theorem sorted_eq_self {key : α → β} {items : List α}
    (h : items.Pairwise fun a b => key a ≤ key b) : sorted key items = items :=
  List.Pairwise.insertionSort_eq h

/-- Items that their keys tell apart sort the same way in whatever order they come. -/
theorem sorted_eq_of_perm {key : α → β} {items items' : List α}
    (hinj : ∀ a ∈ items, ∀ b ∈ items, key a = key b → a = b) (h : items.Perm items') :
    sorted key items = sorted key items' := by
  have hperm : (sorted key items).Perm (sorted key items') :=
    (sorted_perm _ _).trans (h.trans (sorted_perm _ _).symm)
  refine List.Perm.eq_of_pairwise ?_ (sorted_pairwise key items) (sorted_pairwise key items') hperm
  intro a b ha hb hab hba
  exact hinj a (mem_sorted.mp ha) b (h.mem_iff.mpr (mem_sorted.mp hb)) (le_antisymm hab hba)

omit [LinearOrder β] in
theorem key_inj_of_nodup {key : α → β} {items : List α} (h : (items.map key).Nodup) :
    ∀ a ∈ items, ∀ b ∈ items, key a = key b → a = b :=
  fun _ ha _ hb heq => List.inj_on_of_nodup_map h ha hb heq

/-- A selection of items with distinct keys is sorted as the items are. -/
theorem sorted_filter_of_nodup {key : α → β} {items : List α} (h : (items.map key).Nodup)
    (keep : α → Bool) : sorted key (items.filter keep) = (sorted key items).filter keep := by
  have hperm : (items.filter keep).Perm ((sorted key items).filter keep) :=
    ((sorted_perm key items).filter keep).symm
  have hinj := key_inj_of_nodup (h.sublist (List.filter_sublist.map key) :
    ((items.filter keep).map key).Nodup)
  rw [sorted_eq_of_perm hinj hperm]
  exact sorted_eq_self ((sorted_pairwise key items).filter keep)

/-- Items with distinct keys that change but for their keys stay where they are. -/
theorem sorted_map_of_nodup {key : α → β} {items : List α} (h : (items.map key).Nodup) {f : α → α}
    (hf : ∀ a, key (f a) = key a) : sorted key (items.map f) = (sorted key items).map f := by
  have hkeys : ((items.map f).map key).Nodup := by
    rw [List.map_map, show key ∘ f = key from funext hf]
    exact h
  have hperm : (items.map f).Perm ((sorted key items).map f) := ((sorted_perm key items).map f).symm
  rw [sorted_eq_of_perm (key_inj_of_nodup hkeys) hperm]
  refine sorted_eq_self (List.pairwise_map.mpr ?_)
  refine (sorted_pairwise key items).imp fun hab => ?_
  rw [hf, hf]
  exact hab

end Python
