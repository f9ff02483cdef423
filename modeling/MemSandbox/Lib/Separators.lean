import MemSandbox.Lib.Text
import Mathlib.Data.List.TakeWhile

/-! # Cutting at a separator

    `partition` cuts a list at the first occurrence of a separator, and
    `splitAll` at all of them.  A part that does not contain the first element
    of the separator comes out whole, so joining such parts and splitting the
    result gives them back.  `stripEnds` takes what satisfies a predicate from
    both ends. -/

namespace Python

variable {α : Type} [BEq α]

/-! ## Section 1: The first occurrence -/

/-- `text.split(sep, 1)`, where the separator occurs. -/
def partition (sep : List α) : List α → Option (List α × List α)
  | [] => none
  | a :: rest =>
    if startsWith (a :: rest) sep then
      some ([], (a :: rest).drop sep.length)
    else
      (partition sep rest).map fun parts => (a :: parts.1, parts.2)

theorem partition_append [LawfulBEq α] {sep text before after : List α}
    (h : partition sep text = some (before, after)) : text = before ++ (sep ++ after) := by
  induction text generalizing before with
  | nil => cases h
  | cons a rest ih =>
    rw [partition] at h
    by_cases hstart : startsWith (a :: rest) sep = true
    · rw [if_pos hstart] at h
      cases h
      obtain ⟨tail, htail⟩ := startsWith_iff.mp hstart
      rw [← htail, List.drop_left]
      rfl
    · rw [if_neg hstart, Option.map_eq_some_iff] at h
      obtain ⟨⟨inner, tail⟩, hrest, hparts⟩ := h
      cases hparts
      rw [ih hrest]
      rfl

/-- A part without the first element of the separator ends at the separator. -/
theorem partition_of_not_mem [LawfulBEq α] {a : α} {more before : List α} (h : a ∉ before)
    (after : List α) :
    partition (a :: more) (before ++ (a :: more ++ after)) = some (before, after) := by
  induction before with
  | nil =>
    have hstart : startsWith (a :: (more ++ after)) (a :: more) = true :=
      startsWith_iff.mpr ⟨after, rfl⟩
    show partition (a :: more) (a :: (more ++ after)) = some ([], after)
    rw [partition, if_pos hstart]
    show some (([] : List α), (a :: more ++ after).drop (a :: more).length) = some ([], after)
    rw [List.drop_left]
  | cons b before ih =>
    rw [List.mem_cons, not_or] at h
    have hstart : startsWith (b :: (before ++ (a :: more ++ after))) (a :: more) ≠ true := by
      intro hstart
      exact h.1 (List.cons_prefix_cons.mp (startsWith_iff.mp hstart)).1
    show partition (a :: more) (b :: (before ++ (a :: more ++ after))) = _
    rw [partition, if_neg hstart, ih h.2]
    rfl

theorem partition_none_of_not_mem [LawfulBEq α] {a : α} {more text : List α} (h : a ∉ text) :
    partition (a :: more) text = none := by
  match hparts : partition (a :: more) text with
  | none => rfl
  | some (before, after) =>
    rw [partition_append hparts] at h
    exact absurd (List.mem_append_right _ List.mem_cons_self) h

/-! ## Section 2: Every occurrence -/

/-- `text.split(sep)`, for the separator `a :: more`. -/
def splitAll [LawfulBEq α] (a : α) (more text : List α) : List (List α) :=
  match _h : partition (a :: more) text with
  | none => [text]
  | some (before, after) => before :: splitAll a more after
termination_by text.length
decreasing_by
  rw [partition_append _h]
  simp only [List.length_append, List.length_cons]
  omega

/-- The parts with the separator before each but the first are the text. -/
theorem splitAll_join [LawfulBEq α] {a : α} {more text first : List α} {parts : List (List α)}
    (h : splitAll a more text = first :: parts) :
    text = first ++ parts.flatMap (a :: more ++ ·) := by
  induction hn : text.length using Nat.strong_induction_on generalizing text first parts with
  | _ n ih =>
    rw [splitAll] at h
    split at h
    · cases h
      exact (List.append_nil _).symm
    · rename_i before after hparts
      obtain ⟨rfl, hafter⟩ := List.cons.inj h
      have htext := partition_append hparts
      have hshorter : after.length < n := by
        rw [← hn, htext]
        simp only [List.length_append, List.length_cons]
        omega
      cases parts with
      | nil =>
        rw [splitAll] at hafter
        split at hafter <;> cases hafter
      | cons second parts =>
        rw [List.flatMap_cons, List.append_assoc, ← ih _ hshorter hafter rfl]
        exact htext

theorem splitAll_of_not_mem [LawfulBEq α] {a : α} {more text : List α} (h : a ∉ text) :
    splitAll a more text = [text] := by
  rw [splitAll]
  split
  · rfl
  · rename_i hparts
    rw [partition_none_of_not_mem h] at hparts
    cases hparts

theorem splitAll_append [LawfulBEq α] {a : α} {more before : List α} (h : a ∉ before)
    (after : List α) :
    splitAll a more (before ++ (a :: more ++ after)) = before :: splitAll a more after := by
  rw [splitAll]
  split
  · rename_i hparts
    rw [partition_of_not_mem h] at hparts
    cases hparts
  · rename_i hparts
    rw [partition_of_not_mem h] at hparts
    cases hparts
    rfl

/-- Lines that are each ended by the separator. -/
theorem splitAll_lines [LawfulBEq α] {a : α} {more : List α} {lines : List (List α)}
    (h : ∀ line ∈ lines, a ∉ line) :
    splitAll a more (lines.flatMap (· ++ a :: more)) = lines ++ [[]] := by
  induction lines with
  | nil => exact splitAll_of_not_mem List.not_mem_nil
  | cons line lines ih =>
    rw [List.flatMap_cons, List.append_assoc, splitAll_append (h line List.mem_cons_self),
      ih fun rest hrest => h rest (List.mem_cons_of_mem _ hrest)]
    rfl

/-! ## Section 3: Both ends -/

section Strip

variable {β : Type} {p : β → Bool}

/-- `text.strip(characters)`. -/
def stripEnds (p : β → Bool) (text : List β) : List β :=
  ((text.dropWhile p).reverse.dropWhile p).reverse

/-- A list that `stripEnds` leaves alone. -/
structure Trimmed (p : β → Bool) (text : List β) : Prop where
  head : ∀ b, text.head? = some b → p b = false
  last : ∀ b, text.getLast? = some b → p b = false

theorem dropWhile_of_head {text : List β} (h : ∀ b, text.head? = some b → p b = false) :
    text.dropWhile p = text := by
  cases text with
  | nil => rfl
  | cons b rest => rw [List.dropWhile_cons_of_neg (by rw [h b rfl]; exact Bool.false_ne_true)]

theorem head_dropWhile (text : List β) {b : β} (h : (text.dropWhile p).head? = some b) :
    p b = false := by
  have hnot := List.head?_dropWhile_not p text
  rw [h] at hnot
  exact hnot

theorem stripEnds_eq_iff {text value : List β} :
    stripEnds p text = value ↔ Trimmed p value ∧ ∃ before after,
      text = before ++ (value ++ after) ∧ (∀ b ∈ before, p b = true) ∧ ∀ b ∈ after, p b = true := by
  constructor
  · rintro rfl
    refine ⟨⟨?_, ?_⟩, text.takeWhile p, ((text.dropWhile p).reverse.takeWhile p).reverse, ?_, ?_, ?_⟩
    · -- the head of the result is the head of what the first cut leaves
      intro b hb
      have hsuffix := List.dropWhile_suffix (l := (text.dropWhile p).reverse) p
      obtain ⟨rest, hrest⟩ := List.reverse_prefix.mpr hsuffix
      rw [List.reverse_reverse] at hrest
      apply head_dropWhile text
      unfold stripEnds at hb
      rw [← hrest, List.head?_append, hb]
      rfl
    · intro b hb
      rw [stripEnds, List.getLast?_reverse] at hb
      exact head_dropWhile _ hb
    · rw [stripEnds, ← List.reverse_append, List.takeWhile_append_dropWhile, List.reverse_reverse,
        List.takeWhile_append_dropWhile]
    · exact fun b hb => List.mem_takeWhile_imp hb
    · exact fun b hb => List.mem_takeWhile_imp (List.mem_reverse.mp hb)
  · rintro ⟨htrim, before, after, rfl, hbefore, hafter⟩
    rw [stripEnds, List.dropWhile_append_of_pos hbefore]
    by_cases hempty : value = []
    · subst hempty
      rw [List.nil_append, ← List.append_nil after, List.dropWhile_append_of_pos hafter]
      rfl
    · have hhead : ∀ b, (value ++ after).head? = some b → p b = false := by
        intro b hb
        rw [List.head?_append_of_ne_nil _ hempty] at hb
        exact htrim.head b hb
      have hlast : ∀ b, value.reverse.head? = some b → p b = false := by
        intro b hb
        rw [List.head?_reverse] at hb
        exact htrim.last b hb
      rw [dropWhile_of_head hhead, List.reverse_append,
        List.dropWhile_append_of_pos fun b hb => hafter b (List.mem_reverse.mp hb),
        dropWhile_of_head hlast, List.reverse_reverse]

end Strip

end Python
