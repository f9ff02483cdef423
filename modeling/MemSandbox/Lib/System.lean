import Mathlib.Tactic
import Mathlib.Data.Rat.Defs

/-! # Labelled transition systems

    A system is its initial states and its labelled steps.  An invariant is
    proved once at the start and once for every step (`Reachable.invariant`);
    `Run` keeps the labels for statements about what a run did. -/

/-- A labelled transition system. -/
structure System (σ : Type u) (ι : Type v) where
  init : σ → Prop
  step : σ → ι → σ → Prop

namespace System

variable {σ : Type u} {ι : Type v} {S : System σ ι}

/-- The states that some run reaches. -/
inductive Reachable (S : System σ ι) : σ → Prop
  | init {s : σ} : S.init s → Reachable S s
  | step {s s' : σ} {l : ι} : Reachable S s → S.step s l s' → Reachable S s'

/-- What holds initially and survives every step holds of every reachable state. -/
theorem Reachable.invariant {I : σ → Prop} (hinit : ∀ s, S.init s → I s)
    (hstep : ∀ s l s', S.Reachable s → I s → S.step s l s' → I s') {s : σ}
    (h : S.Reachable s) : I s := by
  induction h with
  | init h => exact hinit _ h
  | step hs h ih => exact hstep _ _ _ hs ih h

end System

/-! ## Histories

    A history is a list of entries, the newest last.  `Justified P` says that
    every entry satisfies `P` with the entries before it. -/

section Histories

variable {α : Type u} {P : List α → α → Prop} {history : List α} {entry : α}

/-- Every entry is justified by the entries before it. -/
def Justified (P : List α → α → Prop) (history : List α) : Prop :=
  ∀ before entry after, history = before ++ entry :: after → P before entry

theorem justified_nil : Justified P [] := by
  intro before entry after h
  exact absurd h (by simp)

theorem justified_concat :
    Justified P (history ++ [entry]) ↔ Justified P history ∧ P history entry := by
  constructor
  · intro h
    refine ⟨?_, h history entry [] rfl⟩
    intro before e after he
    apply h before e (after ++ [entry])
    rw [he]
    simp
  · intro h before e after he
    rcases List.eq_nil_or_concat after with rfl | ⟨init, last, rfl⟩
    · obtain ⟨rfl, hlast⟩ := List.append_inj' he rfl
      obtain rfl := List.head_eq_of_cons_eq hlast
      exact h.2
    · have hsplit : history ++ [entry] = (before ++ e :: init) ++ [last] := by
        rw [he]
        simp
      exact h.1 before e init (List.append_inj' hsplit rfl).1

theorem Justified.of_append {more : List α} (h : Justified P (history ++ more)) :
    Justified P history := by
  intro before e after he
  apply h before e (after ++ more)
  rw [he]
  simp

/-- Entries that are only made while a count is below its bound stay within it. -/
theorem Justified.count_le {p : α → Bool} {bound : Nat} (h : Justified P history)
    (hP : ∀ before e, p e = true → P before e → before.countP p < bound) :
    history.countP p ≤ bound := by
  induction history using List.reverseRecOn with
  | nil => exact Nat.zero_le _
  | append_singleton history entry ih =>
    obtain ⟨hhistory, hentry⟩ := justified_concat.mp h
    by_cases hp : p entry = true
    · have hbound := hP history entry hp hentry
      simp only [List.countP_append, List.countP_singleton, hp, if_true]
      omega
    · simp only [List.countP_append, List.countP_singleton, hp]
      exact ih hhistory

end Histories
