import MemSandbox.Lib.Effect

/-! # Reading a buffer

    A loop that goes through a buffer with its own positions may read past the
    end, or, where a negative index counts from the back, at the wrong place.
    Here every read of a computation is logged with its bounds, so that
    "nothing outside the buffer is read" is a statement about the log.

    The operations take integers and give them the meaning of a language whose
    negative indices count from the end and whose slices are clamped.
    `Reads size x r` says that `x` ends in `r` and stays inside a buffer of
    that size; its rules go through a computation statement by statement. -/

/-- The bounds of one read. -/
structure Extent where
  start : Int
  stop : Int

namespace Extent

/-- The read stays inside a buffer of this size. -/
def Within (size : Nat) (b : Extent) : Prop := 0 ≤ b.start ∧ b.start ≤ b.stop ∧ b.stop ≤ size

end Extent

/-- A computation that reads a buffer, with the log of its reads. -/
abbrev Reading (ε α : Type) : Type := Call (List Extent) ε α

namespace Reading

variable {α β ε : Type}

/-! ## Section 1: Reads -/

/-- The place that an index stands for. -/
def index (size : Nat) (i : Int) : Option Nat :=
  if 0 ≤ i then some i.toNat else if 0 ≤ i + size then some (i + size).toNat else none

/-- Where a bound of a slice falls. -/
def position (size : Nat) (i : Int) : Nat :=
  if i < 0 then (i + size).toNat else min i.toNat size

/-- The part of a list between two positions. -/
def between (buffer : List β) (start stop : Nat) : List β := (buffer.drop start).take (stop - start)

/-- One more read. -/
def note (b : Extent) : Reading ε Unit := fun log => (.ok (), b :: log)

/-- `buffer[i]`; outside the buffer it raises. -/
def item (buffer : List β) (missing : ε) (i : Int) : Reading ε β := do
  note ⟨i, i + 1⟩
  match (index buffer.length i).bind (buffer[·]?) with
  | some b => pure b
  | none => throw missing

/-- `buffer[start:stop]`. -/
def extract (buffer : List β) (start stop : Int) : Reading ε (List β) := do
  note ⟨start, stop⟩
  pure (between buffer (position buffer.length start) (position buffer.length stop))

/-- `buffer.find(b, start, stop)`: the first position of `b` there, or -1. -/
def find [DecidableEq β] (buffer : List β) (b : β) (start stop : Int) : Reading ε Int := do
  let body ← extract buffer start stop
  pure (if b ∈ body then (position buffer.length start + body.idxOf b : Nat) else -1)

/-- `condition and x`: where the condition fails, `x` is not evaluated. -/
def andThen (condition : Prop) [Decidable condition] (x : Reading ε Bool) : Reading ε Bool :=
  if condition then x else pure false

/-- `condition or x`: where the condition holds, `x` is not evaluated. -/
def orElse (condition : Prop) [Decidable condition] (x : Reading ε Bool) : Reading ε Bool :=
  if condition then pure true else x

/-! ## Section 2: Parts of a buffer -/

section

variable {buffer : List β} {start stop : Nat}

theorem length_between (hstop : stop ≤ buffer.length) :
    (between buffer start stop).length = stop - start := by
  rw [between, List.length_take, List.length_drop]
  omega

theorem getElem?_between {i : Nat} (h : i < stop - start) :
    (between buffer start stop)[i]? = buffer[start + i]? := by
  rw [between, List.getElem?_take_of_lt h, List.getElem?_drop]

theorem between_of_le (h : stop ≤ start) : between buffer start stop = [] := by
  rw [between, Nat.sub_eq_zero_of_le h, List.take_zero]

/-- The part from its second element on. -/
theorem between_cons {b : β} (h : buffer[start]? = some b) (hlt : start < stop) :
    between buffer start stop = b :: between buffer (start + 1) stop := by
  obtain ⟨hbound, hb⟩ := List.getElem?_eq_some_iff.mp h
  obtain ⟨n, rfl⟩ : ∃ n, stop = start + 1 + n := ⟨stop - start - 1, by omega⟩
  rw [between, between, List.drop_eq_getElem_cons hbound, hb,
    show start + 1 + n - start = n + 1 by omega, show start + 1 + n - (start + 1) = n by omega,
    List.take_succ_cons]

theorem drop_between (n : Nat) :
    (between buffer start stop).drop n = between buffer (start + n) stop := by
  rw [between, between, List.drop_take, List.drop_drop, Nat.sub_sub]

theorem take_between {n : Nat} (h : start + n ≤ stop) :
    (between buffer start stop).take n = between buffer start (start + n) := by
  rw [between, between, List.take_take, Nat.add_sub_cancel_left, Nat.min_eq_left (by omega)]

/-- A part of a suffix. -/
theorem between_drop (n : Nat) :
    between (buffer.drop n) start stop = between buffer (n + start) (n + stop) := by
  rw [between, between, List.drop_drop, Nat.add_sub_add_left]

end

/-! ## Section 3: Staying inside -/

/-- `x` ends in `r`, and what it reads is inside a buffer of this size. -/
def Reads (size : Nat) (x : Reading ε α) (r : Except ε α) : Prop :=
  ∀ log, (∀ b ∈ log, b.Within size) → (x log).1 = r ∧ ∀ b ∈ (x log).2, b.Within size

variable {size : Nat}

theorem reads_pure (a : α) : Reads size (pure a : Reading ε α) (.ok a) := fun _ hlog => ⟨rfl, hlog⟩

theorem reads_throw (e : ε) : Reads size (throw e : Reading ε α) (.error e) := fun _ hlog =>
  ⟨rfl, hlog⟩

theorem reads_lift (r : Except ε α) : Reads size (liftM r : Reading ε α) r := fun _ hlog =>
  ⟨rfl, hlog⟩

/-- After a computation that returns, the rest decides. -/
theorem Reads.seq {x : Reading ε α} {f : α → Reading ε β} {r : Except ε α} {g : α → Except ε β}
    (hx : Reads size x r) (hf : ∀ a, r = .ok a → Reads size (f a) (g a)) :
    Reads size (x >>= f) (r >>= g) := by
  intro log hlog
  obtain ⟨hresult, hlog'⟩ := hx log hlog
  rw [Call.bind_apply]
  rcases hrun : x log with ⟨result, log'⟩
  rw [hrun] at hresult hlog'
  subst hresult
  cases result with
  | ok a => exact hf a rfl log' hlog'
  | error e => exact ⟨rfl, hlog'⟩

theorem Reads.bind {x : Reading ε α} {f : α → Reading ε β} {a : α} {r : Except ε β}
    (hx : Reads size x (.ok a)) (hf : Reads size (f a) r) : Reads size (x >>= f) r := by
  have hseq := hx.seq (f := f) (g := fun _ => r) fun _ hb => Except.ok.inj hb ▸ hf
  exact hseq

theorem reads_ite {condition : Prop} [Decidable condition] {x y : Reading ε α} {r s : Except ε α}
    (hx : condition → Reads size x r) (hy : ¬ condition → Reads size y s) :
    Reads size (if condition then x else y) (if condition then r else s) := by
  by_cases h : condition
  · rw [if_pos h, if_pos h]
    exact hx h
  · rw [if_neg h, if_neg h]
    exact hy h

theorem reads_note {b : Extent} (h : b.Within size) :
    Reads size (note b : Reading ε Unit) (.ok ()) := by
  intro log hlog
  refine ⟨rfl, ?_⟩
  intro b' hb'
  rcases List.mem_cons.mp hb' with rfl | hb'
  · exact h
  · exact hlog b' hb'

theorem position_natCast {n : Nat} (h : n ≤ size) : position size (n : Int) = n := by
  unfold position
  rw [if_neg (by omega), Int.toNat_natCast]
  exact Nat.min_eq_left h

section

variable {buffer : List β}

theorem reads_item {missing : ε} {i : Nat} {b : β} (h : buffer[i]? = some b) :
    Reads buffer.length (item buffer missing (i : Int)) (.ok b) := by
  have hlt : i < buffer.length := (List.getElem?_eq_some_iff.mp h).1
  have hwithin : Extent.Within buffer.length ⟨(i : Int), (i : Int) + 1⟩ := by
    show (0 : Int) ≤ i ∧ (i : Int) ≤ i + 1 ∧ (i : Int) + 1 ≤ buffer.length
    omega
  have hitem : (index buffer.length (i : Int)).bind (buffer[·]?) = some b := by
    rw [index, if_pos (by omega), Int.toNat_natCast]
    exact h
  apply (reads_note hwithin).bind
  rw [hitem]
  exact reads_pure b

theorem reads_extract {start stop : Nat} (hle : start ≤ stop) (hstop : stop ≤ buffer.length) :
    Reads buffer.length (extract buffer (start : Int) (stop : Int) : Reading ε (List β))
      (.ok (between buffer start stop)) := by
  have hwithin : Extent.Within buffer.length ⟨(start : Int), (stop : Int)⟩ := by
    show (0 : Int) ≤ start ∧ (start : Int) ≤ stop ∧ (stop : Int) ≤ buffer.length
    omega
  apply (reads_note hwithin).bind
  rw [position_natCast (by omega), position_natCast hstop]
  exact reads_pure _

theorem reads_find [DecidableEq β] {b : β} {start stop : Nat} (hle : start ≤ stop)
    (hstop : stop ≤ buffer.length) :
    Reads buffer.length (find buffer b (start : Int) (stop : Int) : Reading ε Int)
      (.ok (if b ∈ between buffer start stop then
        (start + (between buffer start stop).idxOf b : Nat) else -1)) := by
  apply (reads_extract hle hstop).bind
  rw [position_natCast (by omega)]
  exact reads_pure _

theorem reads_andThen {condition : Prop} [Decidable condition] {x : Reading ε Bool} {b : Bool}
    (h : condition → Reads size x (.ok b)) (hno : ¬ condition → b = false) :
    Reads size (andThen condition x) (.ok b) := by
  unfold andThen
  by_cases hcondition : condition
  · rw [if_pos hcondition]
    exact h hcondition
  · rw [if_neg hcondition, hno hcondition]
    exact reads_pure false

theorem reads_orElse {condition : Prop} [Decidable condition] {x : Reading ε Bool} {b : Bool}
    (h : ¬ condition → Reads size x (.ok b)) (hyes : condition → b = true) :
    Reads size (orElse condition x) (.ok b) := by
  unfold orElse
  by_cases hcondition : condition
  · rw [if_pos hcondition, hyes hcondition]
    exact reads_pure true
  · rw [if_neg hcondition]
    exact h hcondition

end

end Reading
