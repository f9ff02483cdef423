import Mathlib.Tactic
import Mathlib.Data.Rat.Defs

/-! # Calls on a mutable object

    A method call either returns or raises, and whichever it does the object
    keeps the assignments made before that point.  `Call σ ε α` is that
    type: unlike `StateT σ (Except ε)` it does not roll the state back when an
    exception leaves the call, so "the call raised and changed nothing" is a
    statement with content. -/

/-- A call on an object of state `σ` that returns `α` or raises `ε`. -/
def Call (σ ε α : Type) : Type := σ → Except ε α × σ

namespace Call

variable {σ ε α β : Type}

/-- Sequencing: the second call runs in the state the first one left. -/
protected def bind (x : Call σ ε α) (f : α → Call σ ε β) : Call σ ε β := fun s =>
  match x s with
  | (.ok a, s') => f a s'
  | (.error e, s') => (.error e, s')

instance : Monad (Call σ ε) where
  pure a := fun s => (.ok a, s)
  bind := Call.bind

instance : MonadStateOf σ (Call σ ε) where
  get := fun s => (.ok s, s)
  set s' := fun _ => (.ok ⟨⟩, s')
  modifyGet f := fun s => (.ok (f s).1, (f s).2)

instance : MonadExceptOf ε (Call σ ε) where
  throw e := fun s => (.error e, s)
  tryCatch x handler := fun s =>
    match x s with
    | (.ok a, s') => (.ok a, s')
    | (.error e, s') => handler e s'

instance : MonadLift (Except ε) (Call σ ε) where
  monadLift x := fun s => (x, s)

@[simp] theorem pure_apply (a : α) (s : σ) : (pure a : Call σ ε α) s = (.ok a, s) := rfl

@[simp] theorem throw_apply (e : ε) (s : σ) : (throw e : Call σ ε α) s = (.error e, s) := rfl

@[simp] theorem get_apply (s : σ) : (get : Call σ ε σ) s = (.ok s, s) := rfl

@[simp] theorem set_apply (s s' : σ) : (set s' : Call σ ε PUnit) s = (.ok ⟨⟩, s') := rfl

@[simp] theorem lift_apply (x : Except ε α) (s : σ) :
    (liftM x : Call σ ε α) s = (x, s) := rfl

theorem bind_apply (x : Call σ ε α) (f : α → Call σ ε β) (s : σ) :
    (x >>= f) s = match x s with
      | (.ok a, s') => f a s'
      | (.error e, s') => (.error e, s') := rfl

theorem bind_of_ok {x : Call σ ε α} {f : α → Call σ ε β} {s s' : σ} {a : α}
    (h : x s = (.ok a, s')) : (x >>= f) s = f a s' := by
  rw [bind_apply, h]

theorem bind_of_error {x : Call σ ε α} {f : α → Call σ ε β} {s s' : σ} {e : ε}
    (h : x s = (.error e, s')) : (x >>= f) s = (.error e, s') := by
  rw [bind_apply, h]

theorem tryCatch_of_ok {x : Call σ ε α} {handler : ε → Call σ ε α} {s s' : σ} {a : α}
    (h : x s = (.ok a, s')) : (tryCatch x handler) s = (.ok a, s') := by
  simp only [MonadExcept.tryCatch, tryCatchThe, MonadExceptOf.tryCatch, h]

theorem tryCatch_of_error {x : Call σ ε α} {handler : ε → Call σ ε α} {s s' : σ} {e : ε}
    (h : x s = (.error e, s')) : (tryCatch x handler) s = handler e s' := by
  simp only [MonadExcept.tryCatch, tryCatchThe, MonadExceptOf.tryCatch, h]

theorem bind_assoc {γ : Type} (x : Call σ ε α) (f : α → Call σ ε β) (g : β → Call σ ε γ) :
    x >>= f >>= g = x >>= fun a => f a >>= g := by
  funext s
  rw [bind_apply, bind_apply, bind_apply]
  rcases x s with ⟨e | a, s'⟩ <;> rfl

/-- What a returning sequence did: both halves returned. -/
theorem bind_eq_ok {x : Call σ ε α} {f : α → Call σ ε β} {s s'' : σ} {b : β} :
    (x >>= f) s = (.ok b, s'') ↔ ∃ a s', x s = (.ok a, s') ∧ f a s' = (.ok b, s'') := by
  rw [bind_apply]
  rcases x s with ⟨a | a, s'⟩
  · simp
  · simp

/-- What a raising sequence did: the first half raised, or the second did. -/
theorem bind_eq_error {x : Call σ ε α} {f : α → Call σ ε β} {s s'' : σ} {e : ε} :
    (x >>= f) s = (.error e, s'') ↔
      x s = (.error e, s'') ∨ ∃ a s', x s = (.ok a, s') ∧ f a s' = (.error e, s'') := by
  rw [bind_apply]
  rcases x s with ⟨a | a, s'⟩
  · simp
  · simp

/-- A lifted pure computation leaves the state alone. -/
theorem lift_bind_apply (x : Except ε α) (f : α → Call σ ε β) (s : σ) :
    ((liftM x : Call σ ε α) >>= f) s = match x with
      | .ok a => f a s
      | .error e => (.error e, s) := by
  cases x <;> rfl

theorem lift_bind_of_ok {x : Except ε α} {f : α → Call σ ε β} {s : σ} {a : α} (h : x = .ok a) :
    ((liftM x : Call σ ε α) >>= f) s = f a s := by
  rw [lift_bind_apply, h]

/-! ## Outcomes

    `Outcome x s post`: run from `s`, the call either raises and leaves `s` as
    it was, or returns and establishes `post`.  `Returns x s post`: it returns
    and establishes `post`.  The rules below go through a call statement by
    statement; after a statement that assigns the state, only `Returns` will
    do, since a raise would then leave a changed state behind. -/

/-- A call that raises changes nothing, and a call that returns establishes `post`. -/
def Outcome (x : Call σ ε α) (s : σ) (post : α → σ → Prop) : Prop :=
  match x s with
  | (.ok a, s') => post a s'
  | (.error _, s') => s' = s

/-- The call returns and establishes `post`. -/
def Returns (x : Call σ ε α) (s : σ) (post : α → σ → Prop) : Prop :=
  match x s with
  | (.ok a, s') => post a s'
  | (.error _, _) => False

theorem Outcome.of_eq_ok {x : Call σ ε α} {s s' : σ} {post : α → σ → Prop} {a : α}
    (h : Outcome x s post) (hx : x s = (.ok a, s')) : post a s' := by
  rw [Outcome, hx] at h
  exact h

theorem Outcome.of_eq_error {x : Call σ ε α} {s s' : σ} {post : α → σ → Prop} {e : ε}
    (h : Outcome x s post) (hx : x s = (.error e, s')) : s' = s := by
  rw [Outcome, hx] at h
  exact h

theorem Outcome.mono {x : Call σ ε α} {s : σ} {post post' : α → σ → Prop}
    (h : Outcome x s post) (himp : ∀ a s', post a s' → post' a s') : Outcome x s post' := by
  unfold Outcome at h ⊢
  revert h
  rcases x s with ⟨e | a, s'⟩
  · exact id
  · exact himp a s'

theorem Returns.outcome {x : Call σ ε α} {s : σ} {post : α → σ → Prop} (h : Returns x s post) :
    Outcome x s post := by
  unfold Returns at h
  unfold Outcome
  revert h
  rcases x s with ⟨e | a, s'⟩
  · exact False.elim
  · exact id

theorem Returns.mono {x : Call σ ε α} {s : σ} {post post' : α → σ → Prop}
    (h : Returns x s post) (himp : ∀ a s', post a s' → post' a s') : Returns x s post' := by
  unfold Returns at h ⊢
  revert h
  rcases x s with ⟨e | a, s'⟩
  · exact id
  · exact himp a s'

/-- After a call that assigned the state, the rest has to return. -/
theorem Returns.bind_outcome {x : Call σ ε α} {f : α → Call σ ε β} {s s' : σ} {a : α}
    {post : β → σ → Prop} (h : Returns (f a) s' post) (hx : x s = (.ok a, s')) :
    Outcome (x >>= f) s post := by
  unfold Returns at h
  unfold Outcome
  rw [bind_of_ok hx]
  revert h
  rcases f a s' with ⟨e | b, s''⟩
  · exact False.elim
  · exact id

@[simp] theorem outcome_throw {s : σ} {e : ε} {post : α → σ → Prop} :
    Outcome (throw e : Call σ ε α) s post := rfl

@[simp] theorem outcome_pure {a : α} {s : σ} {post : α → σ → Prop} :
    Outcome (pure a : Call σ ε α) s post ↔ post a s := Iff.rfl

@[simp] theorem returns_pure {a : α} {s : σ} {post : α → σ → Prop} :
    Returns (pure a : Call σ ε α) s post ↔ post a s := Iff.rfl

@[simp] theorem outcome_get_bind {f : σ → Call σ ε α} {s : σ} {post : α → σ → Prop} :
    Outcome (get >>= f) s post ↔ Outcome (f s) s post := Iff.rfl

@[simp] theorem returns_set_bind {f : PUnit → Call σ ε α} {s s' : σ} {post : α → σ → Prop} :
    Returns (set s' >>= f) s post ↔ Returns (f ⟨⟩) s' post := Iff.rfl

/-- Raising in a pure computation ends the call without a change. -/
theorem outcome_lift_bind {x : Except ε β} {f : β → Call σ ε α} {s : σ} {post : α → σ → Prop}
    (h : ∀ b, x = .ok b → Outcome (f b) s post) : Outcome (liftM x >>= f) s post := by
  cases x with
  | ok b => exact h b rfl
  | error e => exact rfl

theorem returns_lift_bind {x : Except ε β} {f : β → Call σ ε α} {s : σ} {post : α → σ → Prop}
    {b : β} (hx : x = .ok b) (h : Returns (f b) s post) : Returns (liftM x >>= f) s post := by
  subst hx
  exact h

/-- The call without its result. -/
def void (x : Call σ ε α) : Call σ ε Unit := fun s => ((x s).1.map fun _ => (), (x s).2)

@[simp] theorem void_snd (x : Call σ ε α) (s : σ) : (x.void s).2 = (x s).2 := rfl

theorem Outcome.void {x : Call σ ε α} {s : σ} {post : α → σ → Prop} {post' : σ → Prop}
    (h : Outcome x s post) (himp : ∀ a s', post a s' → post' s') :
    Outcome x.void s fun _ s' => post' s' := by
  unfold Outcome Call.void
  unfold Outcome at h
  revert h
  rcases x s with ⟨e | a, s'⟩
  · exact id
  · exact himp a s'

/-- The state after a call, whichever way it ended. -/
theorem Outcome.final {x : Call σ ε α} {s : σ} {post : α → σ → Prop} (h : Outcome x s post) :
    (x s).2 = s ∨ ∃ a, post a (x s).2 := by
  unfold Outcome at h
  revert h
  rcases x s with ⟨e | a, s'⟩
  · exact .inl
  · exact fun hpost => .inr ⟨a, hpost⟩

/-! ## Frames

    A call that leaves a part of the state alone, and what it returns.  Unlike
    an `Outcome`, a frame says nothing about the rest of the state, and so it
    goes through every kind of statement. -/

section Frames

variable {γ : Type} {get : σ → γ}

/-- `x` leaves the part `get` of the state as it was, and what it returns
    satisfies `post`. -/
def Frames (get : σ → γ) (x : Call σ ε α) (post : α → Prop) : Prop :=
  ∀ s, get (x s).2 = get s ∧ ∀ a, (x s).1 = .ok a → post a

theorem Frames.mono {x : Call σ ε α} {post post' : α → Prop} (h : Frames get x post)
    (himp : ∀ a, post a → post' a) : Frames get x post' := fun s =>
  ⟨(h s).1, fun a ha => himp a ((h s).2 a ha)⟩

theorem frames_pure {a : α} {post : α → Prop} (h : post a) :
    Frames get (pure a : Call σ ε α) post := fun _ =>
  ⟨rfl, fun _ hb => Except.ok.inj hb ▸ h⟩

theorem frames_throw {e : ε} {post : α → Prop} : Frames get (throw e : Call σ ε α) post := fun _ =>
  ⟨rfl, fun _ hb => nomatch hb⟩

theorem frames_lift {x : Except ε α} {post : α → Prop} (h : ∀ a, x = .ok a → post a) :
    Frames get (liftM x : Call σ ε α) post := fun _ => ⟨rfl, h⟩

theorem Frames.bind {x : Call σ ε α} {f : α → Call σ ε β} {mid : α → Prop} {post : β → Prop}
    (hx : Frames get x mid) (hf : ∀ a, mid a → Frames get (f a) post) :
    Frames get (x >>= f) post := by
  intro s
  obtain ⟨hget, hmid⟩ := hx s
  rw [bind_apply]
  rcases hxs : x s with ⟨e | a, s'⟩
  · rw [hxs] at hget
    exact ⟨hget, fun _ hb => nomatch hb⟩
  · rw [hxs] at hget hmid
    obtain ⟨hget', hpost⟩ := hf a (hmid a rfl) s'
    exact ⟨hget'.trans hget, hpost⟩

theorem Frames.tryCatch {x : Call σ ε α} {handler : ε → Call σ ε α} {post : α → Prop}
    (hx : Frames get x post) (hh : ∀ e, Frames get (handler e) post) :
    Frames get (tryCatch x handler) post := by
  intro s
  obtain ⟨hget, hpost⟩ := hx s
  rcases hxs : x s with ⟨e | a, s'⟩
  · rw [hxs] at hget
    rw [tryCatch_of_error hxs]
    obtain ⟨hget', hpost'⟩ := hh e s'
    exact ⟨hget'.trans hget, hpost'⟩
  · rw [hxs] at hget hpost
    rw [tryCatch_of_ok hxs]
    exact ⟨hget, hpost⟩

theorem Frames.foldlM {f : β → α → Call σ ε β} {P : β → Prop}
    (hf : ∀ b a, P b → Frames get (f b a) P) (items : List α) {b : β} (hb : P b) :
    Frames get (items.foldlM f b) P := by
  induction items generalizing b with
  | nil => exact frames_pure hb
  | cons a items ih => exact (hf b a hb).bind fun _ hb' => ih hb'

end Frames

end Call
