import MemSandbox.Lib.Effect
import MemSandbox.Lib.System

/-! # Coroutines

    Asynchronous code on a shared state.  A coroutine runs without
    interruption until it awaits; then other code runs, and the coroutine goes
    on in whatever state that code has left.  Both its synchronous steps and
    its awaits may have several outcomes, so that clocks, collaborators and
    cancellations are part of the meaning of the code.

    * **Section 1** the code, and the control structures built from it;
    * **Section 2** one coroutine step by step, and several of them
      interleaved under an event loop;
    * **Section 3** weakest preconditions under interference: what a coroutine
      establishes if the other code keeps its guarantees. -/

/-- Code on the state `σ` that raises `ε` and returns a value. -/
inductive Coroutine (σ ε : Type) : Type → Type 1 where
  /-- The end of the code. -/
  | ret {α : Type} (a : α) : Coroutine σ ε α
  /-- The code raised. -/
  | raise {α : Type} (e : ε) : Coroutine σ ε α
  /-- A synchronous step: how it may end, and in which state. -/
  | step {α : Type} (w : σ → Except ε α → σ → Prop) : Coroutine σ ε α
  /-- A suspension: how it may end once it is resumed, and in which state. -/
  | await {α : Type} (w : σ → Except ε α → σ → Prop) : Coroutine σ ε α
  | bind {α β : Type} (x : Coroutine σ ε α) (f : α → Coroutine σ ε β) : Coroutine σ ε β
  | tryCatch {α : Type} (x : Coroutine σ ε α) (handler : ε → Coroutine σ ε α) : Coroutine σ ε α
  /-- The body is repeated until it returns on the right. -/
  | loop {α β : Type} (body : β → Coroutine σ ε (β ⊕ α)) (b : β) : Coroutine σ ε α

namespace Coroutine

/-! ## Section 1: Code -/

section Code

variable {σ ε α β : Type}

instance : Monad (Coroutine σ ε) where
  pure := ret
  bind := bind

instance : MonadExceptOf ε (Coroutine σ ε) where
  throw := raise
  tryCatch := tryCatch

/-- A call without suspensions. -/
def call (f : Call σ ε α) : Coroutine σ ε α := step fun s r s' => f s = (r, s')

instance : MonadLift (Call σ ε) (Coroutine σ ε) where
  monadLift := call

/-- What a finished computation goes on as. -/
def ofExcept : Except ε α → Coroutine σ ε α
  | .ok a => ret a
  | .error e => raise e

/-- `try`, with the outcome as a value. -/
def attempt (x : Coroutine σ ε α) : Coroutine σ ε (Except ε α) :=
  tryCatch (bind x fun a => ret (.ok a)) fun e => ret (.error e)

/-- `try: … finally: …` -/
def finallyDo (x : Coroutine σ ε α) (cleanup : Coroutine σ ε Unit) : Coroutine σ ε α :=
  bind (tryCatch x fun e => bind cleanup fun _ => raise e) fun a =>
    bind cleanup fun _ => ret a

/-- `while condition: body` -/
def whileDo (condition : Coroutine σ ε Bool) (body : Coroutine σ ε Unit) : Coroutine σ ε Unit :=
  loop (fun _ : Unit => bind condition fun b =>
    if b then bind body fun _ => ret (.inl ()) else ret (.inr ())) ()

/-- `while True: …`, with `some` for a `return` of the body. -/
def forever (body : Coroutine σ ε (Option α)) : Coroutine σ ε α :=
  loop (fun _ : Unit => bind body fun
    | none => ret (.inl ())
    | some a => ret (.inr a)) ()

/-- What a loop does after one run of its body. -/
def again (body : β → Coroutine σ ε (β ⊕ α)) : β ⊕ α → Coroutine σ ε α
  | .inl b => loop body b
  | .inr a => ret a

/-- A coroutine on a part of a larger state. -/
def lift {τ : Type} (get : τ → σ) (put : σ → τ → τ) : {α : Type} → Coroutine σ ε α → Coroutine τ ε α
  | _, ret a => ret a
  | _, raise e => raise e
  | _, step w => step fun t r t' => ∃ s', w (get t) r s' ∧ t' = put s' t
  | _, await w => await fun t r t' => ∃ s', w (get t) r s' ∧ t' = put s' t
  | _, bind x f => bind (lift get put x) fun a => lift get put (f a)
  | _, tryCatch x handler => tryCatch (lift get put x) fun e => lift get put (handler e)
  | _, loop body b => loop (fun b => lift get put (body b)) b

end Code

/-! ## Section 2: Runs -/

section Runs

variable {σ ε : Type}

/-- One synchronous step. -/
inductive Step : {α : Type} → Coroutine σ ε α → σ → Coroutine σ ε α → σ → Prop
  | step {α : Type} {w : σ → Except ε α → σ → Prop} {s s' : σ} {r : Except ε α} (h : w s r s') :
      Step (.step w) s (ofExcept r) s'
  | bindRet {α β : Type} {a : α} {f : α → Coroutine σ ε β} {s : σ} :
      Step (.bind (.ret a) f) s (f a) s
  | bindRaise {α β : Type} {e : ε} {f : α → Coroutine σ ε β} {s : σ} :
      Step (.bind (.raise e) f) s (.raise e) s
  | bind {α β : Type} {x x' : Coroutine σ ε α} {f : α → Coroutine σ ε β} {s s' : σ}
      (h : Step x s x' s') : Step (.bind x f) s (.bind x' f) s'
  | tryRet {α : Type} {a : α} {handler : ε → Coroutine σ ε α} {s : σ} :
      Step (.tryCatch (.ret a) handler) s (.ret a) s
  | tryRaise {α : Type} {e : ε} {handler : ε → Coroutine σ ε α} {s : σ} :
      Step (.tryCatch (.raise e) handler) s (handler e) s
  | tryCatch {α : Type} {x x' : Coroutine σ ε α} {handler : ε → Coroutine σ ε α} {s s' : σ}
      (h : Step x s x' s') : Step (.tryCatch x handler) s (.tryCatch x' handler) s'
  | loop {α β : Type} {body : β → Coroutine σ ε (β ⊕ α)} {b : β} {s : σ} :
      Step (.loop body b) s (.bind (body b) (again body)) s

/-- The end of a suspension. -/
inductive Resume : {α : Type} → Coroutine σ ε α → σ → Coroutine σ ε α → σ → Prop
  | await {α : Type} {w : σ → Except ε α → σ → Prop} {s s' : σ} {r : Except ε α} (h : w s r s') :
      Resume (.await w) s (ofExcept r) s'
  | bind {α β : Type} {x x' : Coroutine σ ε α} {f : α → Coroutine σ ε β} {s s' : σ}
      (h : Resume x s x' s') : Resume (.bind x f) s (.bind x' f) s'
  | tryCatch {α : Type} {x x' : Coroutine σ ε α} {handler : ε → Coroutine σ ε α} {s s' : σ}
      (h : Resume x s x' s') : Resume (.tryCatch x handler) s (.tryCatch x' handler) s'

/-- Code that is suspended. -/
inductive Awaits : {α : Type} → Coroutine σ ε α → Prop
  | await {α : Type} {w : σ → Except ε α → σ → Prop} : Awaits (.await w)
  | bind {α β : Type} {x : Coroutine σ ε α} {f : α → Coroutine σ ε β} (h : Awaits x) :
      Awaits (.bind x f)
  | tryCatch {α : Type} {x : Coroutine σ ε α} {handler : ε → Coroutine σ ε α} (h : Awaits x) :
      Awaits (.tryCatch x handler)

/-- Code that has ended, and how. -/
def Ended {α : Type} (x : Coroutine σ ε α) (r : Except ε α) : Prop := x = ofExcept r

/-- Several coroutines, and the one that runs. -/
structure Config (ι σ ε : Type) : Type 1 where
  shared : σ
  code : ι → Coroutine σ ε Unit
  running : Option ι

namespace Config

variable {ι : Type} [DecidableEq ι]

/-- The configuration after coroutine `i` has come to `x` in state `s`. -/
def advance (c : Config ι σ ε) (i : ι) (x : Coroutine σ ε Unit) (s : σ) : Config ι σ ε :=
  { shared := s, code := Function.update c.code i x, running := some i }

/-- What the event loop does next: it goes on with the coroutine that runs,
    takes back control when that coroutine awaits or has ended, resumes a
    coroutine that awaits, or finds that the environment has moved. -/
inductive Move (env : σ → σ → Prop) : Config ι σ ε → Option ι → Config ι σ ε → Prop
  | step {c : Config ι σ ε} {i : ι} {x : Coroutine σ ε Unit} {s : σ} (hrun : c.running = some i)
      (h : Step (c.code i) c.shared x s) : Move env c (some i) (c.advance i x s)
  | yield {c : Config ι σ ε} {i : ι} (hrun : c.running = some i)
      (h : Awaits (c.code i) ∨ ∃ r, Ended (c.code i) r) :
      Move env c (some i) { c with running := none }
  | resume {c : Config ι σ ε} {i : ι} {x : Coroutine σ ε Unit} {s : σ} (hidle : c.running = none)
      (h : Resume (c.code i) c.shared x s) : Move env c (some i) (c.advance i x s)
  | env {c : Config ι σ ε} {s : σ} (hidle : c.running = none) (h : env c.shared s) :
      Move env c none { c with shared := s }

end Config

/-- The runs of the coroutines `code` from `init`. -/
def system {ι : Type} [DecidableEq ι] (env : σ → σ → Prop) (init : σ → Prop)
    (code : ι → Coroutine σ ε Unit) : System (Config ι σ ε) (Option ι) where
  init := fun c => init c.shared ∧ c.code = code ∧ c.running = none
  step := Config.Move env

end Runs

/-! ## Section 3: Preconditions

    `wp R G x Q s`: run from `s`, with other code changing the state by `R`
    while `x` awaits, every step of `x` changes it by `G`, and if `x` ends then
    `Q` holds of the outcome and the state. -/

section Preconditions

variable {σ ε : Type} {R G : σ → σ → Prop}

/-- A postcondition by cases: the code returned, or it raised. -/
def ends {α : Type} (returned : α → σ → Prop) (raised : ε → σ → Prop) : Except ε α → σ → Prop
  | .ok a => returned a
  | .error e => raised e

/-- What has to hold before the code. -/
def wp (R G : σ → σ → Prop) : {α : Type} → Coroutine σ ε α → (Except ε α → σ → Prop) → σ → Prop
  | _, ret a, Q => Q (.ok a)
  | _, raise e, Q => Q (.error e)
  | _, step w, Q => fun s => ∀ r s', w s r s' → G s s' ∧ Q r s'
  | _, await w, Q => fun s => ∀ v, R s v → ∀ r v', w v r v' → G v v' ∧ Q r v'
  | _, bind x f, Q => wp R G x (ends (fun a => wp R G (f a) Q) fun e => Q (.error e))
  | _, tryCatch x handler, Q => wp R G x (ends (fun a => Q (.ok a)) fun e => wp R G (handler e) Q)
  | _, @loop _ _ _ β body b, Q => fun s => ∃ I : β → σ → Prop, I b s ∧ ∀ b u, I b u →
      wp R G (body b) (ends (Sum.elim I fun a => Q (.ok a)) fun e => Q (.error e)) u

variable {α β : Type} {Q Q' : Except ε α → σ → Prop} {s s' : σ}

@[simp] theorem wp_ret {a : α} : wp R G (ret a) Q s ↔ Q (.ok a) s := Iff.rfl

@[simp] theorem wp_pure {a : α} : wp R G (pure a : Coroutine σ ε α) Q s ↔ Q (.ok a) s := Iff.rfl

@[simp] theorem wp_raise {e : ε} : wp R G (raise e) Q s ↔ Q (.error e) s := Iff.rfl

@[simp] theorem wp_throw {e : ε} : wp R G (throw e : Coroutine σ ε α) Q s ↔ Q (.error e) s := Iff.rfl

theorem wp_step {w : σ → Except ε α → σ → Prop} :
    wp R G (step w) Q s ↔ ∀ r s', w s r s' → G s s' ∧ Q r s' := Iff.rfl

theorem wp_await {w : σ → Except ε α → σ → Prop} :
    wp R G (await w) Q s ↔ ∀ v, R s v → ∀ r v', w v r v' → G v v' ∧ Q r v' := Iff.rfl

theorem wp_bind {x : Coroutine σ ε α} {f : α → Coroutine σ ε β} {Q : Except ε β → σ → Prop} :
    wp R G (x >>= f) Q s ↔
      wp R G x (ends (fun a => wp R G (f a) Q) fun e => Q (.error e)) s := Iff.rfl

theorem wp_tryCatch {x : Coroutine σ ε α} {handler : ε → Coroutine σ ε α} :
    wp R G (tryCatch x handler) Q s ↔
      wp R G x (ends (fun a => Q (.ok a)) fun e => wp R G (handler e) Q) s := Iff.rfl

/-- The rule of consequence. -/
theorem wp_mono {x : Coroutine σ ε α} (h : wp R G x Q s) (himp : ∀ r u, Q r u → Q' r u) :
    wp R G x Q' s := by
  induction x generalizing s with
  | ret a => exact himp _ _ h
  | raise e => exact himp _ _ h
  | step w =>
    intro r u hw
    exact ⟨(h r u hw).1, himp _ _ (h r u hw).2⟩
  | await w =>
    intro v hR r u hw
    exact ⟨(h v hR r u hw).1, himp _ _ (h v hR r u hw).2⟩
  | bind x f ihx ihf =>
    apply ihx h
    intro r u hr
    cases r with
    | ok a => exact ihf a hr himp
    | error e => exact himp _ _ hr
  | tryCatch x handler ihx ihh =>
    apply ihx h
    intro r u hr
    cases r with
    | ok a => exact himp _ _ hr
    | error e => exact ihh e hr himp
  | loop body b ih =>
    obtain ⟨I, hI, hbody⟩ := h
    refine ⟨I, hI, ?_⟩
    intro b u hb
    apply ih b (hbody b u hb)
    intro r v hr
    match r with
    | .ok (.inl b') => exact hr
    | .ok (.inr a) => exact himp _ _ hr
    | .error e => exact himp _ _ hr

theorem ends_mono {P P' : α → σ → Prop} {E E' : ε → σ → Prop} (hret : ∀ a u, P a u → P' a u)
    (hraise : ∀ e u, E e u → E' e u) : ∀ r u, ends P E r u → ends P' E' r u
  | .ok a, u => hret a u
  | .error e, u => hraise e u

theorem wp_ofExcept {r : Except ε α} (h : Q r s) : wp R G (ofExcept r) Q s := by
  cases r with
  | ok a => exact h
  | error e => exact h

/-- Code on a part of the state keeps what no change of that part can falsify. -/
theorem wp_lift {τ : Type} {R G : τ → τ → Prop} {get : τ → σ} {put : σ → τ → τ} {P : τ → Prop}
    (hR : ∀ t t', R t t' → P t → P t') (hput : ∀ t s, P t → G t (put s t) ∧ P (put s t))
    (x : Coroutine σ ε α) {t : τ} (ht : P t) : wp R G (lift get put x) (fun _ => P) t := by
  induction x generalizing t with
  | ret a => exact ht
  | raise e => exact ht
  | step w =>
    rintro r t' ⟨s, -, rfl⟩
    exact hput t s ht
  | await w =>
    rintro v hv r t' ⟨s, -, rfl⟩
    exact hput v s (hR t v hv ht)
  | bind x f ihx ihf =>
    apply wp_mono (ihx ht)
    intro r u hu
    cases r with
    | ok a => exact ihf a hu
    | error e => exact hu
  | tryCatch x handler ihx ihh =>
    apply wp_mono (ihx ht)
    intro r u hu
    cases r with
    | ok a => exact hu
    | error e => exact ihh e hu
  | loop body b ih =>
    refine ⟨fun _ => P, ht, ?_⟩
    intro b u hu
    apply wp_mono (ih b hu)
    intro r v hv
    match r with
    | .ok (.inl _) => exact hv
    | .ok (.inr _) => exact hv
    | .error _ => exact hv

/-- Code on a part of the state does there what it does alone. -/
theorem wp_lift_part {τ : Type} {R' : τ → τ → Prop} {get : τ → σ} {put : σ → τ → τ}
    (hR : ∀ t t', R' t t' → R (get t) (get t')) (hget : ∀ t s, get (put s t) = s)
    {x : Coroutine σ ε α} {t : τ} (h : wp R G x Q (get t)) :
    wp R' (fun _ _ => True) (lift get put x) (fun r t' => Q r (get t')) t := by
  induction x generalizing t with
  | ret a => exact h
  | raise e => exact h
  | step w =>
    rintro r t' ⟨s, hw, rfl⟩
    refine ⟨trivial, ?_⟩
    show Q r (get (put s t))
    rw [hget]
    exact (h r s hw).2
  | await w =>
    rintro v hv r t' ⟨s, hw, rfl⟩
    refine ⟨trivial, ?_⟩
    show Q r (get (put s v))
    rw [hget]
    exact (h _ (hR t v hv) r s hw).2
  | bind x f ihx ihf =>
    apply wp_mono (ihx h)
    intro r u hu
    cases r with
    | ok a => exact ihf a hu
    | error e => exact hu
  | tryCatch x handler ihx ihh =>
    apply wp_mono (ihx h)
    intro r u hu
    cases r with
    | ok a => exact hu
    | error e => exact ihh e hu
  | loop body b ih =>
    obtain ⟨I, hI, hbody⟩ := h
    refine ⟨fun b u => I b (get u), hI, ?_⟩
    intro b u hu
    apply wp_mono (ih b (hbody b (get u) hu))
    intro r v hv
    match r with
    | .ok (.inl _) => exact hv
    | .ok (.inr _) => exact hv
    | .error _ => exact hv

/-- Two things that code establishes, it establishes together; under less
    interference too. -/
theorem wp_and {R₁ R₂ G₁ G₂ : σ → σ → Prop} {Q₁ Q₂ : Except ε α → σ → Prop} {x : Coroutine σ ε α}
    (hR₁ : ∀ u v, R u v → R₁ u v) (hR₂ : ∀ u v, R u v → R₂ u v)
    (hG : ∀ u v, G₁ u v → G₂ u v → G u v) (h₁ : wp R₁ G₁ x Q₁ s) (h₂ : wp R₂ G₂ x Q₂ s) :
    wp R G x (fun r u => Q₁ r u ∧ Q₂ r u) s := by
  induction x generalizing s with
  | ret a => exact ⟨h₁, h₂⟩
  | raise e => exact ⟨h₁, h₂⟩
  | step w =>
    intro r u hw
    exact ⟨hG _ _ (h₁ r u hw).1 (h₂ r u hw).1, (h₁ r u hw).2, (h₂ r u hw).2⟩
  | await w =>
    intro v hv r u hw
    have hw₁ := h₁ v (hR₁ _ _ hv) r u hw
    have hw₂ := h₂ v (hR₂ _ _ hv) r u hw
    exact ⟨hG _ _ hw₁.1 hw₂.1, hw₁.2, hw₂.2⟩
  | bind x f ihx ihf =>
    apply wp_mono (ihx h₁ h₂)
    rintro r u ⟨hr₁, hr₂⟩
    cases r with
    | ok a => exact ihf a hr₁ hr₂
    | error e => exact ⟨hr₁, hr₂⟩
  | tryCatch x handler ihx ihh =>
    apply wp_mono (ihx h₁ h₂)
    rintro r u ⟨hr₁, hr₂⟩
    cases r with
    | ok a => exact ⟨hr₁, hr₂⟩
    | error e => exact ihh e hr₁ hr₂
  | loop body b ih =>
    obtain ⟨I₁, hI₁, hbody₁⟩ := h₁
    obtain ⟨I₂, hI₂, hbody₂⟩ := h₂
    refine ⟨fun b u => I₁ b u ∧ I₂ b u, ⟨hI₁, hI₂⟩, ?_⟩
    rintro b u ⟨hu₁, hu₂⟩
    apply wp_mono (ih b (hbody₁ b u hu₁) (hbody₂ b u hu₂))
    rintro r v ⟨hv₁, hv₂⟩
    match r with
    | .ok (.inl _) => exact ⟨hv₁, hv₂⟩
    | .ok (.inr _) => exact ⟨hv₁, hv₂⟩
    | .error _ => exact ⟨hv₁, hv₂⟩

/-- `try: … finally: …`, with a postcondition that does not look at the outcome. -/
theorem wp_finallyDo {x : Coroutine σ ε α} {cleanup : Coroutine σ ε Unit} {P P' : σ → Prop}
    (hx : wp R G x (fun _ => P) s) (hcleanup : ∀ u, P u → wp R G cleanup (fun _ => P') u) :
    wp R G (finallyDo x cleanup) (fun _ => P') s := by
  apply wp_mono hx
  intro r u hu
  cases r with
  | ok a =>
    apply wp_mono (hcleanup u hu)
    intro r v hv
    cases r with
    | ok => exact hv
    | error e => exact hv
  | error e =>
    apply wp_mono (hcleanup u hu)
    intro r v hv
    cases r with
    | ok => exact hv
    | error e => exact hv

theorem wp_attempt {x : Coroutine σ ε α} {Q : Except ε (Except ε α) → σ → Prop}
    (h : wp R G x (fun r => Q (.ok r)) s) : wp R G (attempt x) Q s := by
  apply wp_mono h
  intro r u hu
  cases r with
  | ok a => exact hu
  | error e => exact hu

/-- `while True: …`, with an invariant. -/
theorem wp_forever {body : Coroutine σ ε (Option α)} {I : σ → Prop} (hs : I s)
    (hbody : ∀ u, I u → wp R G body
      (ends (fun a v => a.elim (I v) fun a => Q (.ok a) v) fun e => Q (.error e)) u) :
    wp R G (forever body) Q s := by
  refine ⟨fun _ => I, hs, ?_⟩
  rintro - u hu
  apply wp_mono (hbody u hu)
  intro r v hv
  match r with
  | .ok none => exact hv
  | .ok (some _) => exact hv
  | .error _ => exact hv

/-- Code that keeps a property, however it ends. -/
def Preserves (R G : σ → σ → Prop) (P : σ → Prop) (x : Coroutine σ ε α) : Prop :=
  ∀ s, P s → wp R G x (fun _ => P) s

namespace Preserves

variable {P : σ → Prop} {x : Coroutine σ ε α}

theorem pure {a : α} : Preserves R G P (Pure.pure a : Coroutine σ ε α) := fun _ h => h

theorem throw {e : ε} : Preserves R G P (MonadExcept.throw e : Coroutine σ ε α) := fun _ h => h

theorem ofExcept {r : Except ε α} : Preserves R G P (ofExcept r) := fun _ h => wp_ofExcept h

theorem bind {f : α → Coroutine σ ε β} (hx : Preserves R G P x) (hf : ∀ a, Preserves R G P (f a)) :
    Preserves R G P (x >>= f) := by
  intro s h
  apply wp_mono (hx s h)
  intro r u hu
  cases r with
  | ok a => exact hf a u hu
  | error e => exact hu

/-- Code that keeps a property, before code that needs it. -/
theorem andThen {f : α → Coroutine σ ε β} {Q : Except ε β → σ → Prop} (hx : Preserves R G P x)
    {s : σ} (hs : P s) (herror : ∀ e u, P u → Q (.error e) u)
    (hf : ∀ a u, P u → wp R G (f a) Q u) : wp R G (x >>= f) Q s := by
  apply wp_mono (hx s hs)
  intro r u hu
  cases r with
  | ok a => exact hf a u hu
  | error e => exact herror e u hu

theorem tryCatch {handler : ε → Coroutine σ ε α} (hx : Preserves R G P x)
    (hhandler : ∀ e, Preserves R G P (handler e)) : Preserves R G P (MonadExcept.tryCatch x handler) := by
  intro s h
  apply wp_mono (hx s h)
  intro r u hu
  cases r with
  | ok a => exact hu
  | error e => exact hhandler e u hu

theorem attempt (hx : Preserves R G P x) : Preserves R G P (attempt x) :=
  fun s h => wp_attempt (hx s h)

theorem ite {c : Prop} [Decidable c] {y : Coroutine σ ε α} (hx : Preserves R G P x)
    (hy : Preserves R G P y) : Preserves R G P (if c then x else y) := by
  by_cases h : c
  · rw [if_pos h]
    exact hx
  · rw [if_neg h]
    exact hy

theorem whileDo {condition : Coroutine σ ε Bool} {body : Coroutine σ ε Unit}
    (hcondition : Preserves R G P condition) (hbody : Preserves R G P body) :
    Preserves R G P (whileDo condition body) := by
  intro s h
  refine ⟨fun _ => P, h, ?_⟩
  rintro - u hu
  apply wp_mono (hcondition u hu)
  intro r v hv
  match r with
  | .error e => exact hv
  | .ok false => exact hv
  | .ok true =>
    apply wp_mono (hbody v hv)
    intro r w hw
    cases r with
    | ok => exact hw
    | error e => exact hw

theorem forever {body : Coroutine σ ε (Option α)} (hbody : Preserves R G P body) :
    Preserves R G P (forever body) := by
  intro s h
  apply wp_forever h
  intro u hu
  apply wp_mono (hbody u hu)
  intro r v hv
  match r with
  | .ok none => exact hv
  | .ok (some _) => exact hv
  | .error _ => exact hv

end Preserves

/-- A synchronous step keeps what remains to be shown. -/
theorem wp_of_step {x x' : Coroutine σ ε α} (hstep : Step x s x' s') (h : wp R G x Q s) :
    (s' = s ∨ G s s') ∧ wp R G x' Q s' := by
  induction hstep with
  | step hw => exact ⟨.inr (h _ _ hw).1, wp_ofExcept (h _ _ hw).2⟩
  | bindRet => exact ⟨.inl rfl, h⟩
  | bindRaise => exact ⟨.inl rfl, h⟩
  | bind _ ih => exact ih h
  | tryRet => exact ⟨.inl rfl, h⟩
  | tryRaise => exact ⟨.inl rfl, h⟩
  | tryCatch _ ih => exact ih h
  | loop =>
    obtain ⟨I, hI, hbody⟩ := h
    refine ⟨.inl rfl, ?_⟩
    apply wp_mono (hbody _ _ hI)
    apply ends_mono
    · intro a u ha
      cases a with
      | inl b => exact ⟨I, ha, hbody⟩
      | inr a => exact ha
    · exact fun e u he => he

/-- So does the end of a suspension, after any interference. -/
theorem wp_of_resume {x x' : Coroutine σ ε α} (hresume : Resume x s x' s') (hrefl : R s s)
    (h : wp R G x Q s) : G s s' ∧ wp R G x' Q s' := by
  induction hresume with
  | await hw => exact ⟨(h _ hrefl _ _ hw).1, wp_ofExcept (h _ hrefl _ _ hw).2⟩
  | bind _ ih => exact ih hrefl h
  | tryCatch _ ih => exact ih hrefl h

/-- Interference with suspended code keeps what remains to be shown. -/
theorem wp_of_interference {x : Coroutine σ ε α} (hawaits : Awaits x)
    (htrans : ∀ u, R s' u → R s u) (h : wp R G x Q s) : wp R G x Q s' := by
  induction hawaits with
  | await => exact fun u hu => h u (htrans u hu)
  | bind _ ih => exact ih h
  | tryCatch _ ih => exact ih h

end Preconditions

/-! ## Section 4: Interference

    Each coroutine keeps a guarantee; what interferes with one of them is any
    number of steps that the others or the environment make. -/

section Interference

variable {ι σ ε : Type} {env : σ → σ → Prop} {G : ι → σ → σ → Prop}

/-- A step that is not one of coroutine `i`. -/
def Other (env : σ → σ → Prop) (G : ι → σ → σ → Prop) (i : ι) (s s' : σ) : Prop :=
  env s s' ∨ ∃ j, j ≠ i ∧ G j s s'

/-- Any number of steps that are not ones of coroutine `i`. -/
def Rely (env : σ → σ → Prop) (G : ι → σ → σ → Prop) (i : ι) : σ → σ → Prop :=
  Relation.ReflTransGen (Other env G i)

/-- What no other coroutine can falsify. -/
def Stable (env : σ → σ → Prop) (G : ι → σ → σ → Prop) (i : ι) (P : σ → Prop) : Prop :=
  ∀ s s', Other env G i s s' → P s → P s'

theorem Stable.rely {i : ι} {P : σ → Prop} (h : Stable env G i P) {s s' : σ}
    (hrely : Rely env G i s s') (hs : P s) : P s' := by
  induction hrely with
  | refl => exact hs
  | tail _ hstep ih => exact h _ _ hstep ih

theorem Stable.and {i : ι} {P Q : σ → Prop} (hP : Stable env G i P) (hQ : Stable env G i Q) :
    Stable env G i fun s => P s ∧ Q s := by
  intro s s' hstep hs
  exact ⟨hP s s' hstep hs.1, hQ s s' hstep hs.2⟩

/-- The precondition of coroutine `i` among the others. -/
abbrev pre (env : σ → σ → Prop) (G : ι → σ → σ → Prop) (i : ι) {α : Type}
    (x : Coroutine σ ε α) (Q : Except ε α → σ → Prop) : σ → Prop :=
  wp (Rely env G i) (G i) x Q

/-- A suspension in a state with a stable property. -/
theorem pre_await {i : ι} {α : Type} {w : σ → Except ε α → σ → Prop} {Q : Except ε α → σ → Prop}
    {P : σ → Prop} {s : σ} (hstable : Stable env G i P) (hs : P s)
    (h : ∀ v r v', P v → w v r v' → G i v v' ∧ Q r v') : pre env G i (await w) Q s := by
  intro v hrely r v' hw
  exact h v r v' (hstable.rely hrely hs) hw

variable {Q : ι → Except ε Unit → σ → Prop}

/-- Interference with a coroutine that does not run. -/
theorem pre_of_other {i : ι} {x : Coroutine σ ε Unit} {s s' : σ}
    (hQ : ∀ r, Stable env G i (Q i r)) (hidle : Awaits x ∨ ∃ r, Ended x r)
    (hother : Other env G i s s') (h : pre env G i x (Q i) s) : pre env G i x (Q i) s' := by
  obtain hawaits | ⟨r, hended⟩ := hidle
  · exact wp_of_interference hawaits (fun u hu => .head hother hu) h
  · subst hended
    cases r with
    | ok a => exact hQ _ s s' hother h
    | error e => exact hQ _ s s' hother h

variable [DecidableEq ι]

/-- Every coroutine is where its precondition says, and only one runs. -/
def Verified (env : σ → σ → Prop) (G : ι → σ → σ → Prop) (Q : ι → Except ε Unit → σ → Prop)
    (c : Config ι σ ε) : Prop :=
  ∀ i, pre env G i (c.code i) (Q i) c.shared ∧
    (c.running = some i ∨ Awaits (c.code i) ∨ ∃ r, Ended (c.code i) r)

/-- What a step of coroutine `i` leaves to the others. -/
theorem Verified.advance {c : Config ι σ ε} (hc : Verified env G Q c) {i : ι}
    {x : Coroutine σ ε Unit} {s : σ} (hQ : ∀ i r, Stable env G i (Q i r))
    (halone : c.running = some i ∨ c.running = none) (hG : s = c.shared ∨ G i c.shared s)
    (hx : pre env G i x (Q i) s) : Verified env G Q (c.advance i x s) := by
  intro j
  by_cases hj : j = i
  · subst hj
    simp only [Config.advance, Function.update_self]
    exact ⟨hx, .inl trivial⟩
  · simp only [Config.advance, Function.update_of_ne hj]
    have hidle : Awaits (c.code j) ∨ ∃ r, Ended (c.code j) r := by
      apply (hc j).2.resolve_left
      intro hrun
      rcases halone with h | h
      · rw [h] at hrun
        exact hj (Option.some.inj hrun).symm
      · rw [h] at hrun
        exact nomatch hrun
    refine ⟨?_, .inr hidle⟩
    rcases hG with hG | hG
    · rw [hG]
      exact (hc j).1
    · exact pre_of_other (hQ j) hidle (.inr ⟨i, Ne.symm hj, hG⟩) (hc j).1

/-- What one move of the event loop keeps, and how it changes the state. -/
theorem Verified.move {c c' : Config ι σ ε} {l : Option ι} (hc : Verified env G Q c)
    (hQ : ∀ i r, Stable env G i (Q i r)) (h : Config.Move env c l c') :
    Verified env G Q c' ∧ (c'.shared = c.shared ∨ env c.shared c'.shared ∨
      ∃ i, l = some i ∧ G i c.shared c'.shared) := by
  cases h with
  | step hrun h =>
    rename_i i x s
    obtain ⟨hG, hx⟩ := wp_of_step h (hc i).1
    refine ⟨hc.advance hQ (.inl hrun) hG hx, ?_⟩
    rcases hG with hG | hG
    · exact .inl hG
    · exact .inr (.inr ⟨i, rfl, hG⟩)
  | yield hrun h =>
    rename_i i
    refine ⟨?_, .inl rfl⟩
    intro j
    refine ⟨(hc j).1, .inr ?_⟩
    rcases (hc j).2 with hj | hj
    · rw [hrun] at hj
      obtain rfl := Option.some.inj hj
      exact h
    · exact hj
  | resume hidle h =>
    rename_i i x s
    obtain ⟨hG, hx⟩ := wp_of_resume h .refl (hc i).1
    exact ⟨hc.advance hQ (.inr hidle) (.inr hG) hx, .inr (.inr ⟨i, rfl, hG⟩)⟩
  | env hidle h =>
    refine ⟨?_, .inr (.inl h)⟩
    intro j
    have hj : Awaits (c.code j) ∨ ∃ r, Ended (c.code j) r := by
      apply (hc j).2.resolve_left
      rw [hidle]
      exact nofun
    exact ⟨pre_of_other (hQ j) hj (.inl h) (hc j).1, .inr hj⟩

/-- A move of coroutine `i` changes the state by its guarantee. -/
theorem Verified.guarantee {c c' : Config ι σ ε} {i : ι} (hc : Verified env G Q c)
    (h : Config.Move env c (some i) c') : c'.shared = c.shared ∨ G i c.shared c'.shared := by
  cases h with
  | step _ h => exact (wp_of_step h (hc i).1).1
  | yield => exact .inl rfl
  | resume _ h => exact .inr (wp_of_resume h .refl (hc i).1).1

/-- Coroutines that are verified in every initial state stay so in every run. -/
theorem verified_of_reachable {init : σ → Prop} {code : ι → Coroutine σ ε Unit}
    (hQ : ∀ i r, Stable env G i (Q i r)) (hawaits : ∀ i, Awaits (code i))
    (hpre : ∀ i s, init s → pre env G i (code i) (Q i) s) {c : Config ι σ ε}
    (h : (system env init code).Reachable c) : Verified env G Q c := by
  apply h.invariant
  · intro c hc i
    obtain ⟨hinit, hcode, _⟩ := hc
    rw [hcode]
    exact ⟨hpre i _ hinit, .inr (.inl (hawaits i))⟩
  · intro c l c' _ hc hmove
    exact (hc.move hQ hmove).1

/-- What the environment and every guarantee keep holds in every run. -/
theorem invariant_of_reachable {init I : σ → Prop} {code : ι → Coroutine σ ε Unit}
    (hQ : ∀ i r, Stable env G i (Q i r)) (hawaits : ∀ i, Awaits (code i))
    (hpre : ∀ i s, init s → pre env G i (code i) (Q i) s) (hinit : ∀ s, init s → I s)
    (henv : ∀ s s', env s s' → I s → I s') (hG : ∀ i s s', G i s s' → I s → I s')
    {c : Config ι σ ε} (h : (system env init code).Reachable c) : I c.shared := by
  apply h.invariant (I := fun c => I c.shared)
  · intro c hc
    exact hinit _ hc.1
  · intro c l c' hc hI hmove
    have hverified := verified_of_reachable hQ hawaits hpre hc
    obtain ⟨_, hsame | hmoved | ⟨i, _, hstep⟩⟩ := hverified.move hQ hmove
    · rw [hsame]
      exact hI
    · exact henv _ _ hmoved hI
    · exact hG i _ _ hstep hI

end Interference

/-! ## Section 5: Undisturbed runs

    What a coroutine may do while no other code runs.  Such a run is one of
    the runs of the system (`reachable_of_runs`). -/

section Undisturbed

variable {σ ε : Type}

/-- From `s` the code ends with an outcome in another state. -/
inductive Runs : {α : Type} → Coroutine σ ε α → σ → Except ε α → σ → Prop
  | ret {α : Type} {a : α} {s : σ} : Runs (.ret a) s (.ok a) s
  | raise {α : Type} {e : ε} {s : σ} : Runs (.raise (α := α) e) s (.error e) s
  | step {α : Type} {w : σ → Except ε α → σ → Prop} {s s' : σ} {r : Except ε α} (h : w s r s') :
      Runs (.step w) s r s'
  | await {α : Type} {w : σ → Except ε α → σ → Prop} {s s' : σ} {r : Except ε α} (h : w s r s') :
      Runs (.await w) s r s'
  | bind {α β : Type} {x : Coroutine σ ε α} {f : α → Coroutine σ ε β} {s s' s'' : σ} {a : α}
      {r : Except ε β} (hx : Runs x s (.ok a) s') (hf : Runs (f a) s' r s'') :
      Runs (.bind x f) s r s''
  | bindRaise {α β : Type} {x : Coroutine σ ε α} {f : α → Coroutine σ ε β} {s s' : σ} {e : ε}
      (hx : Runs x s (.error e) s') : Runs (.bind x f) s (.error e) s'
  | tryRet {α : Type} {x : Coroutine σ ε α} {handler : ε → Coroutine σ ε α} {s s' : σ} {a : α}
      (hx : Runs x s (.ok a) s') : Runs (.tryCatch x handler) s (.ok a) s'
  | tryRaise {α : Type} {x : Coroutine σ ε α} {handler : ε → Coroutine σ ε α} {s s' s'' : σ} {e : ε}
      {r : Except ε α} (hx : Runs x s (.error e) s') (hhandler : Runs (handler e) s' r s'') :
      Runs (.tryCatch x handler) s r s''
  | loop {α β : Type} {body : β → Coroutine σ ε (β ⊕ α)} {b : β} {s s' : σ} {r : Except ε α}
      (h : Runs (.bind (body b) (again body)) s r s') : Runs (.loop body b) s r s'

/-- Steps and suspensions of one coroutine, without interference. -/
inductive Steps : {α : Type} → Coroutine σ ε α → σ → Coroutine σ ε α → σ → Prop
  | refl {α : Type} {x : Coroutine σ ε α} {s : σ} : Steps x s x s
  | step {α : Type} {x y z : Coroutine σ ε α} {s t u : σ} (h : Step x s y t) (hrest : Steps y t z u) :
      Steps x s z u
  | resume {α : Type} {x y z : Coroutine σ ε α} {s t u : σ} (h : Resume x s y t)
      (hrest : Steps y t z u) : Steps x s z u

variable {α β : Type} {x y z : Coroutine σ ε α} {s t u : σ}

theorem Steps.trans (hxy : Steps x s y t) (hyz : Steps y t z u) : Steps x s z u := by
  induction hxy with
  | refl => exact hyz
  | step h _ ih => exact .step h (ih hyz)
  | resume h _ ih => exact .resume h (ih hyz)

theorem Steps.bind {f : α → Coroutine σ ε β} (h : Steps x s y t) :
    Steps (.bind x f) s (.bind y f) t := by
  induction h with
  | refl => exact .refl
  | step h _ ih => exact .step (.bind h) ih
  | resume h _ ih => exact .resume (.bind h) ih

theorem Steps.tryCatch {handler : ε → Coroutine σ ε α} (h : Steps x s y t) :
    Steps (.tryCatch x handler) s (.tryCatch y handler) t := by
  induction h with
  | refl => exact .refl
  | step h _ ih => exact .step (.tryCatch h) ih
  | resume h _ ih => exact .resume (.tryCatch h) ih

theorem Runs.steps {r : Except ε α} (h : Runs x s r t) : Steps x s (ofExcept r) t := by
  induction h with
  | ret => exact .refl
  | raise => exact .refl
  | step h => exact .step (.step h) .refl
  | await h => exact .resume (.await h) .refl
  | bind _ _ ihx ihf => exact ihx.bind.trans (.step .bindRet ihf)
  | bindRaise _ ihx => exact ihx.bind.trans (.step .bindRaise .refl)
  | tryRet _ ihx => exact ihx.tryCatch.trans (.step .tryRet .refl)
  | tryRaise _ _ ihx ihh => exact ihx.tryCatch.trans (.step .tryRaise ihh)
  | loop _ ih => exact .step .loop ih

/-- What is shown of code holds at the end of its undisturbed runs. -/
theorem Runs.establishes {R G : σ → σ → Prop} {Q : Except ε α → σ → Prop} {r : Except ε α}
    (h : Runs x s r t) (hrefl : ∀ u, R u u) (hwp : wp R G x Q s) : Q r t := by
  induction h with
  | ret => exact hwp
  | raise => exact hwp
  | step h => exact (hwp _ _ h).2
  | await h => exact (hwp _ (hrefl _) _ _ h).2
  | bind _ _ ihx ihf => exact ihf (ihx (wp_bind.mp hwp))
  | bindRaise _ ihx => exact ihx (wp_bind.mp hwp)
  | tryRet _ ihx =>
    have hx := ihx (wp_tryCatch.mp hwp)
    exact hx
  | tryRaise _ _ ihx ihh =>
    have hx := ihx (wp_tryCatch.mp hwp)
    exact ihh hx
  | loop _ ih => exact ih (wp_of_step .loop hwp).2

theorem Resume.awaits (h : Resume x s y t) : Awaits x := by
  induction h with
  | await => exact .await
  | bind _ ih => exact .bind ih
  | tryCatch _ ih => exact .tryCatch ih

variable {ι : Type} [DecidableEq ι] {env : σ → σ → Prop} {init : σ → Prop}
  {code : ι → Coroutine σ ε Unit}

/-- The coroutine that runs goes on by its own steps. -/
theorem reachable_of_steps {c : Config ι σ ε} {i : ι} {x' y' : Coroutine σ ε Unit}
    (hc : (system env init code).Reachable c) (hrun : c.running = some i) (hcode : c.code i = x')
    (h : Steps x' c.shared y' t) :
    ∃ c', (system env init code).Reachable c' ∧ c'.running = some i ∧ c'.code i = y' ∧
      c'.shared = t := by
  generalize hs : c.shared = s at h
  induction h generalizing c with
  | refl => exact ⟨c, hc, hrun, hcode, hs⟩
  | step h _ ih =>
    subst hs hcode
    apply ih (hc.step (.step hrun h)) rfl _ rfl
    exact Function.update_self ..
  | resume h _ ih =>
    subst hs hcode
    have hidle := hc.step (.yield hrun (.inl h.awaits))
    apply ih (hidle.step (.resume rfl h)) rfl _ rfl
    exact Function.update_self ..

/-- A coroutine may run on its own from the start to its end. -/
theorem ended_of_runs {s : σ} {i : ι} {w : σ → Except ε Unit → σ → Prop}
    {f : Unit → Coroutine σ ε Unit} {r : Except ε Unit} (hinit : init s)
    (hcode : code i = .bind (.await w) f) (h : Runs (code i) s r t) :
    ∃ c, (system env init code).Reachable c ∧ Ended (c.code i) r ∧ c.shared = t := by
  have hstart : (system env init code).Reachable ⟨s, code, none⟩ := .init ⟨hinit, rfl, rfl⟩
  have hsteps := h.steps
  generalize hx : code i = x at hsteps
  generalize hy : ofExcept r = y at hsteps
  cases hsteps with
  | refl =>
    rw [← hy, hcode] at hx
    cases r with
    | ok => exact nomatch hx
    | error e => exact nomatch hx
  | step h _ =>
    rw [← hx, hcode] at h
    cases h with
    | bind h => exact nomatch h
  | resume h hrest =>
    rw [← hx] at h
    obtain ⟨c, hc, _, hend, hshared⟩ := reachable_of_steps (hstart.step (.resume rfl h)) rfl
      (Function.update_self ..) hrest
    exact ⟨c, hc, hend.trans hy.symm, hshared⟩

/-- So what it comes to is reachable. -/
theorem reachable_of_runs {s : σ} {i : ι} {w : σ → Except ε Unit → σ → Prop}
    {f : Unit → Coroutine σ ε Unit} {r : Except ε Unit} (hinit : init s)
    (hcode : code i = .bind (.await w) f) (h : Runs (code i) s r t) :
    ∃ c, (system env init code).Reachable c ∧ c.shared = t := by
  have hended : ∃ c, (system env init code).Reachable c ∧ Ended (c.code i) r ∧ c.shared = t :=
    ended_of_runs hinit hcode h
  obtain ⟨c, hc, -, hshared⟩ := hended
  exact ⟨c, hc, hshared⟩

end Undisturbed
end Coroutine
