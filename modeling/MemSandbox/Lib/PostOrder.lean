import MemSandbox.Lib.Tree

/-! # Iterative post-order traversal

    The explicit-stack traversal: a directory is pushed twice, once to push
    its children and once, marked visited, to combine their results, which the
    loop keeps in a table keyed by the identity of the node.  In a tree the
    identity of a node is its position, the path from the start.

    `PostOrder` collects what a particular traversal does at its three events.
    `exec_spec` is the rule: a traversal whose events agree with a recursive
    function computes that function, and its loop ends after `visits` pops.
    `exec_directory` says what it raises as well: the traversal of a directory
    is the recursion over its children. -/

/-- What a traversal does at a file, at the first and at the second visit of a
    directory.  `σ` is what the stack carries with a node. -/
structure PostOrder (κ β σ ρ ε : Type) where
  leaf : σ → β → Except ε ρ
  /-- The children in the order in which they are pushed. -/
  enter : σ → List (κ × FileTree κ β) → Except ε (List (κ × FileTree κ β × σ))
  /-- Reads the children's results from the table. -/
  leave : List (κ × FileTree κ β) → (κ → Option ρ) → Except ε ρ
  /-- The error of a lookup that misses. -/
  missing : ε

namespace PostOrder

variable {κ β σ ρ ε : Type} [DecidableEq κ]

/-- A stack entry. -/
structure Pending (κ β σ : Type) where
  node : FileTree κ β
  context : σ
  position : List κ
  visited : Bool

/-- The results so far, by position. -/
abbrev Table (κ ρ : Type) : Type := List (List κ × ρ)

/-- The stack entry of a child that the first visit pushes. -/
def child (position : List κ) (c : κ × FileTree κ β × σ) : Pending κ β σ :=
  ⟨c.2.1, c.2.2, position ++ [c.1], false⟩

/-- One turn of the loop, on the popped entry. -/
def step (W : PostOrder κ β σ ρ ε) (table : Table κ ρ) (top : Pending κ β σ)
    (rest : List (Pending κ β σ)) : Except ε (Table κ ρ × List (Pending κ β σ)) :=
  match top.node with
  | .file content =>
    (W.leaf top.context content).map fun r => (Dict.set top.position r table, rest)
  | .directory children =>
    if top.visited then
      (W.leave children fun k => Dict.get? (top.position ++ [k]) table).map fun r =>
        (Dict.set top.position r table, rest)
    else
      (W.enter top.context children).map fun pushed =>
        (table, (pushed.map (child top.position)).reverse ++ { top with visited := true } :: rest)

/-- The loop; `none` when the fuel runs out before the stack does. -/
def run (W : PostOrder κ β σ ρ ε) :
    Nat → Table κ ρ → List (Pending κ β σ) → Option (Except ε (Table κ ρ))
  | _, table, [] => some (.ok table)
  | 0, _, _ :: _ => none
  | fuel + 1, table, top :: rest =>
    match W.step table top rest with
    | .error e => some (.error e)
    | .ok (table, pending) => run W fuel table pending

mutual

/-- The number of pops a tree takes. -/
def visits : FileTree κ β → Nat
  | .file _ => 1
  | .directory children => 2 + visitsAll children

/-- The number of pops a list of children takes. -/
def visitsAll : List (κ × FileTree κ β) → Nat
  | [] => 0
  | (_, t) :: rest => visits t + visitsAll rest

end

/-- The traversal of `t` with context `s`. -/
def exec (W : PostOrder κ β σ ρ ε) (s : σ) (t : FileTree κ β) : Except ε ρ :=
  match W.run (visits t) [] [⟨t, s, [], false⟩] with
  | some (.ok table) =>
    match Dict.get? [] table with
    | some r => .ok r
    | none => .error W.missing
  | some (.error e) => .error e
  | none => .error W.missing

/-! ## Section 1: The rule -/

omit [DecidableEq κ] in
theorem visitsAll_eq_sum (cs : List (κ × FileTree κ β)) :
    visitsAll cs = (cs.map fun c => visits c.2).sum := by
  induction cs with
  | nil => rfl
  | cons c cs ih => rw [visitsAll, ih]; rfl

/-- On well-formed directories, the traversal agrees with the recursive
    function `spec`, event by event. -/
structure Meets (W : PostOrder κ β σ ρ ε) (P : κ → Prop) (spec : σ → FileTree κ β → Option ρ) :
    Prop where
  leaf : ∀ s c, (W.leaf s c).toOption = spec s (.file c)
  enter_error : ∀ s cs, (FileTree.directory cs).WellFormed P → ∀ e, W.enter s cs = .error e →
    spec s (.directory cs) = none
  enter_perm : ∀ s cs pushed, W.enter s cs = .ok pushed →
    (pushed.map fun c => (c.1, c.2.1)).Perm cs
  child_error : ∀ s cs, (FileTree.directory cs).WellFormed P → ∀ pushed,
    W.enter s cs = .ok pushed → ∀ c ∈ pushed, spec c.2.2 c.2.1 = none →
    spec s (.directory cs) = none
  leave : ∀ s cs, (FileTree.directory cs).WellFormed P → ∀ pushed, W.enter s cs = .ok pushed →
    ∀ look : κ → Option ρ, (∀ c ∈ pushed, look c.1 = spec c.2.2 c.2.1 ∧ (look c.1).isSome) →
    (W.leave cs look).toOption = spec s (.directory cs)

/-- Popping `items` takes `cost` turns and turns the table into a `good` one. -/
def Delivers (W : PostOrder κ β σ ρ ε) (cost : Nat) (table : Table κ ρ)
    (items : List (Pending κ β σ)) (good : Table κ ρ → Prop) : Prop :=
  ∃ table', good table' ∧
    ∀ fuel rest, W.run (fuel + cost) table (items ++ rest) = W.run fuel table' rest

/-- Popping `items` raises within `cost` turns. -/
def Raises (W : PostOrder κ β σ ρ ε) (cost : Nat) (table : Table κ ρ)
    (items : List (Pending κ β σ)) : Prop :=
  ∃ e, ∀ fuel rest, W.run (fuel + cost) table (items ++ rest) = some (.error e)

/-- What popping the tree `t` at `position` does, when `spec` is what it computes. -/
def Computes (W : PostOrder κ β σ ρ ε) (spec : σ → FileTree κ β → Option ρ) (t : FileTree κ β) :
    Prop :=
  ∀ s position table,
    match spec s t with
    | some r => W.Delivers (visits t) table [⟨t, s, position, false⟩] fun table' =>
        Dict.get? position table' = some r ∧
          ∀ q, ¬ position <+: q → Dict.get? q table' = Dict.get? q table
    | none => W.Raises (visits t) table [⟨t, s, position, false⟩]

variable {W : PostOrder κ β σ ρ ε} {P : κ → Prop} {spec : σ → FileTree κ β → Option ρ}

omit [DecidableEq κ] in
theorem ne_of_not_isPrefix {p q : List κ} (h : ¬ p <+: q) : q ≠ p := by
  rintro rfl
  exact h (List.prefix_refl _)

theorem computes_file (hW : W.Meets P spec) (c : β) : W.Computes spec (.file c) := by
  intro s position table
  have hleaf := hW.leaf s c
  cases h : W.leaf s c with
  | ok r =>
    rw [h] at hleaf
    simp only [Except.toOption] at hleaf
    rw [← hleaf]
    refine ⟨Dict.set position r table, ⟨by simp, ?_⟩, ?_⟩
    · intro q hq
      exact Dict.get?_set_ne (ne_of_not_isPrefix hq) r table
    · intro fuel rest
      simp [visits, run, step, h, Except.map]
  | error e =>
    rw [h] at hleaf
    simp only [Except.toOption] at hleaf
    rw [← hleaf]
    exact ⟨e, fun fuel rest => by simp [visits, run, step, h, Except.map]⟩

/-- Popping several children, first to last. -/
theorem computes_children (position : List κ) {cs : List (κ × FileTree κ β × σ)}
    (hcs : ∀ c ∈ cs, W.Computes spec c.2.1) (hkeys : (cs.map Prod.fst).Nodup)
    (table : Table κ ρ) :
    (∀ c ∈ cs, (spec c.2.2 c.2.1).isSome) ∧
      W.Delivers (cs.map fun c => visits c.2.1).sum table (cs.map (child position)) (fun table' =>
        (∀ c ∈ cs, Dict.get? (position ++ [c.1]) table' = spec c.2.2 c.2.1) ∧
          ∀ q, (∀ c ∈ cs, ¬ position ++ [c.1] <+: q) → Dict.get? q table' = Dict.get? q table) ∨
    (∃ c ∈ cs, spec c.2.2 c.2.1 = none) ∧
      W.Raises (cs.map fun c => visits c.2.1).sum table (cs.map (child position)) := by
  induction cs generalizing table with
  | nil => exact .inl ⟨by simp, table, by simp, by simp⟩
  | cons c cs ih =>
    have hc := hcs c List.mem_cons_self c.2.2 (position ++ [c.1]) table
    rw [List.map_cons, List.nodup_cons] at hkeys
    cases hspec : spec c.2.2 c.2.1 with
    | none =>
      rw [hspec] at hc
      obtain ⟨e, he⟩ := hc
      refine .inr ⟨⟨c, List.mem_cons_self, hspec⟩, e, ?_⟩
      intro fuel rest
      rw [List.map_cons, List.sum_cons, Nat.add_comm (visits _), ← Nat.add_assoc]
      exact he _ _
    | some r =>
      rw [hspec] at hc
      obtain ⟨table₁, ⟨hr, hframe₁⟩, hrun₁⟩ := hc
      have hstep : ∀ fuel rest, W.run (fuel + ((c :: cs).map fun c => visits c.2.1).sum) table
          ((c :: cs).map (child position) ++ rest) =
          W.run (fuel + (cs.map fun c => visits c.2.1).sum) table₁
            (cs.map (child position) ++ rest) := by
        intro fuel rest
        rw [List.map_cons, List.sum_cons, Nat.add_comm (visits _), ← Nat.add_assoc]
        exact hrun₁ _ _
      rcases ih (fun d hd => hcs d (List.mem_cons_of_mem _ hd)) hkeys.2 table₁ with
        ⟨hsome, table₂, ⟨hres, hframe₂⟩, hrun₂⟩ | ⟨⟨d, hd, hnone⟩, e, he⟩
      · refine .inl ⟨?_, table₂, ⟨?_, ?_⟩, ?_⟩
        · intro d hd
          rcases List.mem_cons.mp hd with rfl | hd
          · simp [hspec]
          · exact hsome d hd
        · intro d hd
          rcases List.mem_cons.mp hd with rfl | hd
          · rw [hframe₂, hr, hspec]
            -- a later sibling never touches this child's entry
            intro d' hd' hpre
            have : d'.1 = d.1 := by simpa [List.prefix_append_right_inj] using hpre
            exact hkeys.1 (this ▸ List.mem_map_of_mem hd')
          · exact hres d hd
        · intro q hq
          rw [hframe₂ q fun d hd => hq d (List.mem_cons_of_mem _ hd)]
          exact hframe₁ q (hq c List.mem_cons_self)
        · intro fuel rest
          rw [hstep, hrun₂]
      · refine .inr ⟨⟨d, List.mem_cons_of_mem _ hd, hnone⟩, e, ?_⟩
        intro fuel rest
        rw [hstep, he]

theorem computes_directory (hW : W.Meets P spec) {cs : List (κ × FileTree κ β)}
    (hcs : ∀ c ∈ cs, W.Computes spec c.2) (hwell : (FileTree.directory cs).WellFormed P) :
    W.Computes spec (.directory cs) := by
  intro s position table
  cases henter : W.enter s cs with
  | error e =>
    rw [hW.enter_error s cs hwell e henter]
    refine ⟨e, fun fuel rest => ?_⟩
    rw [visits, show fuel + (2 + visitsAll cs) = fuel + (1 + visitsAll cs) + 1 by omega]
    simp [run, step, henter, Except.map]
  | ok pushed =>
    have hperm := hW.enter_perm s cs pushed henter
    have hcost : ((pushed.reverse).map fun c => visits c.2.1).sum = visitsAll cs := by
      rw [List.map_reverse, List.sum_reverse, visitsAll_eq_sum]
      have := (hperm.map fun c => visits c.2).sum_eq
      rwa [List.map_map] at this
    have hfirst : ∀ fuel rest, W.run (fuel + visits (.directory cs)) table
        ([⟨.directory cs, s, position, false⟩] ++ rest) =
        W.run (fuel + 1 + ((pushed.reverse).map fun c => visits c.2.1).sum) table
          ((pushed.reverse).map (child position) ++
            (⟨.directory cs, s, position, true⟩ :: rest)) := by
      intro fuel rest
      rw [hcost, visits, show fuel + (2 + visitsAll cs) = fuel + 1 + visitsAll cs + 1 by omega]
      simp [run, step, henter, Except.map]
    have hall : ∀ c ∈ pushed.reverse, W.Computes spec c.2.1 := by
      intro c hc
      have : (c.1, c.2.1) ∈ cs :=
        hperm.mem_iff.mp (List.mem_map_of_mem (List.mem_reverse.mp hc))
      exact hcs _ this
    have hnodup : ((pushed.reverse).map Prod.fst).Nodup := by
      rw [List.map_reverse, List.nodup_reverse]
      have := (hperm.map Prod.fst).nodup_iff.mpr hwell.unique
      rwa [List.map_map] at this
    rcases computes_children position hall hnodup table with
      ⟨hsome, table₁, ⟨hres, hframe₁⟩, hrun₁⟩ | ⟨⟨c, hc, hnone⟩, e, he⟩
    · have hlook : ∀ c ∈ pushed,
          Dict.get? (position ++ [c.1]) table₁ = spec c.2.2 c.2.1 ∧
            (Dict.get? (position ++ [c.1]) table₁).isSome := by
        intro c hc
        have hc := List.mem_reverse.mpr hc
        exact ⟨hres c hc, by rw [hres c hc]; exact hsome c hc⟩
      have hleave := hW.leave s cs hwell pushed henter
        (fun k => Dict.get? (position ++ [k]) table₁) hlook
      cases h : W.leave cs fun k => Dict.get? (position ++ [k]) table₁ with
      | ok r =>
        rw [h] at hleave
        simp only [Except.toOption] at hleave
        rw [← hleave]
        refine ⟨Dict.set position r table₁, ⟨by simp, ?_⟩, ?_⟩
        · intro q hq
          rw [Dict.get?_set_ne (ne_of_not_isPrefix hq)]
          exact hframe₁ q fun c _ hpre => hq ((List.prefix_append _ _).trans hpre)
        · intro fuel rest
          rw [hfirst, hrun₁]
          simp [run, step, h, Except.map]
      | error e =>
        rw [h] at hleave
        simp only [Except.toOption] at hleave
        rw [← hleave]
        refine ⟨e, fun fuel rest => ?_⟩
        rw [hfirst, hrun₁]
        simp [run, step, h, Except.map]
    · rw [hW.child_error s cs hwell pushed henter c (List.mem_reverse.mp hc) hnone]
      exact ⟨e, fun fuel rest => by rw [hfirst, he]⟩

theorem computes (hW : W.Meets P spec) {t : FileTree κ β} (ht : t.WellFormed P) :
    W.Computes spec t := by
  induction t using FileTree.induct with
  | file c => exact computes_file hW c
  | directory cs ih =>
    exact computes_directory hW (fun c hc => ih c hc (ht.subtrees c hc)) ht

/-- The loop ends within `visits` pops. -/
theorem run_visits (hW : W.Meets P spec) {t : FileTree κ β} (ht : t.WellFormed P)
    (s : σ) : (W.run (visits t) [] [⟨t, s, [], false⟩]).isSome := by
  have h := computes hW ht s [] []
  cases hspec : spec s t with
  | some r =>
    rw [hspec] at h
    obtain ⟨table, -, hrun⟩ := h
    have := hrun 0 []
    simp only [Nat.zero_add, List.append_nil] at this
    rw [this]
    rfl
  | none =>
    rw [hspec] at h
    obtain ⟨e, he⟩ := h
    have := he 0 []
    simp only [Nat.zero_add, List.append_nil] at this
    rw [this]
    rfl

/-- A traversal that meets `spec` computes it. -/
theorem exec_spec (hW : W.Meets P spec) {t : FileTree κ β} (ht : t.WellFormed P)
    (s : σ) : (W.exec s t).toOption = spec s t := by
  have h := computes hW ht s [] []
  unfold exec
  cases hspec : spec s t with
  | some r =>
    rw [hspec] at h
    obtain ⟨table, ⟨hr, -⟩, hrun⟩ := h
    have := hrun 0 []
    simp only [Nat.zero_add, List.append_nil] at this
    rw [this]
    simp [run, hr, Except.toOption]
  | none =>
    rw [hspec] at h
    obtain ⟨e, he⟩ := h
    have := he 0 []
    simp only [Nat.zero_add, List.append_nil] at this
    rw [this]
    rfl

/-! ## Section 2: What a traversal raises -/

/-- The three events, and the lookup that misses, raise only what satisfies `Q`. -/
structure RaisesOnly (W : PostOrder κ β σ ρ ε) (Q : ε → Prop) : Prop where
  leaf : ∀ s c e, W.leaf s c = .error e → Q e
  enter : ∀ s cs e, W.enter s cs = .error e → Q e
  leave : ∀ cs look e, W.leave cs look = .error e → Q e
  missing : Q W.missing

theorem step_raises {Q : ε → Prop} (hW : W.RaisesOnly Q) {table : Table κ ρ}
    {top : Pending κ β σ} {rest : List (Pending κ β σ)} {e : ε}
    (h : W.step table top rest = .error e) : Q e := by
  have hmap : ∀ {α γ : Type} {x : Except ε α} {f : α → γ}, x.map f = .error e → x = .error e := by
    intro α γ x f hx
    cases x with
    | ok a => cases hx
    | error e' =>
      simp only [Except.map, Except.error.injEq] at hx
      rw [hx]
  unfold step at h
  cases hnode : top.node with
  | file content =>
    rw [hnode] at h
    exact hW.leaf _ _ _ (hmap h)
  | directory children =>
    simp only [hnode] at h
    by_cases hvisited : top.visited = true
    · rw [if_pos hvisited] at h
      exact hW.leave _ _ _ (hmap h)
    · rw [if_neg hvisited] at h
      exact hW.enter _ _ _ (hmap h)

theorem run_raises {Q : ε → Prop} (hW : W.RaisesOnly Q) {fuel : Nat} {table : Table κ ρ}
    {stack : List (Pending κ β σ)} {e : ε} (h : W.run fuel table stack = some (.error e)) :
    Q e := by
  induction fuel generalizing table stack with
  | zero =>
    cases stack with
    | nil => cases h
    | cons top rest => cases h
  | succ fuel ih =>
    cases stack with
    | nil => cases h
    | cons top rest =>
      cases hstep : W.step table top rest with
      | error e' =>
        simp only [run, hstep, Option.some.injEq, Except.error.injEq] at h
        subst h
        exact step_raises hW hstep
      | ok next =>
        simp only [run, hstep] at h
        exact ih h

/-- A traversal raises what its events raise. -/
theorem exec_raises {Q : ε → Prop} (hW : W.RaisesOnly Q) {s : σ} {t : FileTree κ β} {e : ε}
    (h : W.exec s t = .error e) : Q e := by
  unfold exec at h
  cases hrun : W.run (visits t) [] [⟨t, s, [], false⟩] with
  | none =>
    simp only [hrun, Except.error.injEq] at h
    exact h ▸ hW.missing
  | some result =>
    cases result with
    | error e' =>
      simp only [hrun, Except.error.injEq] at h
      exact h ▸ run_raises hW hrun
    | ok table =>
      cases hget : Dict.get? ([] : List κ) table with
      | none =>
        simp only [hrun, hget, Except.error.injEq] at h
        exact h ▸ hW.missing
      | some r =>
        simp only [hrun, hget] at h
        cases h

/-! ## Section 3: The recursion, errors included -/

/-- The first visit pushes every child once, and the second reads the results
    of the children only. -/
structure Regular (W : PostOrder κ β σ ρ ε) : Prop where
  enter_perm : ∀ s cs pushed, W.enter s cs = .ok pushed →
    (pushed.map fun c => (c.1, c.2.1)).Perm cs
  leave_congr : ∀ cs look look', (∀ c ∈ cs, look c.1 = look' c.1) → W.leave cs look = W.leave cs look'

/-- The results of children, up to the first that raises. -/
def collect (W : PostOrder κ β σ ρ ε) :
    List (κ × FileTree κ β × σ) → Except ε (List (κ × ρ))
  | [] => .ok []
  | c :: rest => (W.exec c.2.2 c.2.1).bind fun r => (W.collect rest).bind fun tail => .ok ((c.1, r) :: tail)

/-- What a directory gives, by recursion. -/
def recurse (W : PostOrder κ β σ ρ ε) (s : σ) (cs : List (κ × FileTree κ β)) : Except ε ρ :=
  (W.enter s cs).bind fun pushed => (W.collect pushed.reverse).bind fun results =>
    W.leave cs fun k => Dict.get? k results

/-- Popping the tree `t` with context `s` gives `result`, wherever it stands. -/
structure Yields (W : PostOrder κ β σ ρ ε) (t : FileTree κ β) (s : σ) (result : Except ε ρ) :
    Prop where
  ok : ∀ r, result = .ok r → ∀ position table,
    W.Delivers (visits t) table [⟨t, s, position, false⟩] fun table' =>
      Dict.get? position table' = some r ∧
        ∀ q, ¬ position <+: q → Dict.get? q table' = Dict.get? q table
  error : ∀ e, result = .error e → ∀ position table fuel rest,
    W.run (fuel + visits t) table ([⟨t, s, position, false⟩] ++ rest) = some (.error e)

/-- What a tree yields is what the traversal of it returns. -/
theorem Yields.exec_eq {t : FileTree κ β} {s : σ} {result : Except ε ρ}
    (h : W.Yields t s result) : W.exec s t = result := by
  unfold exec
  cases hresult : result with
  | ok r =>
    obtain ⟨table, ⟨hr, -⟩, hrun⟩ := h.ok r hresult [] []
    have hrun := hrun 0 []
    rw [Nat.zero_add, List.append_nil] at hrun
    rw [hrun]
    simp [run, hr]
  | error e =>
    have hrun := h.error e hresult [] [] 0 []
    rw [Nat.zero_add, List.append_nil] at hrun
    rw [hrun]

theorem yields_file (s : σ) (c : β) : W.Yields (.file c) s (W.leaf s c) where
  ok r h position table := by
    refine ⟨Dict.set position r table, ⟨by simp, ?_⟩, ?_⟩
    · intro q hq
      exact Dict.get?_set_ne (ne_of_not_isPrefix hq) r table
    · intro fuel rest
      simp [visits, run, step, h, Except.map]
  error e h position table fuel rest := by
    simp [visits, run, step, h, Except.map]

/-- Popping several children, first to last. -/
theorem yields_children (position : List κ) {cs : List (κ × FileTree κ β × σ)}
    (hcs : ∀ c ∈ cs, W.Yields c.2.1 c.2.2 (W.exec c.2.2 c.2.1)) (hkeys : (cs.map Prod.fst).Nodup)
    (table : Table κ ρ) :
    (∃ results, W.collect cs = .ok results ∧
      W.Delivers (cs.map fun c => visits c.2.1).sum table (cs.map (child position)) fun table' =>
        (∀ c ∈ cs, Dict.get? (position ++ [c.1]) table' = Dict.get? c.1 results) ∧
          ∀ q, (∀ c ∈ cs, ¬ position ++ [c.1] <+: q) → Dict.get? q table' = Dict.get? q table) ∨
    ∃ e, W.collect cs = .error e ∧ ∀ fuel rest,
      W.run (fuel + (cs.map fun c => visits c.2.1).sum) table (cs.map (child position) ++ rest) =
        some (.error e) := by
  induction cs generalizing table with
  | nil => exact .inl ⟨[], rfl, table, by simp, by simp⟩
  | cons c cs ih =>
    have hc := hcs c List.mem_cons_self
    rw [List.map_cons, List.nodup_cons] at hkeys
    have hcost : ∀ fuel, fuel + ((c :: cs).map fun c => visits c.2.1).sum =
        fuel + (cs.map fun c => visits c.2.1).sum + visits c.2.1 := by
      intro fuel
      rw [List.map_cons, List.sum_cons]
      omega
    cases hresult : W.exec c.2.2 c.2.1 with
    | error e =>
      refine .inr ⟨e, ?_, fun fuel rest => ?_⟩
      · rw [collect, hresult]
        rfl
      · rw [hcost]
        exact hc.error e hresult _ _ _ _
    | ok r =>
      obtain ⟨table₁, ⟨hr, hframe₁⟩, hrun₁⟩ := hc.ok r hresult (position ++ [c.1]) table
      have hstep : ∀ fuel rest, W.run (fuel + ((c :: cs).map fun c => visits c.2.1).sum) table
          ((c :: cs).map (child position) ++ rest) =
          W.run (fuel + (cs.map fun c => visits c.2.1).sum) table₁
            (cs.map (child position) ++ rest) := by
        intro fuel rest
        rw [hcost]
        exact hrun₁ _ _
      rcases ih (fun d hd => hcs d (List.mem_cons_of_mem _ hd)) hkeys.2 table₁ with
        ⟨results, hresults, table₂, ⟨hlook, hframe₂⟩, hrun₂⟩ | ⟨e, he, hrun⟩
      · refine .inl ⟨(c.1, r) :: results, ?_, table₂, ⟨?_, ?_⟩, ?_⟩
        · rw [collect, hresult, hresults]
          rfl
        · intro d hd
          rcases List.mem_cons.mp hd with rfl | hd
          · rw [hframe₂, hr, Dict.get?, if_pos rfl]
            -- a later sibling never touches this child's entry
            intro d' hd' hpre
            have : d'.1 = d.1 := by simpa [List.prefix_append_right_inj] using hpre
            exact hkeys.1 (this ▸ List.mem_map_of_mem hd')
          · have hne : c.1 ≠ d.1 := fun heq => hkeys.1 (heq ▸ List.mem_map_of_mem hd)
            rw [Dict.get?, if_neg hne]
            exact hlook d hd
        · intro q hq
          rw [hframe₂ q fun d hd => hq d (List.mem_cons_of_mem _ hd)]
          exact hframe₁ q (hq c List.mem_cons_self)
        · intro fuel rest
          rw [hstep, hrun₂]
      · refine .inr ⟨e, ?_, fun fuel rest => ?_⟩
        · rw [collect, hresult, he]
          rfl
        · rw [hstep, hrun]

theorem yields_directory (hW : W.Regular) {cs : List (κ × FileTree κ β)}
    (hcs : ∀ c ∈ cs, ∀ s, W.Yields c.2 s (W.exec s c.2)) (hkeys : Dict.UniqueKeys cs) (s : σ) :
    W.Yields (.directory cs) s (W.recurse s cs) := by
  cases henter : W.enter s cs with
  | error e =>
    have hrec : W.recurse s cs = .error e := by
      rw [recurse, henter]
      rfl
    refine ⟨fun r h => ?_, fun e' h position table fuel rest => ?_⟩
    · rw [hrec] at h
      cases h
    · rw [hrec] at h
      cases h
      rw [visits, show fuel + (2 + visitsAll cs) = fuel + (1 + visitsAll cs) + 1 by omega]
      simp [run, step, henter, Except.map]
  | ok pushed =>
    have hperm := hW.enter_perm s cs pushed henter
    have hcost : ((pushed.reverse).map fun c => visits c.2.1).sum = visitsAll cs := by
      rw [List.map_reverse, List.sum_reverse, visitsAll_eq_sum]
      have := (hperm.map fun c => visits c.2).sum_eq
      rwa [List.map_map] at this
    have hfirst : ∀ position table fuel rest, W.run (fuel + visits (.directory cs)) table
        ([⟨.directory cs, s, position, false⟩] ++ rest) =
        W.run (fuel + 1 + ((pushed.reverse).map fun c => visits c.2.1).sum) table
          ((pushed.reverse).map (child position) ++
            (⟨.directory cs, s, position, true⟩ :: rest)) := by
      intro position table fuel rest
      rw [hcost, visits, show fuel + (2 + visitsAll cs) = fuel + 1 + visitsAll cs + 1 by omega]
      simp [run, step, henter, Except.map]
    have hall : ∀ c ∈ pushed.reverse, W.Yields c.2.1 c.2.2 (W.exec c.2.2 c.2.1) := by
      intro c hc
      have : (c.1, c.2.1) ∈ cs :=
        hperm.mem_iff.mp (List.mem_map_of_mem (List.mem_reverse.mp hc))
      exact hcs _ this _
    have hnodup : ((pushed.reverse).map Prod.fst).Nodup := by
      rw [List.map_reverse, List.nodup_reverse]
      have := (hperm.map Prod.fst).nodup_iff.mpr hkeys
      rwa [List.map_map] at this
    have hkey : ∀ c ∈ cs, ∃ d ∈ pushed.reverse, d.1 = c.1 := by
      intro c hc
      obtain ⟨d, hd, heq⟩ := List.mem_map.mp (hperm.mem_iff.mpr hc)
      exact ⟨d, List.mem_reverse.mpr hd, congrArg Prod.fst heq⟩
    -- what the second visit returns, given the results of the children
    have hleave : ∀ {position : List κ} {table : Table κ ρ} {results : List (κ × ρ)},
        (∀ c ∈ pushed.reverse, Dict.get? (position ++ [c.1]) table = Dict.get? c.1 results) →
        (W.leave cs fun k => Dict.get? (position ++ [k]) table) =
          W.leave cs fun k => Dict.get? k results := by
      intro position table results hlook
      refine hW.leave_congr _ _ _ fun c hc => ?_
      obtain ⟨d, hd, hname⟩ := hkey c hc
      rw [← hname]
      exact hlook d hd
    refine ⟨fun r h position table => ?_, fun e h position table fuel rest => ?_⟩
    · rcases yields_children position hall hnodup table with
        ⟨results, hresults, table₁, ⟨hlook, hframe₁⟩, hrun₁⟩ | ⟨e, he, -⟩
      · have hr : (W.leave cs fun k => Dict.get? (position ++ [k]) table₁) = .ok r := by
          rw [hleave hlook, ← h, recurse, henter]
          show _ = (W.collect pushed.reverse).bind _
          rw [hresults]
          rfl
        refine ⟨Dict.set position r table₁, ⟨by simp, ?_⟩, ?_⟩
        · intro q hq
          rw [Dict.get?_set_ne (ne_of_not_isPrefix hq)]
          exact hframe₁ q fun c _ hpre => hq ((List.prefix_append _ _).trans hpre)
        · intro fuel rest
          rw [hfirst, hrun₁]
          simp [run, step, hr, Except.map]
      · rw [recurse, henter] at h
        have h : (W.collect pushed.reverse).bind _ = .ok r := h
        rw [he] at h
        cases h
    · rcases yields_children position hall hnodup table with
        ⟨results, hresults, table₁, ⟨hlook, hframe₁⟩, hrun₁⟩ | ⟨e', he, hrun⟩
      · have hr : (W.leave cs fun k => Dict.get? (position ++ [k]) table₁) = .error e := by
          rw [hleave hlook, ← h, recurse, henter]
          show _ = (W.collect pushed.reverse).bind _
          rw [hresults]
          rfl
        rw [hfirst, hrun₁]
        simp [run, step, hr, Except.map]
      · rw [recurse, henter] at h
        have h : (W.collect pushed.reverse).bind _ = .error e := h
        rw [he] at h
        cases h
        rw [hfirst, hrun]

theorem yields (hW : W.Regular) {P : κ → Prop} {t : FileTree κ β} (ht : t.WellFormed P) (s : σ) :
    W.Yields t s (W.exec s t) := by
  induction t using FileTree.induct generalizing s with
  | file c =>
    have h := @yields_file _ _ _ _ _ _ W s c
    rwa [← h.exec_eq] at h
  | directory cs ih =>
    have h := yields_directory hW (fun c hc s => ih c hc (ht.subtrees c hc) s) ht.unique s
    rwa [← h.exec_eq] at h

theorem exec_file (s : σ) (c : β) : W.exec s (.file c) = W.leaf s c := (yields_file s c).exec_eq

/-- The traversal of a directory is the recursion over its children. -/
theorem exec_directory (hW : W.Regular) {P : κ → Prop} {cs : List (κ × FileTree κ β)}
    (h : (FileTree.directory cs).WellFormed P) (s : σ) :
    W.exec s (.directory cs) = W.recurse s cs :=
  (yields_directory hW (fun c hc s => yields hW (h.subtrees c hc) s) h.unique s).exec_eq

/-! ## Section 4: The first failure -/

/-- What a result raises, if anything. -/
def failure {α : Type} : Except ε α → Option ε
  | .ok _ => none
  | .error e => some e

theorem failure_eq_none {α : Type} {x : Except ε α} : failure x = none ↔ ∃ a, x = .ok a := by
  cases x <;> simp [failure]

theorem failure_eq_some {α : Type} {x : Except ε α} {e : ε} :
    failure x = some e ↔ x = .error e := by
  cases x <;> simp [failure]

/-- The children with their contexts, one name after the other. -/
def joinEach (join : σ → κ → Except ε σ) (s : σ) :
    List (κ × FileTree κ β) → Except ε (List (κ × FileTree κ β × σ))
  | [] => .ok []
  | c :: rest =>
    (join s c.1).bind fun s' => (joinEach join s rest).bind fun tail => .ok ((c.1, c.2, s') :: tail)

/-- A traversal that takes the children in an order of its own: the first visit
    joins their names to the context, the last child first, and the second
    fails at a bad name only. -/
structure Joins (W : PostOrder κ β σ ρ ε)
    (order : List (κ × FileTree κ β) → List (κ × FileTree κ β)) (join : σ → κ → Except ε σ)
    (bad : κ → Option ε) : Prop where
  order_perm : ∀ cs, (order cs).Perm cs
  order_erase : ∀ cs k, Dict.UniqueKeys cs →
    order (Dict.erase k cs) = (order cs).filter fun c => decide (c.1 ≠ k)
  order_set : ∀ cs k t, Dict.UniqueKeys cs → k ∈ Dict.keys cs →
    order (Dict.set k t cs) = (order cs).map fun c => if c.1 = k then (k, t) else c
  enter : ∀ s cs, W.enter s cs = joinEach join s (order cs).reverse
  leave : ∀ cs look, Dict.UniqueKeys cs → (∀ c ∈ cs, (look c.1).isSome) →
    failure (W.leave cs look) = (order cs).findSome? fun c => bad c.1
  leave_congr : ∀ cs look look', (∀ c ∈ cs, look c.1 = look' c.1) → W.leave cs look = W.leave cs look'

variable {order : List (κ × FileTree κ β) → List (κ × FileTree κ β)} {join : σ → κ → Except ε σ}
  {bad : κ → Option ε}

theorem findSome?_agree {α γ : Type} {f g : α → Option γ} {l : List α}
    (h : ∀ a ∈ l, f a = g a) : l.findSome? f = l.findSome? g := by
  induction l with
  | nil => rfl
  | cons a l ih =>
    obtain ⟨ha, hl⟩ := List.forall_mem_cons.mp h
    rw [List.findSome?_cons, List.findSome?_cons, ha, ih hl]

/-- What is dropped gives nothing. -/
theorem findSome?_filter {α γ : Type} {f : α → Option γ} {keep : α → Bool} {l : List α}
    (h : ∀ a ∈ l, keep a = false → f a = none) : (l.filter keep).findSome? f = l.findSome? f := by
  induction l with
  | nil => rfl
  | cons a l ih =>
    obtain ⟨ha, hl⟩ := List.forall_mem_cons.mp h
    by_cases hkeep : keep a = true
    · rw [List.filter_cons_of_pos hkeep, List.findSome?_cons, List.findSome?_cons, ih hl]
    · rw [List.filter_cons_of_neg hkeep, List.findSome?_cons, ha (Bool.not_eq_true _ ▸ hkeep), ih hl]

omit [DecidableEq κ] in
theorem joinEach_eq_ok {s : σ} {cs : List (κ × FileTree κ β)} {pushed : List (κ × FileTree κ β × σ)}
    (h : joinEach join s cs = .ok pushed) :
    (pushed.map fun c => (c.1, c.2.1)) = cs ∧ ∀ c ∈ pushed, join s c.1 = .ok c.2.2 := by
  induction cs generalizing pushed with
  | nil =>
    cases h
    exact ⟨rfl, nofun⟩
  | cons c cs ih =>
    rw [joinEach] at h
    cases hjoin : join s c.1 with
    | error e =>
      rw [hjoin] at h
      cases h
    | ok s' =>
      cases htail : joinEach join s cs with
      | error e =>
        rw [hjoin, htail] at h
        cases h
      | ok tail =>
        rw [hjoin, htail] at h
        cases h
        obtain ⟨hmap, hall⟩ := ih htail
        exact ⟨by rw [List.map_cons, hmap], List.forall_mem_cons.mpr ⟨hjoin, hall⟩⟩

omit [DecidableEq κ] in
theorem failure_joinEach (s : σ) (cs : List (κ × FileTree κ β)) :
    failure (joinEach join s cs) = cs.findSome? fun c => failure (join s c.1) := by
  induction cs with
  | nil => rfl
  | cons c cs ih =>
    rw [joinEach, List.findSome?_cons]
    cases hjoin : join s c.1 with
    | error e => rfl
    | ok s' =>
      show failure ((joinEach join s cs).bind _) = cs.findSome? _
      rw [← ih]
      cases joinEach join s cs <;> rfl

theorem failure_collect (cs : List (κ × FileTree κ β × σ)) :
    failure (W.collect cs) = cs.findSome? fun c => failure (W.exec c.2.2 c.2.1) := by
  induction cs with
  | nil => rfl
  | cons c cs ih =>
    rw [collect, List.findSome?_cons]
    cases hexec : W.exec c.2.2 c.2.1 with
    | error e => rfl
    | ok r =>
      show failure ((W.collect cs).bind _) = cs.findSome? _
      rw [← ih]
      cases W.collect cs <;> rfl

theorem get?_collect {cs : List (κ × FileTree κ β × σ)} {results : List (κ × ρ)}
    (h : W.collect cs = .ok results) : ∀ c ∈ cs, (Dict.get? c.1 results).isSome := by
  induction cs generalizing results with
  | nil => exact nofun
  | cons c cs ih =>
    rw [collect] at h
    cases hexec : W.exec c.2.2 c.2.1 with
    | error e =>
      rw [hexec] at h
      cases h
    | ok r =>
      cases htail : W.collect cs with
      | error e =>
        rw [hexec, htail] at h
        cases h
      | ok tail =>
        rw [hexec, htail] at h
        cases h
        intro d hd
        by_cases heq : c.1 = d.1
        · simp [Dict.get?, heq]
        · rcases List.mem_cons.mp hd with rfl | hd
          · exact absurd rfl heq
          · simpa [Dict.get?, heq] using ih htail d hd

theorem Joins.regular (hW : W.Joins order join bad) : W.Regular where
  enter_perm s cs pushed h := by
    rw [hW.enter] at h
    rw [(joinEach_eq_ok h).1]
    exact (List.reverse_perm _).trans (hW.order_perm cs)
  leave_congr := hW.leave_congr

/-- What the traversal of a child raises, when its name joins. -/
def childFailure (W : PostOrder κ β σ ρ ε) (join : σ → κ → Except ε σ) (s : σ)
    (c : κ × FileTree κ β) : Option ε :=
  (join s c.1).toOption.bind fun s' => failure (W.exec s' c.2)

/-- A directory fails at the last name that does not join, else at the first
    child that fails, else at the first bad name. -/
theorem failure_directory (hW : W.Joins order join bad) {P : κ → Prop}
    {cs : List (κ × FileTree κ β)} (h : (FileTree.directory cs).WellFormed P) (s : σ) :
    failure (W.exec s (.directory cs)) =
      ((order cs).reverse.findSome? fun c => failure (join s c.1)).or
        (((order cs).findSome? (W.childFailure join s)).or
          ((order cs).findSome? fun c => bad c.1)) := by
  rw [exec_directory hW.regular h, recurse, hW.enter, ← failure_joinEach]
  cases hpushed : joinEach join s (order cs).reverse with
  | error e => rfl
  | ok pushed =>
    obtain ⟨hmap, hjoin⟩ := joinEach_eq_ok hpushed
    have hchildren : failure (W.collect pushed.reverse) =
        (order cs).findSome? (W.childFailure join s) := by
      have horder : order cs = pushed.reverse.map fun c => (c.1, c.2.1) := by
        rw [List.map_reverse, hmap, List.reverse_reverse]
      rw [failure_collect, horder, List.findSome?_map]
      refine findSome?_agree fun c hc => ?_
      simp [childFailure, hjoin c (List.mem_reverse.mp hc), Except.toOption]
    show failure ((W.collect pushed.reverse).bind _) = Option.or none _
    rw [← hchildren]
    cases hresults : W.collect pushed.reverse with
    | error e => rfl
    | ok results =>
      refine hW.leave cs _ h.unique fun c hc => ?_
      obtain ⟨d, hd, rfl⟩ : ∃ d ∈ pushed, (d.1, d.2.1) = c := by
        rw [← List.mem_map, hmap, List.mem_reverse]
        exact (hW.order_perm cs).mem_iff.mpr hc
      exact get?_collect hresults d (List.mem_reverse.mpr hd)

/-- A directory that does not fail joins every name, and neither its children
    nor its names fail. -/
theorem failure_directory_eq_none (hW : W.Joins order join bad) {P : κ → Prop}
    {cs : List (κ × FileTree κ β)} (h : (FileTree.directory cs).WellFormed P) {s : σ}
    (hok : failure (W.exec s (.directory cs)) = none) {k : κ} {t : FileTree κ β}
    (hk : Dict.get? k cs = some t) :
    bad k = none ∧ ∃ s', join s k = .ok s' ∧ failure (W.exec s' t) = none := by
  rw [failure_directory hW h, Option.or_eq_none_iff, Option.or_eq_none_iff,
    List.findSome?_eq_none_iff, List.findSome?_eq_none_iff, List.findSome?_eq_none_iff] at hok
  obtain ⟨hjoins, hchildren, hnames⟩ := hok
  have hmem : (k, t) ∈ order cs := (hW.order_perm cs).mem_iff.mpr (Dict.mem_of_get? hk)
  obtain ⟨s', hjoin⟩ := failure_eq_none.mp (hjoins _ (List.mem_reverse.mpr hmem))
  refine ⟨hnames _ hmem, s', hjoin, ?_⟩
  have hchild := hchildren _ hmem
  simpa [childFailure, hjoin, Except.toOption] using hchild

theorem directory_of_at? {t sub : FileTree κ β} {k : κ} {p : List κ}
    (h : t.at? (p ++ [k]) = some sub) : ∃ cs, t = .directory cs := by
  cases t with
  | file c => cases p <;> simp at h
  | directory cs => exact ⟨cs, rfl⟩

/-- A subtree that does not fail where it stands in one tree may be cut out of
    another: the rest fails as before.  The induction is on the path to the
    directory that holds it. -/
theorem failure_erase (hW : W.Joins order join bad) {P Q : κ → Prop} {k : κ} {p : List κ}
    {us cs : List (κ × FileTree κ β)} (hus : (FileTree.directory us).WellFormed P)
    (hcs : (FileTree.directory cs).WellFormed Q) {sub : FileTree κ β}
    (hsub : (FileTree.directory us).at? (p ++ [k]) = some sub)
    (hsub' : (FileTree.directory cs).at? (p ++ [k]) = some sub) {s : σ}
    (hok : failure (W.exec s (.directory us)) = none) :
    failure (W.exec s (.directory (FileTree.modifyAt (Dict.erase k) p cs))) =
      failure (W.exec s (.directory cs)) := by
  induction p generalizing us cs s with
  | nil =>
    rw [List.nil_append, FileTree.at?_directory_cons] at hsub hsub'
    obtain ⟨t, hk, ht⟩ := Option.bind_eq_some_iff.mp hsub
    obtain ⟨t', hk', ht'⟩ := Option.bind_eq_some_iff.mp hsub'
    rw [FileTree.at?_nil, Option.some.injEq] at ht ht'
    rw [ht] at hk
    rw [ht'] at hk'
    obtain ⟨hbad, s', hjoin, hchild⟩ := failure_directory_eq_none hW hus hok hk
    have hdropped : ∀ c ∈ order cs, decide (c.1 ≠ k) = false → c = (k, sub) := by
      intro c hc hkeep
      have hck : c.1 = k := by simpa using hkeep
      have hget := Dict.get?_of_mem hcs.unique ((hW.order_perm cs).mem_iff.mp hc)
      rw [hck, hk', Option.some.injEq] at hget
      exact Prod.ext hck hget.symm
    show failure (W.exec s (.directory (Dict.erase k cs))) = _
    rw [failure_directory hW (hcs.erase k), failure_directory hW hcs, hW.order_erase cs k hcs.unique,
      ← List.filter_reverse, findSome?_filter, findSome?_filter, findSome?_filter]
    · intro c hc hkeep
      rw [hdropped c hc hkeep]
      exact hbad
    · intro c hc hkeep
      rw [hdropped c hc hkeep]
      simpa [childFailure, hjoin, Except.toOption] using hchild
    · intro c hc hkeep
      rw [hdropped c (List.mem_reverse.mp hc) hkeep]
      exact failure_eq_none.mpr ⟨s', hjoin⟩
  | cons a p ih =>
    rw [List.cons_append, FileTree.at?_directory_cons] at hsub hsub'
    obtain ⟨u, hu, hsub⟩ := Option.bind_eq_some_iff.mp hsub
    obtain ⟨t, ht, hsub'⟩ := Option.bind_eq_some_iff.mp hsub'
    obtain ⟨us', rfl⟩ := directory_of_at? hsub
    obtain ⟨inner, rfl⟩ := directory_of_at? hsub'
    obtain ⟨-, s', hjoin, hchild⟩ := failure_directory_eq_none hW hus hok hu
    have hbelow := ih (hus.subtrees _ (Dict.mem_of_get? hu)) (hcs.subtrees _ (Dict.mem_of_get? ht))
      hsub hsub' hchild
    rw [FileTree.modifyAt_cons ht]
    have hwell : (FileTree.directory (Dict.set a
        (.directory (FileTree.modifyAt (Dict.erase k) p inner)) cs)).WellFormed Q :=
      hcs.set (hcs.names _ (Dict.mem_of_get? ht))
        ((hcs.subtrees _ (Dict.mem_of_get? ht)).modifyAt (fun ds hds => hds.erase k) p)
    rw [failure_directory hW hwell, failure_directory hW hcs,
      hW.order_set cs a _ hcs.unique (Dict.mem_keys_of_mem (Dict.mem_of_get? ht)),
      ← List.map_reverse, List.findSome?_map, List.findSome?_map, List.findSome?_map]
    -- the name stays, and so does what its subtree raises
    have hname : ∀ c : κ × FileTree κ β,
        (if c.1 = a then (a, FileTree.directory (FileTree.modifyAt (Dict.erase k) p inner))
          else c).1 = c.1 := by
      intro c
      by_cases hc : c.1 = a
      · rw [if_pos hc, hc]
      · rw [if_neg hc]
    have hjoins := findSome?_agree (l := (order cs).reverse) fun c _ =>
      congrArg (fun x => failure (join s x)) (hname c)
    have hnames := findSome?_agree (l := order cs) fun c _ => congrArg bad (hname c)
    have hchildren := findSome?_agree (l := order cs)
      (f := fun c => W.childFailure join s (if c.1 = a then
        (a, FileTree.directory (FileTree.modifyAt (Dict.erase k) p inner)) else c))
      (g := W.childFailure join s) fun c hc => by
        by_cases hca : c.1 = a
        · have hget := Dict.get?_of_mem hcs.unique ((hW.order_perm cs).mem_iff.mp hc)
          rw [hca, ht, Option.some.injEq] at hget
          have hpair : c = (a, .directory inner) := Prod.ext hca hget.symm
          rw [if_pos hca, hpair, childFailure, childFailure, hjoin]
          exact hbelow
        · rw [if_neg hca]
    exact congrArg₂ _ hjoins (congrArg₂ _ hchildren hnames)

end PostOrder
