import MemSandbox.CommandExecutor.FindLaws

/-! # Transfers into a directory

    `cp SRC DIR` and `mv SRC DIR` make the destination below `DIR` with `join`,
    which checks limits of its own; `DIR/NAME` is resolved within the limits of
    the workspace.  From there on the two run alike, so they differ exactly
    where `join` refuses a transfer that the workspace accepts.

    * **Section 1** what a call of the commands comes to;
    * **Section 2** the turn of the loop, split at the destination;
    * **Section 3** the two forms of a transfer. -/

open Python FileMap

/-! ## Section 1: Calls -/

section calls

variable {σ α : Type}

/-- What `expecting` makes of an outcome. -/
def expected : Except Raised α → Except Raised (Except Text α)
  | .ok a => .ok (.ok a)
  | .error (.error e) =>
    if isExpectedWorkspaceFailure e.cls then .ok (.error e.message) else .error (.error e)
  | .error e => .error e

theorem expecting_apply (x : Call σ Raised α) (s : σ) :
    expecting x s = (expected (x s).1, (x s).2) := by
  unfold expecting
  rcases hx : x s with ⟨e | a, s'⟩
  · rw [Call.tryCatch_of_error (Call.bind_of_error hx)]
    cases e with
    | error e =>
      simp only [expected]
      by_cases he : isExpectedWorkspaceFailure e.cls = true
      · rw [if_pos he, if_pos he]
        rfl
      · rw [if_neg he, if_neg he]
        rfl
    | cancelledError => rfl
    | exit => rfl
  · have hreturn : (do return .ok (← x) : Call σ Raised (Except Text α)) s =
        (.ok (.ok a), s') := Call.bind_of_ok hx
    exact Call.tryCatch_of_ok hreturn

/-- What `orAbsent` makes of an outcome. -/
def absentOr : Except Raised α → Except Raised (Option α)
  | .ok a => .ok (some a)
  | .error (.error e) => if e.cls = .pathNotFoundError then .ok none else .error (.error e)
  | .error e => .error e

theorem orAbsent_apply (x : Call σ Raised α) (s : σ) :
    orAbsent x s = (absentOr (x s).1, (x s).2) := by
  unfold orAbsent
  rcases hx : x s with ⟨e | a, s'⟩
  · rw [Call.tryCatch_of_error (Call.bind_of_error hx)]
    cases e with
    | error e =>
      simp only [absentOr]
      by_cases he : e.cls = .pathNotFoundError
      · rw [if_pos he, if_pos he]
        rfl
      · rw [if_neg he, if_neg he]
        rfl
    | cancelledError => rfl
    | exit => rfl
  · have hreturn : (do return some (← x) : Call σ Raised (Option α)) s = (.ok (some a), s') :=
      Call.bind_of_ok hx
    exact Call.tryCatch_of_ok hreturn

/-- A loop over one source. -/
theorem transferAll_singleton (one : Text → Call σ Raised (Option Text)) (operand : Text) :
    transferAll one [operand] = one operand := by
  funext s
  rw [transferAll]
  rcases hone : one operand s with ⟨e | _ | message, s'⟩
  · exact Call.bind_of_error hone
  · exact (Call.bind_of_ok hone).trans rfl
  · exact (Call.bind_of_ok hone).trans rfl

/-- The turn of the loop, from the destination on. -/
def transferTo (reader : CommandWorkspaceReader σ) (mutator : CommandWorkspaceEditor σ)
    (move : Bool) (source : SandboxPath) (kind : NodeKind) (exactDestination : SandboxPath) :
    Call σ Raised (Option Text) := do
  let existing ← orAbsent (reader.stat exactDestination)
  if kind = .directory ∧ existing.isSome then
    return some (py "recursive directory merge is unsupported")
  else if kind = .file ∧ existing.any (·.kind = .directory) then
    return some (exactDestination.value ++ py " is a directory")
  else if move then do
    let _ ← mutator.move { source, destination := exactDestination, overwrite := true }
    return none
  else do
    let _ ← mutator.copy { source, destination := exactDestination, overwrite := true }
    return none

theorem transferOne_eq (reader : CommandWorkspaceReader σ) (mutator : CommandWorkspaceEditor σ)
    (cwd : SandboxPath) (recursive move : Bool) (destination : SandboxPath) (intoDirectory : Bool)
    (operand : Text) :
    transferOne reader mutator cwd recursive move destination intoDirectory operand = (do
      let source ← reader.resolvePath operand cwd
      let entry ← reader.stat source
      if entry.kind = .directory ∧ recursive = false then
        return some (source.value ++ py " is a directory; use -r")
      else do
        let exactDestination ←
          (if intoDirectory then
            VirtualCommandExecutor.lift (destination.join source.name 4096 255)
          else
            pure destination)
        transferTo reader mutator move source entry.kind exactDestination) := rfl

end calls

/-! ## Section 2: The turn of the loop -/

namespace CommandWorld

open MemoryWorkspace Node

variable {τ : Type} [Sha256] {host : CommandHost τ} {w : MemoryWorkspace}

/-- `stat` changes nothing. -/
theorem stat_snd (path : SandboxPath) (w : MemoryWorkspace) : (MemoryWorkspace.stat path w).2 = w := by
  unfold MemoryWorkspace.stat
  rw [Call.bind_of_ok (Call.get_apply w), Call.lift_bind_apply]
  cases validatePath w.limits path with
  | error e => rfl
  | ok u =>
    dsimp only
    rw [Call.lift_bind_apply]
    cases getNode w.state.root path with
    | error e => rfl
    | ok node => rfl

/-- An undisturbed `stat`. -/
theorem stat_apply (hlock : Grants host) (path : SandboxPath) (t : τ) :
    (reader host).stat path ⟨w, t⟩ =
      ((MemoryWorkspace.stat path w).1.mapError Raised.error, ⟨w, (host.acquireLock t).2⟩) := by
  refine (onWorkspace_apply hlock _ _).trans ?_
  rw [stat_snd]

omit [Sha256] in
/-- A lookup below a directory finds the node or nothing. -/
theorem tryGetNode_below {path : SandboxPath} {p : List Text} {name : Text}
    (hparts : path.parts = p ++ [name]) (hdirectory : w.view p = some .directory) :
    tryGetNode w.state.root path = .ok ((FileTree.directory w.state.root).at? path.parts) := by
  cases hfound : tryGetNode w.state.root path with
  | ok found => rw [tryGetNode_eq_ok hfound]
  | error e =>
    -- only a file on the way raises, and the directory is in its place
    obtain ⟨q, r, c, hqr, hr, hq⟩ := descend_eq_error_iff.mp ⟨e, hfound⟩
    obtain ⟨cs, hcs⟩ := FileTree.view_eq_directory_iff.mp hdirectory
    rcases List.eq_nil_or_concat r with rfl | ⟨r, last, rfl⟩
    · exact absurd rfl hr
    · rw [hparts, List.concat_eq_append, ← List.append_assoc] at hqr
      rw [(List.append_inj' hqr rfl).1, FileTree.at?_append, hq, Option.bind_some] at hcs
      cases r <;> simp at hcs

/-- A name in a directory that is there: `stat` finds it, or nothing. -/
theorem orAbsent_stat (hw : Consistent w.limits w.state) (hlock : Grants host) {path : SandboxPath}
    (hvalid : validatePath w.limits path = .ok ()) {p : List Text} {name : Text}
    (hparts : path.parts = p ++ [name]) (hdirectory : w.view p = some .directory) (t : τ) :
    ∃ existing, orAbsent ((reader host).stat path) ⟨w, t⟩ =
        (.ok existing, ⟨w, (host.acquireLock t).2⟩) ∧
      existing.map WorkspaceEntry.kind = (w.view path.parts).map entryKind := by
  rw [orAbsent_apply, stat_apply hlock]
  cases hview : w.view path.parts with
  | some e =>
    obtain ⟨record, hstat, -, hdescribes⟩ :=
      stat_spec hw (validatePath_eq_ok.mp hvalid).1 hview
    rw [hstat]
    refine ⟨some record, rfl, ?_⟩
    rw [Option.map_some, Option.map_some, hdescribes.kind]
    cases e <;> rfl
  | none =>
    have hget : getNode w.state.root path =
        raise .pathNotFoundError (path.value ++ py " does not exist") := by
      rw [getNode, tryGetNode_below hparts hdirectory, FileTree.view_eq_none_iff.mp hview]
      rfl
    have hstat : MemoryWorkspace.stat path w =
        (raise .pathNotFoundError (path.value ++ py " does not exist"), w) := by
      unfold MemoryWorkspace.stat
      rw [Call.bind_of_ok (Call.get_apply w), Call.lift_bind_of_ok hvalid, Call.lift_bind_apply,
        hget]
      rfl
    rw [hstat]
    exact ⟨none, rfl, rfl⟩

/-- The mutation that a transfer ends in. -/
def transferMethod (move : Bool) (source destination : SandboxPath) : Method WorkspaceMutation :=
  if move then MemoryWorkspace.move { source, destination, overwrite := true }
  else MemoryWorkspace.copy { source, destination, overwrite := true }

omit [Sha256] in
/-- A method whose first checks are those of the two paths. -/
theorem validated_of_ok {α : Type} {source destination : SandboxPath} {rest : Method α}
    {a : α} (h : ((liftM (validatePath w.limits source) : Method Unit) >>= fun _ =>
      (liftM (validatePath w.limits destination) : Method Unit) >>= fun _ => rest) w =
        (.ok a, (((liftM (validatePath w.limits source) : Method Unit) >>= fun _ =>
      (liftM (validatePath w.limits destination) : Method Unit) >>= fun _ => rest) w).2)) :
    validatePath w.limits destination = .ok () := by
  rw [Call.lift_bind_apply] at h
  cases hsource : validatePath w.limits source with
  | error e => simp [hsource] at h
  | ok u =>
    simp only [hsource] at h
    rw [Call.lift_bind_apply] at h
    cases hdestination : validatePath w.limits destination with
    | error e => simp [hdestination] at h
    | ok u => rfl

/-- An accepted mutation has a valid destination. -/
theorem transferMethod_valid {move : Bool} {source destination : SandboxPath} {m : WorkspaceMutation}
    (h : (transferMethod move source destination w).1 = .ok m) :
    validatePath w.limits destination = .ok () := by
  cases move with
  | false => exact validated_of_ok (Prod.ext h rfl)
  | true => exact validated_of_ok (Prod.ext h rfl)

/-- A refused mutation changes nothing. -/
theorem transferMethod_refused (hw : Consistent w.limits w.state) {move : Bool}
    {source destination : SandboxPath} {e : PyError}
    (h : (transferMethod move source destination w).1 = .error e) :
    (transferMethod move source destination w).2 = w := by
  cases move with
  | false => exact (copy_outcome hw _).of_eq_error (Prod.ext h rfl)
  | true => exact (move_outcome hw _).of_eq_error (Prod.ext h rfl)

/-- The mutation of a transfer, with its result dropped. -/
def transferMutation (host : CommandHost τ) (move : Bool) (source destination : SandboxPath) :
    Call (CommandWorld τ) Raised (Option Text) :=
  if move then do
    let _ ← (mutator host).move { source, destination, overwrite := true }
    return none
  else do
    let _ ← (mutator host).copy { source, destination, overwrite := true }
    return none

theorem transferMutation_apply (hlock : Grants host) (move : Bool)
    (source destination : SandboxPath) (t : τ) :
    transferMutation host move source destination ⟨w, t⟩ =
      (((transferMethod move source destination w).1.mapError Raised.error).map fun _ => none,
        ⟨(transferMethod move source destination w).2, (host.acquireLock t).2⟩) := by
  have hcall : ∀ method : Method WorkspaceMutation,
      (onWorkspace host method >>= fun _ => pure none : Call (CommandWorld τ) Raised (Option Text))
        ⟨w, t⟩ = (((method w).1.mapError Raised.error).map fun _ => none,
          ⟨(method w).2, (host.acquireLock t).2⟩) := by
    intro method
    have happly := onWorkspace_apply hlock method ⟨w, t⟩
    rcases hmethod : method w with ⟨e | m, w'⟩
    · rw [hmethod] at happly
      exact Call.bind_of_error happly
    · rw [hmethod] at happly
      exact Call.bind_of_ok happly
  cases move with
  | false => exact hcall _
  | true => exact hcall _

/-- A turn at a destination whose entry is known. -/
theorem transferTo_of_existing (move : Bool) (source : SandboxPath) (kind : NodeKind)
    (destination : SandboxPath) {existing : Option WorkspaceEntry} {t t' : τ}
    (hexisting : orAbsent ((reader host).stat destination) ⟨w, t⟩ = (.ok existing, ⟨w, t'⟩)) :
    transferTo (reader host) (mutator host) move source kind destination ⟨w, t⟩ =
      (if kind = .directory ∧ existing.isSome then
        pure (some (py "recursive directory merge is unsupported"))
      else if kind = .file ∧ existing.any (·.kind = .directory) then
        pure (some (destination.value ++ py " is a directory"))
      else transferMutation host move source destination) ⟨w, t'⟩ :=
  Call.bind_of_ok hexisting

/-- A turn that says nothing has made its mutation, and any other none. -/
def TurnOutcome (w : MemoryWorkspace) (move : Bool) (source destination : SandboxPath)
    (run : Except Raised (Option Text) × CommandWorld τ) : Prop :=
  (run.1 = .ok none ∧ (∃ m, (transferMethod move source destination w).1 = .ok m) ∧
      run.2.workspace = (transferMethod move source destination w).2) ∨
    run.1 ≠ .ok none ∧ run.2.workspace = w

theorem transferMutation_outcome (hw : Consistent w.limits w.state) (hlock : Grants host)
    (move : Bool) (source destination : SandboxPath) (t : τ) :
    TurnOutcome w move source destination (transferMutation host move source destination ⟨w, t⟩) := by
  rw [transferMutation_apply hlock]
  cases hmethod : (transferMethod move source destination w).1 with
  | ok m => exact .inl ⟨rfl, ⟨m, hmethod⟩, rfl⟩
  | error e => exact .inr ⟨nofun, transferMethod_refused hw hmethod⟩

theorem transferTo_outcome (hw : Consistent w.limits w.state) (hlock : Grants host) (move : Bool)
    (source : SandboxPath) (kind : NodeKind) (destination : SandboxPath) (t : τ) :
    TurnOutcome w move source destination
      (transferTo (reader host) (mutator host) move source kind destination ⟨w, t⟩) := by
  have hstat := orAbsent_apply ((reader host).stat destination) ⟨w, t⟩
  rw [stat_apply hlock] at hstat
  cases habsent : absentOr ((MemoryWorkspace.stat destination w).1.mapError Raised.error) with
  | error e =>
    rw [habsent] at hstat
    have hrun : transferTo (reader host) (mutator host) move source kind destination ⟨w, t⟩ =
        (.error e, ⟨w, (host.acquireLock t).2⟩) := Call.bind_of_error hstat
    rw [hrun]
    exact .inr ⟨nofun, rfl⟩
  | ok existing =>
    rw [habsent] at hstat
    rw [transferTo_of_existing move source kind destination hstat]
    by_cases hmerge : kind = .directory ∧ existing.isSome
    · rw [if_pos hmerge]
      exact .inr ⟨nofun, rfl⟩
    · rw [if_neg hmerge]
      by_cases hdirectory : kind = .file ∧ existing.any (·.kind = .directory)
      · rw [if_pos hdirectory]
        exact .inr ⟨nofun, rfl⟩
      · rw [if_neg hdirectory]
        exact transferMutation_outcome hw hlock move source destination _

/-- When a turn at a destination whose entry is known makes its mutation. -/
theorem transferTo_succeeds_iff (hlock : Grants host) (move : Bool) (source : SandboxPath)
    (kind : NodeKind) (destination : SandboxPath) {existing : Option WorkspaceEntry} {t t' : τ}
    (hexisting : orAbsent ((reader host).stat destination) ⟨w, t⟩ = (.ok existing, ⟨w, t'⟩)) :
    (transferTo (reader host) (mutator host) move source kind destination ⟨w, t⟩).1 = .ok none ↔
      ¬ (kind = .directory ∧ existing.isSome) ∧
        ¬ (kind = .file ∧ existing.any (·.kind = .directory)) ∧
        ∃ m, (transferMethod move source destination w).1 = .ok m := by
  rw [transferTo_of_existing move source kind destination hexisting]
  by_cases hmerge : kind = .directory ∧ existing.isSome
  · rw [if_pos hmerge]
    exact ⟨nofun, fun h => absurd hmerge h.1⟩
  · rw [if_neg hmerge]
    by_cases hdirectory : kind = .file ∧ existing.any (·.kind = .directory)
    · rw [if_pos hdirectory]
      exact ⟨nofun, fun h => absurd hdirectory h.2.1⟩
    · rw [if_neg hdirectory, transferMutation_apply hlock]
      cases hmethod : (transferMethod move source destination w).1 with
      | ok m => exact ⟨fun _ => ⟨hmerge, hdirectory, m, rfl⟩, fun _ => rfl⟩
      | error e => exact ⟨nofun, fun ⟨_, _, m, hm⟩ => nomatch hm⟩

/-! ## Section 3: The two forms -/

omit [Sha256] in
theorem validSegment_name {path : SandboxPath} (h : path.value ≠ []) :
    SandboxPath.ValidSegment path.name := by
  by_cases hroot : path.isRoot = true
  · rw [SandboxPath.name, if_pos hroot]
    decide
  · rw [Bool.not_eq_true] at hroot
    exact (SandboxPath.value_eq_render h).2 _ (name_mem_parts hroot)

omit [Sha256] in
theorem joined_parts {d q : SandboxPath} {s : Text} {maxPathBytes maxSegmentBytes : Nat}
    (hs : SandboxPath.ValidSegment s) (hd : d.value ≠ [])
    (h : d.join s maxPathBytes maxSegmentBytes = .ok q) :
    q.value ≠ [] ∧ q.parts = d.parts ++ [s] ∧
      SandboxPath.Fits maxPathBytes maxSegmentBytes q.parts := by
  obtain ⟨hne, hfits, -⟩ := SandboxPath.resolve_spec h
  obtain ⟨hpath, hsegment⟩ := hfits.limits_pos
  obtain ⟨-, hvalue⟩ := (SandboxPath.join_eq_ok hs hpath hsegment).mp h
  refine ⟨hne, SandboxPath.parts_of_value (fun t ht => ?_) hvalue, hfits⟩
  rcases List.mem_append.mp ht with ht | ht
  · exact (SandboxPath.value_eq_render hd).2 t ht
  · rw [List.mem_singleton.mp ht]
    exact hs

/-- The run of a command succeeds. -/
def Succeeds (run : Except Raised CommandResult × CommandWorld τ) : Prop :=
  ∃ result, run.1 = .ok result ∧ result.exitCode = 0

/-- Two runs succeed or fail alike and leave the same workspace. -/
def SameEffect (a b : Except Raised CommandResult × CommandWorld τ) : Prop :=
  (Succeeds a ↔ Succeeds b) ∧ a.2.workspace = b.2.workspace

/-- The body of `_transfer`, for one source. -/
def transferBody (host : CommandHost τ) (source operand : Text) (context : CommandContext)
    (recursive move : Bool) : Call (CommandWorld τ) Raised (Option Text) := do
  let destination ← (reader host).resolvePath operand context.cwd
  let entry ← orAbsent ((reader host).stat destination)
  transferOne (reader host) (mutator host) context.cwd recursive move destination
    (entry.any (·.kind = .directory)) source

theorem transfer_singleton (host : CommandHost τ) (command source operand : Text)
    {context : CommandContext} (hplain : ∀ text, context.protection.containsProtectedText text = false)
    (recursive move : Bool) :
    transfer command (reader host) (mutator host) [source] operand context recursive move = (do
      match ← expecting (transferBody host source operand context recursive move) with
      | .error message => VirtualCommandExecutor.lift (commandFailure command message [])
      | .ok (some message) => VirtualCommandExecutor.lift (commandFailure command message [])
      | .ok none => VirtualCommandExecutor.lift (printed [])) := by
  have hprotects : protectsAny context.protection ([source] ++ [operand]) = false := by
    simp [protectsAny, hplain]
  unfold transfer
  rw [hprotects]
  simp only [Bool.false_eq_true, if_false, List.length_singleton, Nat.lt_irrefl, false_and,
    transferAll_singleton]
  rfl

omit [Sha256] in
theorem not_succeeds_commandFailure (command message : Text) (s : CommandWorld τ) :
    ¬ Succeeds ((VirtualCommandExecutor.lift (commandFailure command message []) :
      Call (CommandWorld τ) Raised CommandResult) s) := by
  rintro ⟨result, hresult, hexit⟩
  have hnew : commandFailure command message [] = .ok result := by
    cases hfailure : commandFailure command message [] with
    | error e =>
      rw [hfailure] at hresult
      cases hresult
    | ok made =>
      rw [hfailure] at hresult
      exact congrArg Except.ok (Except.ok.inj hresult)
  have hcode := (CommandResult.new_eq_ok hnew).1
  omega

/-- A command succeeds when its body says nothing, and ends where the body ends. -/
theorem transfer_effect (host : CommandHost τ) (command source operand : Text)
    {context : CommandContext} (hplain : ∀ text, context.protection.containsProtectedText text = false)
    (recursive move : Bool) (s : CommandWorld τ) :
    (Succeeds (transfer command (reader host) (mutator host) [source] operand context recursive
        move s) ↔ (transferBody host source operand context recursive move s).1 = .ok none) ∧
      (transfer command (reader host) (mutator host) [source] operand context recursive move s).2 =
        (transferBody host source operand context recursive move s).2 := by
  rw [transfer_singleton host command source operand hplain]
  have hexpecting := expecting_apply (transferBody host source operand context recursive move) s
  rcases hbody : transferBody host source operand context recursive move s with ⟨outcome, s'⟩
  rw [hbody] at hexpecting
  cases outcome with
  | ok message =>
    have hok : expecting (transferBody host source operand context recursive move) s =
        (.ok (.ok message), s') := hexpecting
    rw [Call.bind_of_ok hok]
    cases message with
    | none => exact ⟨⟨fun _ => rfl, fun _ => ⟨_, rfl, rfl⟩⟩, rfl⟩
    | some message => exact ⟨⟨fun h => absurd h (not_succeeds_commandFailure _ _ _), nofun⟩, rfl⟩
  | error e =>
    cases hexpected : expected (.error e : Except Raised (Option Text)) with
    | error e' =>
      rw [hexpected] at hexpecting
      rw [Call.bind_of_error hexpecting]
      exact ⟨⟨fun ⟨_, h, _⟩ => (nomatch h), nofun⟩, rfl⟩
    | ok failure =>
      rw [hexpected] at hexpecting
      rw [Call.bind_of_ok hexpecting]
      cases failure with
      | error message =>
        exact ⟨⟨fun h => absurd h (not_succeeds_commandFailure _ _ _), nofun⟩, rfl⟩
      | ok message =>
        -- an error is never taken for a result
        exfalso
        cases e with
        | error e =>
          simp only [expected] at hexpected
          by_cases hcls : isExpectedWorkspaceFailure e.cls = true
          · rw [if_pos hcls] at hexpected
            cases hexpected
          · rw [if_neg hcls] at hexpected
            cases hexpected
        | cancelledError => cases hexpected
        | exit => cases hexpected

/-- The turn of a source, from its entry on. -/
def transferFrom (host : CommandHost τ) (recursive move : Bool) (source : SandboxPath)
    (kind : NodeKind) (exact : Call (CommandWorld τ) Raised SandboxPath) :
    Call (CommandWorld τ) Raised (Option Text) :=
  if kind = .directory ∧ recursive = false then
    return some (source.value ++ py " is a directory; use -r")
  else do
    let exactDestination ← exact
    transferTo (reader host) (mutator host) move source kind exactDestination

/-- The turn of a source that is there. -/
theorem transferOne_of_entry (hlock : Grants host) {cwd source : SandboxPath} {operand : Text}
    (hresolve : MemoryWorkspace.resolvePath w.limits operand (some cwd) = .ok source)
    {entry : WorkspaceEntry} (hstat : (MemoryWorkspace.stat source w).1 = .ok entry)
    (recursive move : Bool) (destination : SandboxPath) (intoDirectory : Bool) (t : τ) :
    transferOne (reader host) (mutator host) cwd recursive move destination intoDirectory operand
        ⟨w, t⟩ =
      transferFrom host recursive move source entry.kind
        (if intoDirectory then
          VirtualCommandExecutor.lift (destination.join source.name 4096 255)
        else pure destination) ⟨w, (host.acquireLock t).2⟩ := by
  have hresolved : (reader host).resolvePath operand cwd ⟨w, t⟩ = (.ok source, ⟨w, t⟩) := by
    show ((MemoryWorkspace.resolvePath w.limits operand (some cwd)).mapError _, _) = _
    rw [hresolve]
    rfl
  have hentry := stat_apply hlock source t (w := w)
  rw [hstat] at hentry
  rw [transferOne_eq, Call.bind_of_ok hresolved, Call.bind_of_ok hentry]
  rfl

/-- The turn of a source that is not there. -/
theorem transferOne_of_missing (hlock : Grants host) {cwd source : SandboxPath} {operand : Text}
    (hresolve : MemoryWorkspace.resolvePath w.limits operand (some cwd) = .ok source)
    {e : PyError} (hstat : (MemoryWorkspace.stat source w).1 = .error e)
    (recursive move : Bool) (destination : SandboxPath) (intoDirectory : Bool) (t : τ) :
    transferOne (reader host) (mutator host) cwd recursive move destination intoDirectory operand
        ⟨w, t⟩ = (.error (.error e), ⟨w, (host.acquireLock t).2⟩) := by
  have hresolved : (reader host).resolvePath operand cwd ⟨w, t⟩ = (.ok source, ⟨w, t⟩) := by
    show ((MemoryWorkspace.resolvePath w.limits operand (some cwd)).mapError _, _) = _
    rw [hresolve]
    rfl
  have hentry := stat_apply hlock source t (w := w)
  rw [hstat] at hentry
  rw [transferOne_eq, Call.bind_of_ok hresolved]
  exact Call.bind_of_error hentry

/-- The body at an operand whose entry is known. -/
theorem transferBody_of_existing {source operand : Text} {context : CommandContext}
    {destination : SandboxPath}
    (hresolve : MemoryWorkspace.resolvePath w.limits operand (some context.cwd) = .ok destination)
    {existing : Option WorkspaceEntry} {t t' : τ}
    (hexisting : orAbsent ((reader host).stat destination) ⟨w, t⟩ = (.ok existing, ⟨w, t'⟩))
    (recursive move : Bool) :
    transferBody host source operand context recursive move ⟨w, t⟩ =
      transferOne (reader host) (mutator host) context.cwd recursive move destination
        (existing.any (·.kind = .directory)) source ⟨w, t'⟩ := by
  have hresolved : (reader host).resolvePath operand context.cwd ⟨w, t⟩ =
      (.ok destination, ⟨w, t⟩) := by
    show ((MemoryWorkspace.resolvePath w.limits operand (some context.cwd)).mapError _, _) = _
    rw [hresolve]
    rfl
  unfold transferBody
  rw [Call.bind_of_ok hresolved, Call.bind_of_ok hexisting]

/-- The body at an operand that does not resolve. -/
theorem transferBody_of_error {source operand : Text} {context : CommandContext} {e : PyError}
    (hresolve : MemoryWorkspace.resolvePath w.limits operand (some context.cwd) = .error e)
    (recursive move : Bool) (t : τ) :
    transferBody host source operand context recursive move ⟨w, t⟩ =
      (.error (.error e), ⟨w, t⟩) := by
  have hresolved : (reader host).resolvePath operand context.cwd ⟨w, t⟩ =
      (.error (.error e), ⟨w, t⟩) := by
    show ((MemoryWorkspace.resolvePath w.limits operand (some context.cwd)).mapError _, _) = _
    rw [hresolve]
    rfl
  unfold transferBody
  rw [Call.bind_of_error hresolved]

/-- A turn that ends in a message or an error changes nothing. -/
theorem transferFrom_refused (host : CommandHost τ) (w : MemoryWorkspace) (recursive move : Bool)
    (source : SandboxPath) (kind : NodeKind) (e : PyError) (t : τ) :
    (transferFrom host recursive move source kind (VirtualCommandExecutor.lift (.error e))
        ⟨w, t⟩).1 ≠ .ok none ∧
      (transferFrom host recursive move source kind (VirtualCommandExecutor.lift (.error e))
        ⟨w, t⟩).2.workspace = w := by
  unfold transferFrom
  by_cases hkind : kind = .directory ∧ recursive = false
  · rw [if_pos hkind]
    exact ⟨nofun, rfl⟩
  · rw [if_neg hkind]
    exact ⟨nofun, rfl⟩

/-- The workspace accepts the transfer of `source` below `d`, within its own
    limits. -/
structure Transferable (w : MemoryWorkspace) (recursive move : Bool) (source d : SandboxPath) :
    Prop where
  exists_target : ∃ target,
    d.join source.name w.limits.maxPathBytes w.limits.maxSegmentBytes = .ok target ∧
      ∃ m, (transferMethod move source target w).1 = .ok m
  exists_source : w.view source.parts ≠ none
  directory : w.view source.parts = some .directory →
    recursive = true ∧ w.view (d.parts ++ [source.name]) = none

theorem transferFrom_outcome (hw : Consistent w.limits w.state) (hlock : Grants host)
    (recursive move : Bool) (source : SandboxPath) (kind : NodeKind) (target : SandboxPath) (t : τ) :
    TurnOutcome w move source target
      (transferFrom host recursive move source kind (pure target) ⟨w, t⟩) := by
  unfold transferFrom
  by_cases hkind : kind = .directory ∧ recursive = false
  · rw [if_pos hkind]
    exact .inr ⟨nofun, rfl⟩
  · rw [if_neg hkind]
    exact transferTo_outcome hw hlock move source kind target t

theorem stat_of_missing {path : SandboxPath} (h : w.view path.parts = none) :
    ∃ e, (MemoryWorkspace.stat path w).1 = .error e := by
  cases hstat : (MemoryWorkspace.stat path w).1 with
  | error e => exact ⟨e, rfl⟩
  | ok entry =>
    exfalso
    unfold MemoryWorkspace.stat at hstat
    rw [Call.bind_of_ok (Call.get_apply w), Call.lift_bind_apply] at hstat
    cases hvalid : validatePath w.limits path with
    | error e => simp [hvalid] at hstat
    | ok u =>
      simp only [hvalid] at hstat
      rw [Call.lift_bind_apply] at hstat
      cases hnode : getNode w.state.root path with
      | error e => simp [hnode] at hstat
      | ok node =>
        rw [MemoryWorkspace.view, FileTree.view_eq_none_iff, getNode_eq_ok_iff.mp hnode] at h
        cases h

omit [Sha256] in
theorem not_directory_of_kind {existing : Option WorkspaceEntry} {found : Option (Entry Bytes)}
    (hkind : existing.map WorkspaceEntry.kind = found.map entryKind)
    (hfree : found ≠ some .directory) :
    existing.any (fun entry => decide (entry.kind = .directory)) = false := by
  cases existing with
  | none => rfl
  | some entry =>
    cases found with
    | none => cases hkind
    | some found =>
      cases found with
      | directory => exact absurd rfl hfree
      | file c =>
        have hfile : entry.kind = .file := Option.some.inj hkind
        simp [hfile]

/-- When the turn of a source makes its mutation. -/
theorem transferFrom_succeeds_iff (hw : Consistent w.limits w.state) (hlock : Grants host)
    {source d target : SandboxPath} {e : Entry Bytes} (hsource : w.view source.parts = some e)
    (hd : d.value ≠ []) (hdirectory : w.view d.parts = some .directory)
    (hname : SandboxPath.ValidSegment source.name)
    (hjoin : d.join source.name w.limits.maxPathBytes w.limits.maxSegmentBytes = .ok target)
    (hnew : w.view (d.parts ++ [source.name]) ≠ some .directory) (recursive move : Bool) (t : τ) :
    (transferFrom host recursive move source (entryKind e) (pure target) ⟨w, t⟩).1 = .ok none ↔
      Transferable w recursive move source d := by
  obtain ⟨hvalue, hparts, hfits⟩ := joined_parts hname hd hjoin
  obtain ⟨existing, hexisting, hkind⟩ :=
    orAbsent_stat hw hlock (validatePath_eq_ok.mpr ⟨hvalue, hfits⟩) hparts hdirectory t
  rw [hparts] at hkind
  have hunique : ∀ target', d.join source.name w.limits.maxPathBytes w.limits.maxSegmentBytes =
      .ok target' → target' = target := by
    intro target' h
    rw [hjoin] at h
    exact (Except.ok.inj h).symm
  have hsome : existing.isSome = true ↔ w.view (d.parts ++ [source.name]) ≠ none := by
    rw [← Option.isSome_map (f := WorkspaceEntry.kind), hkind, Option.isSome_map, Option.isSome_iff_ne_none]
  have hany := not_directory_of_kind hkind hnew
  have hdir : entryKind e = .directory ↔ w.view source.parts = some .directory := by
    rw [hsource]
    cases e <;> simp [entryKind]
  unfold transferFrom
  by_cases hrecursive : entryKind e = .directory ∧ recursive = false
  · rw [if_pos hrecursive]
    constructor
    · intro h
      cases h
    · intro h
      have htrue := (h.directory (hdir.mp hrecursive.1)).1
      rw [hrecursive.2] at htrue
      cases htrue
  · rw [if_neg hrecursive]
    show (transferTo (reader host) (mutator host) move source (entryKind e) target ⟨w, t⟩).1 =
      .ok none ↔ _
    rw [transferTo_succeeds_iff hlock move source (entryKind e) target hexisting]
    constructor
    · rintro ⟨hmerge, -, hmethod⟩
      refine ⟨⟨target, hjoin, hmethod⟩, by simp [hsource], fun h => ⟨?_, ?_⟩⟩
      · by_contra hfalse
        exact hrecursive ⟨hdir.mpr h, Bool.not_eq_true _ ▸ hfalse⟩
      · by_contra hexists
        exact hmerge ⟨hdir.mpr h, hsome.mpr hexists⟩
    · rintro ⟨⟨target', htarget', hmethod⟩, -, hdirectories⟩
      rw [hunique target' htarget'] at hmethod
      refine ⟨fun hmerge => ?_, fun hfile => ?_, hmethod⟩
      · exact hsome.mp hmerge.2 (hdirectories (hdir.mp hmerge.1)).2
      · rw [hany] at hfile
        cases hfile.2

/-- Two operands and what they stand for: a source, a directory, and no
    directory where the source goes. -/
structure IntoDirectory (w : MemoryWorkspace) (cwd : SandboxPath) (operand directory : Text)
    (source d : SandboxPath) : Prop where
  resolve_source : MemoryWorkspace.resolvePath w.limits operand (some cwd) = .ok source
  resolve_directory : MemoryWorkspace.resolvePath w.limits directory (some cwd) = .ok d
  is_directory : w.view d.parts = some .directory
  free : w.view (d.parts ++ [source.name]) ≠ some .directory

/-- The two forms of a transfer differ where `join` refuses a name that the
    workspace would take. -/
theorem transfer_forms_iff (hw : Consistent w.limits w.state) (hlock : Grants host)
    (command : Text) {operand directory : Text} {context : CommandContext}
    (hplain : ∀ text, context.protection.containsProtectedText text = false)
    {source d : SandboxPath} (h : IntoDirectory w context.cwd operand directory source d)
    (recursive move : Bool) (t : τ) :
    SameEffect
        (transfer command (reader host) (mutator host) [operand] directory context recursive move
          ⟨w, t⟩)
        (transfer command (reader host) (mutator host) [operand]
          (directory ++ slash :: source.name) context recursive move ⟨w, t⟩) ↔
      (∃ q, d.join source.name 4096 255 = .ok q) ∨ ¬ Transferable w recursive move source d := by
  obtain ⟨hsource, hd, hdirectory, hfree⟩ := h
  have hsourceValue := (SandboxPath.resolve_spec hsource).1
  have hdValue := (SandboxPath.resolve_spec hd).1
  have hname := validSegment_name hsourceValue
  -- what the two runs come to, up to the turn of the source
  obtain ⟨hsucceedsA, hworkspaceA⟩ := transfer_effect host command operand directory hplain
    recursive move ⟨w, t⟩
  obtain ⟨hsucceedsB, hworkspaceB⟩ := transfer_effect host command operand
    (directory ++ slash :: source.name) hplain recursive move ⟨w, t⟩
  rw [SameEffect, hsucceedsA, hworkspaceA, hsucceedsB, hworkspaceB]
  have hrelative : startsWith source.name (py "/") = false := by
    rw [Bool.eq_false_iff, ne_eq, startsWith_iff]
    rintro ⟨rest, hrest⟩
    exact hname.no_slash (hrest ▸ List.mem_cons_self)
  have hbelow : MemoryWorkspace.resolvePath w.limits (directory ++ slash :: source.name)
      (some context.cwd) = d.join source.name w.limits.maxPathBytes w.limits.maxSegmentBytes :=
    SandboxPath.resolve_append hd hname.ne_nil hrelative
  obtain ⟨found, hfound, -, hdescribes⟩ := stat_spec hw hdValue hdirectory
  have hformA : transferBody host operand directory context recursive move ⟨w, t⟩ =
      transferOne (reader host) (mutator host) context.cwd recursive move d true operand
        ⟨w, (host.acquireLock t).2⟩ := by
    have hexisting : orAbsent ((reader host).stat d) ⟨w, t⟩ =
        (.ok (some found), ⟨w, (host.acquireLock t).2⟩) := by
      rw [orAbsent_apply, stat_apply hlock, hfound]
      rfl
    rw [transferBody_of_existing hd hexisting]
    have hkind : found.kind = .directory := hdescribes.kind
    simp [hkind]
  have hformB : ∀ target, d.join source.name w.limits.maxPathBytes w.limits.maxSegmentBytes =
        .ok target →
      transferBody host operand (directory ++ slash :: source.name) context recursive move ⟨w, t⟩ =
        transferOne (reader host) (mutator host) context.cwd recursive move target false operand
          ⟨w, (host.acquireLock t).2⟩ := by
    intro target htarget
    obtain ⟨hvalue, hparts, hfits⟩ := joined_parts hname hdValue htarget
    obtain ⟨existing, hexisting, hkind⟩ :=
      orAbsent_stat hw hlock (validatePath_eq_ok.mpr ⟨hvalue, hfits⟩) hparts hdirectory t
    rw [transferBody_of_existing (hbelow.trans htarget) hexisting]
    have hany : existing.any (fun entry => decide (entry.kind = .directory)) = false := by
      rw [hparts] at hkind
      exact not_directory_of_kind hkind hfree
    rw [hany]
  cases hview : w.view source.parts with
  | none =>
    -- neither form finds the source
    obtain ⟨e, hmissing⟩ := stat_of_missing hview
    have hrun : ∀ target into, transferOne (reader host) (mutator host) context.cwd recursive move
        target into operand ⟨w, (host.acquireLock t).2⟩ =
          (.error (.error e), ⟨w, (host.acquireLock (host.acquireLock t).2).2⟩) :=
      fun target into => transferOne_of_missing hlock hsource hmissing recursive move target into _
    have hnot : ¬ Transferable w recursive move source d := fun h => h.exists_source hview
    refine ⟨fun _ => .inr hnot, fun _ => ?_⟩
    rw [hformA, hrun]
    cases htarget : d.join source.name w.limits.maxPathBytes w.limits.maxSegmentBytes with
    | ok target =>
      rw [hformB target htarget, hrun]
      exact ⟨Iff.rfl, rfl⟩
    | error e =>
      rw [transferBody_of_error (hbelow.trans htarget)]
      exact ⟨⟨nofun, nofun⟩, rfl⟩
  | some e =>
    obtain ⟨entry, hentry, -, hdescribesEntry⟩ := stat_spec hw hsourceValue hview
    have hkind : entry.kind = entryKind e := by
      rw [hdescribesEntry.kind]
      cases e <;> rfl
    have hstat : (MemoryWorkspace.stat source w).1 = .ok entry := by rw [hentry]
    have hrunA := transferOne_of_entry hlock hsource hstat recursive move d true
      (host.acquireLock t).2
    have hrunB : ∀ target, _ := fun target => transferOne_of_entry hlock hsource hstat recursive
      move target false (host.acquireLock t).2
    simp only [if_true, Bool.false_eq_true, if_false, hkind] at hrunA hrunB
    rw [hformA, hrunA]
    cases htarget : d.join source.name w.limits.maxPathBytes w.limits.maxSegmentBytes with
    | error e' =>
      have hnot : ¬ Transferable w recursive move source d := by
        rintro ⟨⟨target, hok, -⟩, -, -⟩
        rw [htarget] at hok
        cases hok
      refine ⟨fun _ => .inr hnot, fun _ => ?_⟩
      rw [transferBody_of_error (hbelow.trans htarget)]
      cases hdefault : d.join source.name 4096 255 with
      | error e'' =>
        obtain ⟨hrefused, hsame⟩ := transferFrom_refused host w recursive move
          source (entryKind e) e'' (host.acquireLock (host.acquireLock t).2).2
        exact ⟨⟨fun h => absurd h hrefused, nofun⟩, hsame⟩
      | ok q =>
        have hrun := transferFrom_outcome hw hlock recursive move source (entryKind e) q
          (host.acquireLock (host.acquireLock t).2).2
        rcases hrun with ⟨-, ⟨m, hmethod⟩, -⟩ | ⟨hrefused, hsame⟩
        · -- what the workspace accepts fits its limits
          obtain ⟨-, hqParts, -⟩ := joined_parts hname hdValue hdefault
          have hallows := (validatePath_eq_ok.mp (transferMethod_valid hmethod)).2
          rw [hqParts] at hallows
          obtain ⟨target, hok⟩ := SandboxPath.join_of_fits hname hdValue hallows
          rw [htarget] at hok
          cases hok
        · exact ⟨⟨fun h => absurd h hrefused, nofun⟩, hsame⟩
    | ok target =>
      rw [hformB target htarget, hrunB]
      cases hdefault : d.join source.name 4096 255 with
      | ok q =>
        -- both spell one path
        refine ⟨fun _ => .inl ⟨q, rfl⟩, fun _ => ?_⟩
        obtain ⟨hqValue, hqParts, -⟩ := joined_parts hname hdValue hdefault
        obtain ⟨htValue, htParts, -⟩ := joined_parts hname hdValue htarget
        obtain rfl := SandboxPath.ext_parts hqValue htValue (hqParts.trans htParts.symm)
        exact ⟨Iff.rfl, rfl⟩
      | error e' =>
        have hsucceeds := transferFrom_succeeds_iff hw hlock hview hdValue hdirectory hname htarget
          hfree recursive move (host.acquireLock (host.acquireLock t).2).2
        obtain ⟨hrefused, hsame⟩ := transferFrom_refused host w recursive move
          source (entryKind e) e' (host.acquireLock (host.acquireLock t).2).2
        rw [hsucceeds, hsame]
        constructor
        · rintro ⟨hiff, -⟩
          exact .inr fun h => hrefused (hiff.mpr h)
        · rintro (⟨q, hq⟩ | hnot)
          · cases hq
          · refine ⟨⟨fun h => absurd h hrefused, fun h => absurd h hnot⟩, ?_⟩
            rcases transferFrom_outcome hw hlock recursive move source (entryKind e) target
              (host.acquireLock (host.acquireLock t).2).2 with ⟨hok, -⟩ | ⟨-, hw'⟩
            · exact absurd (hsucceeds.mp hok) hnot
            · exact hw'.symm

/-- `cp` or `mv`. -/
def transferring (host : CommandHost τ) (move : Bool) : VirtualCommand (CommandWorld τ) :=
  if move then mvCommand (reader host) (mutator host) else cpCommand (reader host) (mutator host)

/-- The options that `cp` or `mv` takes. -/
def transferOptions (move : Bool) : Text → Bool :=
  if move then fun argument => argument = py "-f" else onlyFlags (py "fRr")

/-- Whether directories are transferred. -/
def isRecursive (move : Bool) (options : List Text) : Bool :=
  move || options.any fun option => CodePoint.ofChar 'r' ∈ option || CodePoint.ofChar 'R' ∈ option

/-- A request of `cp` or `mv` with one source. -/
structure Requests (move : Bool) (options : List Text) (operand target : Text)
    (request : CommandRequest) : Prop where
  no_stdin : hasStdin request = false
  scanned : scanArguments hasDash (transferOptions move) request.argv.tail =
    some (options, [operand, target])

theorem execute_of_requests (host : CommandHost τ) {move : Bool} {options : List Text}
    {operand target : Text} {request : CommandRequest}
    (h : Requests move options operand target request) (context : CommandContext) :
    (transferring host move).execute request context =
      transfer (if move then py "mv" else py "cp") (reader host) (mutator host) [operand] target
        context (isRecursive move options) move := by
  obtain ⟨hstdin, hscanned⟩ := h
  have hcommand : ∀ (command usage : Text),
      transferCommand command (transferOptions move) usage move (reader host) (mutator host) request
        context = transfer command (reader host) (mutator host) [operand] target context
          (isRecursive move options) move := by
    intro command usage
    unfold transferCommand rejectStdin
    rw [hstdin, hscanned]
    rfl
  cases move with
  | false => exact hcommand _ _
  | true => exact hcommand _ _

end CommandWorld

namespace CommandWorld

open MemoryWorkspace NewWorkspace

theorem wide_positive : 0 < WorkspaceLimits.default.maxFileBytes ∧
    0 < WorkspaceLimits.default.maxTotalBytes ∧ 0 < WorkspaceLimits.default.maxNodes ∧
    0 < WorkspaceLimits.default.maxPathBytes ∧ 0 < 300 ∧
    0 < WorkspaceLimits.default.maxReadBytes ∧ 0 < WorkspaceLimits.default.maxReadLines ∧
    0 < WorkspaceLimits.default.maxPatchBytes ∧ 0 < WorkspaceLimits.default.maxSnapshotBytes := by
  decide

theorem wide_segment_le_path : 300 ≤ WorkspaceLimits.default.maxPathBytes := by decide

theorem wide_root_segment : (py "workspace").length ≤ 300 := by decide

/-- Limits that take names of 300 bytes. -/
def wideLimits : WorkspaceLimits :=
  { WorkspaceLimits.default with
    maxSegmentBytes := 300
    positive := wide_positive
    segment_le_path := wide_segment_le_path
    root_segment := wide_root_segment }

/-- A name that the default limits refuse: 64 characters of four bytes. -/
def longName : Text := List.replicate 64 (CodePoint.ofChar '𝄞')

/-- The file with the long name. -/
def longPath : SandboxPath := ⟨py "/workspace/" ++ longName, by decide +kernel⟩

/-- The directory beside it. -/
def directoryPath : SandboxPath := ⟨py "/workspace/d", by decide +kernel⟩

def longWrite : Request :=
  .write { path := longPath, content := [], precondition := .pathMustNotExist }

def makeDirectory : Request := .mkdir { path := directoryPath }

/-- A workspace with the file and the directory. -/
def longWorkspace : MemoryWorkspace :=
  (makeDirectory.call (longWrite.call (NewWorkspace.workspace wideLimits)).2).2

theorem reachable_longWorkspace : (system wideLimits).Reachable longWorkspace :=
  have hwritten : (system wideLimits).Reachable
      (longWrite.call (NewWorkspace.workspace wideLimits)).2 :=
    .step (l := .request longWrite) (NewWorkspace.reachable wideLimits) rfl
  .step (l := .request makeDirectory) hwritten rfl

/-- The context of a command in the root. -/
def rootContext : CommandContext := ⟨.root, ⟨⟨[], List.nodup_nil⟩, .empty⟩, .noOp⟩

/-- `cp SRC DIR`, with no standard input. -/
def copyRequest (target : Text) : CommandRequest :=
  ⟨[py "cp", longName, target], [], false, List.cons_ne_nil _ _⟩

theorem longWorkspace_into :
    IntoDirectory longWorkspace .root longName (py "d") longPath directoryPath where
  resolve_source := by decide +kernel
  resolve_directory := by decide +kernel
  is_directory := by decide +kernel
  free := by decide +kernel

theorem copyRequest_requests (target : Text) :
    Requests false [] longName target (copyRequest target) where
  no_stdin := rfl
  scanned := by
    have hdash : hasDash longName = false := by decide +kernel
    show scanArguments hasDash (transferOptions false) [longName, target] = _
    rw [scanArguments, if_neg (by decide +kernel), hdash]
    rfl

/-- The exit code of a run that returns. -/
def exitCode (run : Except Raised CommandResult × CommandWorld τ) : Option Nat :=
  run.1.toOption.map CommandResult.exitCode

theorem succeeds_iff_exitCode {τ : Type} (run : Except Raised CommandResult × CommandWorld τ) :
    Succeeds run ↔ exitCode run = some 0 := by
  rcases run with ⟨e | result, s⟩
  · simp [Succeeds, exitCode, Except.toOption]
  · simp [Succeeds, exitCode, Except.toOption]

end CommandWorld
