import MemSandbox.Workspace.ArchiveRestores
import MemSandbox.Workspace.Runs

/-! # Racing restores

    Any number of workspaces, and any number of `commit_restore` calls that
    are suspended at the same time.  A call runs in three parts: `begin` up to
    its first suspension, `take` to the second, `publish` to the end; between
    them any other step may happen, and at a suspension it may be cancelled.

    Keys of candidates are object identities, which are unique over all
    workspaces: each preparation starts from the world's next identity.

    `restores_exclusive`: each issued candidate is published at most once,
    into the workspace that issued it, with the state validated when it was
    prepared; and only requests and `publish` change a live state. -/

open Python FileMap Node PortableWorkspaceArchiveCodec

namespace RestoreRaces

/-! ## Section 1: Model -/

/-- How far a suspended `commit_restore` has come. -/
inductive Phase where
  | checked
  | taken (state : WorkspaceState)

/-- A suspended `commit_restore`: the workspace it was called on, and the
    capability of its candidate. -/
structure PendingCommit where
  workspace : Nat
  capability : Capability
  phase : Phase

/-- What happened to a candidate. -/
inductive Event where
  | issued (workspace key : Nat) (state : WorkspaceState)
  | published (workspace key : Nat) (state : WorkspaceState)

/-- The key of a publication. -/
def Event.publishedKey : Event → Option Nat
  | .issued _ _ _ => none
  | .published _ key _ => some key

/-- Workspaces by restore token, suspended commits, and the history. -/
structure World where
  workspaces : Nat → Option MemoryWorkspace
  commits : Nat → Option PendingCommit
  nextWorkspace : Nat
  nextCapability : Nat
  nextCommit : Nat
  history : List Event

/-- A world without workspaces. -/
def World.empty : World := ⟨fun _ => none, fun _ => none, 0, 0, 0, []⟩

/-- The two ways to prepare a candidate. -/
inductive Preparation where
  | snapshot (data : WorkspaceSnapshotData) (requiredDirectory : SandboxPath)
  | archive (data : WorkspaceArchiveData) (requiredDirectory : SandboxPath)

/-- A step of the world; `collect` drops the entry of a weak key that nothing
    refers to any more. -/
inductive Action where
  | create (limits : WorkspaceLimits)
  | request (workspace : Nat) (request : MemoryWorkspace.Request)
  | prepare (workspace : Nat) (preparation : Preparation)
  | begin (workspace : Nat) (candidate : RestoreCandidate)
  | take (commit : Nat)
  | publish (commit : Nat)
  | cancel (commit : Nat)
  | collect (workspace key : Nat)

namespace World

/-- The world with another state of one workspace object. -/
def setWorkspace (W : World) (t : Nat) (w : MemoryWorkspace) : World :=
  { W with workspaces := Function.update W.workspaces t (some w) }

/-- The world with another state of one suspended commit. -/
def setCommit (W : World) (id : Nat) (commit : Option PendingCommit) : World :=
  { W with commits := Function.update W.commits id commit }

@[simp] theorem setWorkspace_self (W : World) (t : Nat) (w : MemoryWorkspace) :
    (W.setWorkspace t w).workspaces t = some w := by
  simp [setWorkspace]

theorem setWorkspace_of_ne {W : World} {t t' : Nat} (h : t' ≠ t) (w : MemoryWorkspace) :
    (W.setWorkspace t w).workspaces t' = W.workspaces t' := by
  simp [setWorkspace, h]

theorem setWorkspace_eq {W : World} {t t' : Nat} {w w' : MemoryWorkspace}
    (h : (W.setWorkspace t w).workspaces t' = some w') :
    (t' = t ∧ w' = w) ∨ (t' ≠ t ∧ W.workspaces t' = some w') := by
  by_cases ht : t' = t
  · subst ht
    simp only [setWorkspace, Function.update_self, Option.some.injEq] at h
    exact .inl ⟨rfl, h.symm⟩
  · simp only [setWorkspace, Function.update_of_ne ht] at h
    exact .inr ⟨ht, h⟩

theorem setCommit_eq {W : World} {id id' : Nat} {commit : Option PendingCommit}
    {found : PendingCommit} (h : (W.setCommit id commit).commits id' = some found) :
    (id' = id ∧ commit = some found) ∨ (id' ≠ id ∧ W.commits id' = some found) := by
  by_cases hid : id' = id
  · subst hid
    simp only [setCommit, Function.update_self] at h
    exact .inl ⟨rfl, h⟩
  · simp only [setCommit, Function.update_of_ne hid] at h
    exact .inr ⟨hid, h⟩

end World

variable [Sha256] [UnicodeData] [JsonRuntime] [TarReader] [GzipReader]

/-- The call that prepares. -/
def Preparation.call : Preparation → Method RestoreCandidate
  | .snapshot data requiredDirectory => MemoryWorkspace.prepareRestore data requiredDirectory
  | .archive data requiredDirectory => MemoryWorkspace.prepareArchiveRestore data requiredDirectory

namespace World

/-- The record of a candidate that was just issued. -/
def issuedEvents (t : Nat) (w : MemoryWorkspace) : RestoreCandidate → List Event
  | .prepared _ (.issued key) =>
    match Dict.get? key w.restoreCandidates with
    | some payload => [.issued t key payload.state]
    | none => []
  | _ => []

/-- A preparation, which allocates from the identities of the world. -/
def prepare (W : World) (t : Nat) (w : MemoryWorkspace) (preparation : Preparation) : World :=
  match preparation.call { w with nextCapability := W.nextCapability } with
  | (.ok candidate, w') =>
    { W.setWorkspace t w' with
      nextCapability := w'.nextCapability
      history := W.history ++ issuedEvents t w' candidate }
  | (.error _, w') => { W.setWorkspace t w' with nextCapability := w'.nextCapability }

/-- The first part of a commit: it raises, or is suspended. -/
def begin (W : World) (t : Nat) (w : MemoryWorkspace) (candidate : RestoreCandidate) : World :=
  match (MemoryWorkspace.commitRestoreCheck candidate w).1 with
  | .ok capability =>
    { W.setCommit W.nextCommit (some ⟨t, capability, .checked⟩) with
      nextCommit := W.nextCommit + 1 }
  | .error _ => W

/-- The second part of a commit: it raises, or is suspended with the state that
    it will publish. -/
def take (W : World) (id : Nat) (commit : PendingCommit) (w : MemoryWorkspace) : World :=
  match MemoryWorkspace.commitRestoreTake commit.capability w with
  | (.ok state, w') =>
    (W.setWorkspace commit.workspace w').setCommit id (some { commit with phase := .taken state })
  | (.error _, w') => (W.setWorkspace commit.workspace w').setCommit id none

/-- The last part of a commit. -/
def publish (W : World) (id : Nat) (t key : Nat) (state : WorkspaceState) (w : MemoryWorkspace) :
    World :=
  { (W.setWorkspace t (MemoryWorkspace.commitRestorePublish state w).2).setCommit id none with
    history := W.history ++ [.published t key state] }

/-- One step. -/
def after (W : World) : Action → World
  | .create limits =>
    match MemoryWorkspace.new limits W.nextWorkspace with
    | .ok w => { W.setWorkspace W.nextWorkspace w with nextWorkspace := W.nextWorkspace + 1 }
    | .error _ => W
  | .request t request =>
    match W.workspaces t with
    | some w => W.setWorkspace t (request.call w).2
    | none => W
  | .prepare t preparation =>
    match W.workspaces t with
    | some w => W.prepare t w preparation
    | none => W
  | .begin t candidate =>
    match W.workspaces t with
    | some w => W.begin t w candidate
    | none => W
  | .take id =>
    match W.commits id with
    | some ⟨t, capability, .checked⟩ =>
      match W.workspaces t with
      | some w => W.take id ⟨t, capability, .checked⟩ w
      | none => W
    | _ => W
  | .publish id =>
    match W.commits id with
    | some ⟨t, .issued key, .taken state⟩ =>
      match W.workspaces t with
      | some w => W.publish id t key state w
      | none => W
    | _ => W
  | .cancel id => W.setCommit id none
  | .collect t key =>
    match W.workspaces t with
    | some w =>
      W.setWorkspace t { w with restoreCandidates := Dict.erase key w.restoreCandidates }
    | none => W

end World

/-- The runs of the world. -/
def system : System World Action where
  init W := W = .empty
  step W action W' := W' = W.after action

/-! ## Section 2: What a preparation validates -/

/-- The state that a preparation has validated: the tree of the decoded
    entries, with the decoded counters. -/
def Preparation.Validates (limits : WorkspaceLimits) (state : WorkspaceState) :
    Preparation → Prop
  | .snapshot data _ => ∃ decoded,
      JsonWorkspaceSnapshotCodec.decode data limits
        (fun value => MemoryWorkspace.resolvePath limits value none) = .ok decoded ∧
      MemoryWorkspace.rootFromEntries decoded.entries [] = .ok state.root ∧
      state.stats = decoded.stats
  | .archive data _ => ∃ decoded,
      PortableWorkspaceArchiveCodec.decode data.encoded limits = .ok decoded ∧
      MemoryWorkspace.rootFromEntries decoded.entries [] = .ok state.root ∧
      state.stats = ⟨decoded.treeStats.totalBytes, decoded.treeStats.nodeCount,
        data.workspaceRevision, data.rootHash⟩

omit [UnicodeData] in
/-- A preparation raises and changes nothing, or stores one validated state
    under the next identity. -/
theorem Preparation.outcome (preparation : Preparation) (w : MemoryWorkspace) :
    Call.Outcome preparation.call w fun candidate w' =>
      ∃ state, preparation.Validates w.limits state ∧
        MemoryWorkspace.Consistent w.limits state ∧
        candidate = .prepared w.restoreToken (.issued w.nextCapability) ∧
        w' = { w with
          restoreCandidates := Dict.set w.nextCapability ⟨state, state.stats⟩ w.restoreCandidates
          nextCapability := w.nextCapability + 1 } := by
  cases preparation with
  | snapshot data requiredDirectory =>
    show Call.Outcome (MemoryWorkspace.prepareRestore data requiredDirectory) w _
    unfold MemoryWorkspace.prepareRestore
    rw [Call.outcome_get_bind]
    refine Call.outcome_lift_bind fun _ _ => ?_
    refine Call.outcome_lift_bind fun decoded hdecoded => ?_
    refine (MemoryWorkspace.prepareRestoreCandidate_outcome w _ _ _).mono fun _ _ h => ?_
    obtain ⟨state, hcons, hstats, hroot, hcandidate, hw'⟩ := h
    exact ⟨state, ⟨decoded, hdecoded, hroot, hstats⟩, hcons, hcandidate, hw'⟩
  | archive data requiredDirectory =>
    refine (MemoryWorkspace.prepareArchiveRestore_outcome w data requiredDirectory).mono
      fun _ _ h => ?_
    obtain ⟨decoded, state, hdecoded, hroot, -, -, hstats, hcons, hcandidate, hw'⟩ := h
    exact ⟨state, ⟨decoded, hdecoded, hroot, hstats⟩, hcons, hcandidate, hw'⟩

/-! ## Section 3: The invariant -/

/-- A candidate is stored in the workspace that issued it, or a commit has taken
    it, or it has been published, and only one of these; and what is held is
    the state that was issued. -/
structure Exclusive (W : World) : Prop where
  token : ∀ t w, W.workspaces t = some w → w.restoreToken = t ∧ t < W.nextWorkspace
  sound : ∀ t w, W.workspaces t = some w →
    MemoryWorkspace.Sound w ∧ Dict.UniqueKeys w.restoreCandidates
  stored : ∀ t w c, W.workspaces t = some w → c ∈ w.restoreCandidates →
    .issued t c.1 c.2.state ∈ W.history ∧ c.2.expectedStats = c.2.state.stats
  taken : ∀ id t k s, W.commits id = some ⟨t, .issued k, .taken s⟩ → .issued t k s ∈ W.history
  published : ∀ t k s, .published t k s ∈ W.history → .issued t k s ∈ W.history
  consistent : ∀ t k s, .issued t k s ∈ W.history →
    ∃ w, W.workspaces t = some w ∧ MemoryWorkspace.Consistent w.limits s ∧
      ∃ preparation : Preparation, preparation.Validates w.limits s
  fresh : ∀ t k s, .issued t k s ∈ W.history → k < W.nextCapability
  origin : ∀ t k s t' s', .issued t k s ∈ W.history → .issued t' k s' ∈ W.history →
    t' = t ∧ s' = s
  stored_not_taken : ∀ t w c id t' s, W.workspaces t = some w → c ∈ w.restoreCandidates →
    W.commits id ≠ some ⟨t', .issued c.1, .taken s⟩
  stored_not_published : ∀ t w c t' s, W.workspaces t = some w → c ∈ w.restoreCandidates →
    .published t' c.1 s ∉ W.history
  taken_once : ∀ id id' t t' k s s', W.commits id = some ⟨t, .issued k, .taken s⟩ →
    W.commits id' = some ⟨t', .issued k, .taken s'⟩ → id' = id
  taken_not_published : ∀ id t t' k s s', W.commits id = some ⟨t, .issued k, .taken s⟩ →
    .published t' k s' ∉ W.history
  published_once : (W.history.filterMap Event.publishedKey).Nodup

omit [UnicodeData] in
theorem exclusive_empty : Exclusive .empty := by
  constructor <;> simp [World.empty]

omit [UnicodeData] in
/-- A workspace may lose candidates and change its state. -/
theorem Exclusive.shrink {W : World} (h : Exclusive W) {t : Nat} {w w' : MemoryWorkspace}
    (hw : W.workspaces t = some w) (htoken : w'.restoreToken = w.restoreToken)
    (hlimits : w'.limits = w.limits) (hsound : MemoryWorkspace.Sound w')
    (hsub : w'.restoreCandidates.Sublist w.restoreCandidates) :
    Exclusive (W.setWorkspace t w') := by
  obtain ⟨htok, hlt⟩ := h.token t w hw
  have hunique : Dict.UniqueKeys w'.restoreCandidates :=
    List.Nodup.sublist (hsub.map Prod.fst) (h.sound t w hw).2
  -- what is stored afterwards was stored before
  have hbefore : ∀ t' v c, (W.setWorkspace t w').workspaces t' = some v →
      c ∈ v.restoreCandidates → ∃ v₀, W.workspaces t' = some v₀ ∧ c ∈ v₀.restoreCandidates := by
    intro t' v c hv hc
    rcases World.setWorkspace_eq hv with ⟨rfl, rfl⟩ | ⟨-, hv⟩
    · exact ⟨w, hw, hsub.subset hc⟩
    · exact ⟨v, hv, hc⟩
  refine { h with
    token := ?_
    sound := ?_
    stored := ?_
    consistent := ?_
    stored_not_taken := ?_
    stored_not_published := ?_ }
  · intro t' v hv
    rcases World.setWorkspace_eq hv with ⟨rfl, rfl⟩ | ⟨-, hv⟩
    · exact ⟨htoken.trans htok, hlt⟩
    · exact h.token t' v hv
  · intro t' v hv
    rcases World.setWorkspace_eq hv with ⟨rfl, rfl⟩ | ⟨-, hv⟩
    · exact ⟨hsound, hunique⟩
    · exact h.sound t' v hv
  · intro t' v c hv hc
    obtain ⟨v₀, hv₀, hc₀⟩ := hbefore t' v c hv hc
    exact h.stored t' v₀ c hv₀ hc₀
  · intro t' k s hissued
    obtain ⟨v, hv, hcons⟩ := h.consistent t' k s hissued
    by_cases ht : t' = t
    · subst ht
      rw [hw, Option.some.injEq] at hv
      subst hv
      refine ⟨w', World.setWorkspace_self W _ _, ?_⟩
      rw [hlimits]
      exact hcons
    · exact ⟨v, (World.setWorkspace_of_ne ht _).trans hv, hcons⟩
  · intro t' v c id t'' s hv hc
    obtain ⟨v₀, hv₀, hc₀⟩ := hbefore t' v c hv hc
    exact h.stored_not_taken t' v₀ c id t'' s hv₀ hc₀
  · intro t' v c t'' s hv hc
    obtain ⟨v₀, hv₀, hc₀⟩ := hbefore t' v c hv hc
    exact h.stored_not_published t' v₀ c t'' s hv₀ hc₀

omit [UnicodeData] in
/-- A suspended commit may end, or be one that has taken nothing. -/
theorem Exclusive.setCommit {W : World} (h : Exclusive W) (id : Nat)
    (commit : Option PendingCommit)
    (hcommit : ∀ t capability s, commit ≠ some ⟨t, capability, .taken s⟩) :
    Exclusive (W.setCommit id commit) := by
  have hbefore : ∀ id' t capability s,
      (W.setCommit id commit).commits id' = some ⟨t, capability, .taken s⟩ →
        W.commits id' = some ⟨t, capability, .taken s⟩ := by
    intro id' t capability s hfound
    rcases World.setCommit_eq hfound with ⟨-, heq⟩ | ⟨-, heq⟩
    · exact absurd heq (hcommit t capability s)
    · exact heq
  refine { h with
    taken := ?_
    stored_not_taken := ?_
    taken_once := ?_
    taken_not_published := ?_ }
  · intro id' t k s hid
    exact h.taken id' t k s (hbefore _ _ _ _ hid)
  · intro t w c id' t' s hw hc hid
    exact h.stored_not_taken t w c id' t' s hw hc (hbefore _ _ _ _ hid)
  · intro id' id'' t t' k s s' hid hid'
    exact h.taken_once id' id'' t t' k s s' (hbefore _ _ _ _ hid) (hbefore _ _ _ _ hid')
  · intro id' t t' k s s' hid
    exact h.taken_not_published id' t t' k s s' (hbefore _ _ _ _ hid)

omit [UnicodeData] [JsonRuntime] [TarReader] [GzipReader] in
/-- What `commit_restore` takes is a stored candidate and its state. -/
theorem commitRestoreTake_eq_ok {w w' : MemoryWorkspace} (hw : MemoryWorkspace.Sound w)
    {capability : Capability} {state : WorkspaceState}
    (h : MemoryWorkspace.commitRestoreTake capability w = (.ok state, w')) :
    ∃ k payload, capability = .issued k ∧ (k, payload) ∈ w.restoreCandidates ∧
      state = payload.state ∧
      w' = { w with restoreCandidates := Dict.erase k w.restoreCandidates } := by
  unfold MemoryWorkspace.commitRestoreTake at h
  rw [Call.bind_of_ok (Call.get_apply w)] at h
  cases capability with
  | none => cases h
  | unhashable => cases h
  | issued k =>
    simp only at h
    cases hget : Dict.get? k w.restoreCandidates with
    | none =>
      rw [hget] at h
      cases h
    | some payload =>
      rw [hget] at h
      simp only [Call.bind_of_ok (Call.set_apply _ _)] at h
      have hmem := Dict.mem_of_get? hget
      obtain ⟨hdetached, hw'⟩ := Prod.mk.inj h
      obtain ⟨-, hstate⟩ :=
        (MemoryWorkspace.detachedState_eq_ok (hw.candidates _ hmem)).mp hdetached
      exact ⟨k, payload, rfl, hmem, hstate, hw'.symm⟩

omit [UnicodeData] in
/-- A stored candidate that a commit takes is stored no longer. -/
theorem Exclusive.take {W : World} (h : Exclusive W) {t k : Nat} {w : MemoryWorkspace}
    {payload : PreparedRestorePayload} (hw : W.workspaces t = some w)
    (hmem : (k, payload) ∈ w.restoreCandidates) (id : Nat) :
    Exclusive ((W.setWorkspace t
        { w with restoreCandidates := Dict.erase k w.restoreCandidates }).setCommit id
      (some ⟨t, .issued k, .taken payload.state⟩)) := by
  obtain ⟨hsound, hunique⟩ := h.sound t w hw
  have hsub := Dict.erase_sublist k w.restoreCandidates
  have hsmall : Exclusive (W.setWorkspace t
      { w with restoreCandidates := Dict.erase k w.restoreCandidates }) :=
    h.shrink hw rfl rfl ⟨hsound.state, fun c hc => hsound.candidates c (hsub.subset hc)⟩ hsub
  obtain ⟨hissued, -⟩ := h.stored t w _ hw hmem
  -- in the smaller world no workspace stores the key
  have hgone : ∀ t' v c, (W.setWorkspace t
      { w with restoreCandidates := Dict.erase k w.restoreCandidates }).workspaces t' = some v →
        c ∈ v.restoreCandidates → c.1 ≠ k := by
    intro t' v c hv hc heq
    rcases World.setWorkspace_eq hv with ⟨rfl, rfl⟩ | ⟨hne, hv⟩
    · have hnone := Dict.get?_erase hunique k k
      rw [if_pos rfl, Dict.get?_eq_none_iff] at hnone
      have hkey := Dict.mem_keys_of_mem hc
      rw [heq] at hkey
      exact hnone hkey
    · obtain ⟨hother, -⟩ := h.stored t' v c hv hc
      rw [heq] at hother
      exact hne (h.origin _ _ _ _ _ hissued hother).1
  refine { hsmall with
    taken := ?_
    stored_not_taken := ?_
    taken_once := ?_
    taken_not_published := ?_ }
  · intro id' t' k' s hid
    rcases World.setCommit_eq hid with ⟨-, heq⟩ | ⟨-, hid⟩
    · cases heq
      exact hissued
    · exact h.taken id' t' k' s hid
  · intro t' v c id' t'' s hv hc hid
    rcases World.setCommit_eq hid with ⟨-, heq⟩ | ⟨-, hid⟩
    · cases heq
      exact hgone t' v c hv hc rfl
    · exact hsmall.stored_not_taken t' v c id' t'' s hv hc hid
  · intro id' id'' t' t'' k' s s' hid hid'
    rcases World.setCommit_eq hid with ⟨hnew, heq⟩ | ⟨-, hold⟩
    · cases heq
      rcases World.setCommit_eq hid' with ⟨hnew', -⟩ | ⟨-, hold'⟩
      · exact hnew'.trans hnew.symm
      · exact absurd hold' (h.stored_not_taken t w _ id'' t'' s' hw hmem)
    · rcases World.setCommit_eq hid' with ⟨-, heq⟩ | ⟨-, hold'⟩
      · cases heq
        exact absurd hold (h.stored_not_taken t w _ id' t' s hw hmem)
      · exact h.taken_once id' id'' t' t'' k' s s' hold hold'
  · intro id' t' t'' k' s s' hid
    rcases World.setCommit_eq hid with ⟨-, heq⟩ | ⟨-, hid⟩
    · cases heq
      exact h.stored_not_published t w _ t'' s' hw hmem
    · exact h.taken_not_published id' t' t'' k' s s' hid

omit [UnicodeData] in
/-- What a commit has taken it publishes, and then it is held by nobody. -/
theorem Exclusive.publish {W : World} (h : Exclusive W) {id t k : Nat} {state : WorkspaceState}
    {w : MemoryWorkspace} (hid : W.commits id = some ⟨t, .issued k, .taken state⟩)
    (hw : W.workspaces t = some w) : Exclusive (W.publish id t k state w) := by
  obtain ⟨hsound, -⟩ := h.sound t w hw
  have hissued := h.taken id t k state hid
  obtain ⟨v, hv, hcons, -⟩ := h.consistent t k state hissued
  rw [hw, Option.some.injEq] at hv
  subst hv
  have hlive : Exclusive (W.setWorkspace t { w with state }) :=
    h.shrink hw rfl rfl ⟨hcons, hsound.candidates⟩ (List.Sublist.refl _)
  have hdone := hlive.setCommit id none (by simp)
  have hmem : ∀ event, event ∈ (W.publish id t k state w).history ↔
      event ∈ W.history ∨ event = .published t k state := by
    intro event
    simp [World.publish]
  have hissuedIff : ∀ t' k' s, .issued t' k' s ∈ (W.publish id t k state w).history ↔
      .issued t' k' s ∈ W.history := by
    intro t' k' s
    simp [hmem]
  constructor
  · exact hdone.token
  · exact hdone.sound
  · intro t' v c hv hc
    rw [hissuedIff]
    exact hdone.stored t' v c hv hc
  · intro id' t' k' s hid'
    rw [hissuedIff]
    exact hdone.taken id' t' k' s hid'
  · intro t' k' s hpublished
    rw [hissuedIff]
    rcases (hmem _).mp hpublished with hpublished | heq
    · exact h.published t' k' s hpublished
    · cases heq
      exact hissued
  · intro t' k' s hev
    exact hdone.consistent t' k' s ((hissuedIff _ _ _).mp hev)
  · intro t' k' s hev
    exact h.fresh t' k' s ((hissuedIff _ _ _).mp hev)
  · intro t' k' s t'' s' hev hev'
    exact h.origin t' k' s t'' s' ((hissuedIff _ _ _).mp hev) ((hissuedIff _ _ _).mp hev')
  · exact hdone.stored_not_taken
  · intro t' v c t'' s hv hc hpublished
    rcases (hmem _).mp hpublished with hpublished | heq
    · exact hdone.stored_not_published t' v c t'' s hv hc hpublished
    · cases heq
      exact hlive.stored_not_taken t' v c id t state hv hc hid
  · exact hdone.taken_once
  · intro id' t' t'' k' s s' hid' hpublished
    rcases World.setCommit_eq hid' with ⟨-, heq⟩ | ⟨hne, hid'⟩
    · cases heq
    · rcases (hmem _).mp hpublished with hpublished | heq
      · exact h.taken_not_published id' t' t'' k' s s' hid' hpublished
      · cases heq
        exact hne (h.taken_once id id' t t' k state s hid hid')
  · show ((W.history ++ [Event.published t k state]).filterMap Event.publishedKey).Nodup
    rw [List.filterMap_append, List.nodup_append]
    refine ⟨h.published_once, List.nodup_singleton _, ?_⟩
    intro a ha b hb heq
    rw [show [Event.published t k state].filterMap Event.publishedKey = [k] from rfl,
      List.mem_singleton] at hb
    subst hb
    subst heq
    obtain ⟨event, hevent, hkey⟩ := List.mem_filterMap.mp ha
    cases event with
    | issued t' k' s => cases hkey
    | published t' k' s =>
      cases hkey
      exact h.taken_not_published id t t' a state s hid hevent

/-! ## Section 4: Every step -/

omit [UnicodeData] in
/-- A preparation changes no live state; it raises, or issues the next identity
    for a state that it has validated. -/
theorem prepare_cases (W : World) (t : Nat) (w : MemoryWorkspace) (preparation : Preparation) :
    W.prepare t w preparation =
        W.setWorkspace t { w with nextCapability := W.nextCapability } ∨
      ∃ state, preparation.Validates w.limits state ∧
        MemoryWorkspace.Consistent w.limits state ∧
        W.prepare t w preparation =
          { W.setWorkspace t { w with
              restoreCandidates :=
                Dict.set W.nextCapability ⟨state, state.stats⟩ w.restoreCandidates
              nextCapability := W.nextCapability + 1 } with
            nextCapability := W.nextCapability + 1
            history := W.history ++ [Event.issued t W.nextCapability state] } := by
  have houtcome := preparation.outcome { w with nextCapability := W.nextCapability }
  unfold World.prepare
  rcases hres : preparation.call { w with nextCapability := W.nextCapability } with ⟨e | candidate, w'⟩
  · left
    have hw' := houtcome.of_eq_error hres
    subst hw'
    rfl
  · right
    obtain ⟨state, hvalidates, hcons, hcandidate, hw'⟩ := houtcome.of_eq_ok hres
    subst hcandidate
    subst hw'
    refine ⟨state, hvalidates, hcons, ?_⟩
    simp only [World.issuedEvents, Dict.get?_set_self]

omit [UnicodeData] in
/-- The candidate that a preparation issues is stored, and nowhere else. -/
theorem Exclusive.prepare {W : World} (h : Exclusive W) {t : Nat} {w : MemoryWorkspace}
    (hw : W.workspaces t = some w) (preparation : Preparation) :
    Exclusive (W.prepare t w preparation) := by
  obtain ⟨hsound, hunique⟩ := h.sound t w hw
  obtain ⟨htoken, hlt⟩ := h.token t w hw
  rcases prepare_cases W t w preparation with heq | ⟨state, hvalidates, hcons, heq⟩
  · rw [heq]
    exact h.shrink hw rfl rfl ⟨hsound.state, hsound.candidates⟩ (List.Sublist.refl _)
  · rw [heq]
    -- the world after, its stored candidates, and its record
    have hstored : ∀ t' v c, (W.setWorkspace t { w with
          restoreCandidates := Dict.set W.nextCapability ⟨state, state.stats⟩ w.restoreCandidates
          nextCapability := W.nextCapability + 1 }).workspaces t' = some v →
        c ∈ v.restoreCandidates →
        (t' = t ∧ c = (W.nextCapability, ⟨state, state.stats⟩)) ∨
          ∃ v₀, W.workspaces t' = some v₀ ∧ c ∈ v₀.restoreCandidates := by
      intro t' v c hv hc
      rcases World.setWorkspace_eq hv with ⟨rfl, rfl⟩ | ⟨-, hv⟩
      · rcases Dict.mem_set hc with hnew | hold
        · exact .inl ⟨rfl, hnew⟩
        · exact .inr ⟨w, hw, hold⟩
      · exact .inr ⟨v, hv, hc⟩
    have hissued : ∀ t' k s, .issued t' k s ∈ W.history ++ [Event.issued t W.nextCapability state] ↔
        .issued t' k s ∈ W.history ∨ (t' = t ∧ k = W.nextCapability ∧ s = state) := by
      intro t' k s
      simp
    have hpublished : ∀ t' k s,
        .published t' k s ∈ W.history ++ [Event.issued t W.nextCapability state] ↔
          .published t' k s ∈ W.history := by
      intro t' k s
      simp
    have hnew : ∀ t' s, .issued t' W.nextCapability s ∉ W.history := by
      intro t' s hev
      exact absurd (h.fresh t' _ s hev) (lt_irrefl _)
    constructor
    · intro t' v hv
      rcases World.setWorkspace_eq hv with ⟨rfl, rfl⟩ | ⟨-, hv⟩
      · exact ⟨htoken, hlt⟩
      · exact h.token t' v hv
    · intro t' v hv
      rcases World.setWorkspace_eq hv with ⟨rfl, rfl⟩ | ⟨-, hv⟩
      · refine ⟨⟨hsound.state, ?_⟩, Dict.uniqueKeys_set hunique _ _⟩
        intro c hc
        rcases Dict.mem_set hc with rfl | hc
        · exact hcons
        · exact hsound.candidates c hc
      · exact h.sound t' v hv
    · intro t' v c hv hc
      rcases hstored t' v c hv hc with ⟨rfl, rfl⟩ | ⟨v₀, hv₀, hc₀⟩
      · exact ⟨(hissued _ _ _).mpr (.inr ⟨rfl, rfl, rfl⟩), rfl⟩
      · obtain ⟨hev, hstats⟩ := h.stored t' v₀ c hv₀ hc₀
        exact ⟨(hissued _ _ _).mpr (.inl hev), hstats⟩
    · intro id t' k s hid
      exact (hissued _ _ _).mpr (.inl (h.taken id t' k s hid))
    · intro t' k s hev
      exact (hissued _ _ _).mpr (.inl (h.published t' k s ((hpublished _ _ _).mp hev)))
    · intro t' k s hev
      rcases (hissued _ _ _).mp hev with hev | ⟨rfl, rfl, rfl⟩
      · obtain ⟨v, hv, hconsistent⟩ := h.consistent t' k s hev
        by_cases ht : t' = t
        · subst ht
          rw [hw, Option.some.injEq] at hv
          subst hv
          exact ⟨_, World.setWorkspace_self W _ _, hconsistent⟩
        · exact ⟨v, (World.setWorkspace_of_ne ht _).trans hv, hconsistent⟩
      · exact ⟨_, World.setWorkspace_self W _ _, hcons, preparation, hvalidates⟩
    · intro t' k s hev
      rcases (hissued _ _ _).mp hev with hev | ⟨rfl, rfl, rfl⟩
      · exact Nat.lt_succ_of_lt (h.fresh t' k s hev)
      · exact Nat.lt_succ_self _
    · intro t' k s t'' s' hev hev'
      rcases (hissued _ _ _).mp hev with hold | ⟨rfl, rfl, rfl⟩
      · rcases (hissued _ _ _).mp hev' with hold' | ⟨-, rfl, -⟩
        · exact h.origin t' k s t'' s' hold hold'
        · exact absurd hold (hnew _ _)
      · rcases (hissued _ _ _).mp hev' with hold' | ⟨ht, -, hs⟩
        · exact absurd hold' (hnew _ _)
        · exact ⟨ht, hs⟩
    · intro t' v c id t'' s hv hc hid
      rcases hstored t' v c hv hc with ⟨rfl, rfl⟩ | ⟨v₀, hv₀, hc₀⟩
      · exact hnew _ _ (h.taken id t'' _ s hid)
      · exact h.stored_not_taken t' v₀ c id t'' s hv₀ hc₀ hid
    · intro t' v c t'' s hv hc hev
      rcases hstored t' v c hv hc with ⟨rfl, rfl⟩ | ⟨v₀, hv₀, hc₀⟩
      · exact hnew _ _ (h.published t'' _ s ((hpublished _ _ _).mp hev))
      · exact h.stored_not_published t' v₀ c t'' s hv₀ hc₀ ((hpublished _ _ _).mp hev)
    · exact h.taken_once
    · intro id t' t'' k s s' hid hev
      exact h.taken_not_published id t' t'' k s s' hid ((hpublished _ _ _).mp hev)
    · show ((W.history ++ [Event.issued t W.nextCapability state]).filterMap
        Event.publishedKey).Nodup
      rw [List.filterMap_append, show [Event.issued t W.nextCapability state].filterMap
        Event.publishedKey = [] from rfl, List.append_nil]
      exact h.published_once

omit [UnicodeData] in
/-- A new workspace stores nothing. -/
theorem Exclusive.create {W : World} (h : Exclusive W) {limits : WorkspaceLimits}
    {w : MemoryWorkspace} (hnew : MemoryWorkspace.new limits W.nextWorkspace = .ok w) :
    Exclusive { W.setWorkspace W.nextWorkspace w with nextWorkspace := W.nextWorkspace + 1 } := by
  simp only [MemoryWorkspace.new, Except.bind_eq_ok_iff, Except.ok.injEq] at hnew
  obtain ⟨state, hstate, rfl⟩ := hnew
  obtain ⟨-, -, hcons⟩ := (MemoryWorkspace.stateForRoot_eq_ok .empty).mp hstate
  have hbefore : ∀ t v c, (W.setWorkspace W.nextWorkspace
      ⟨limits, state, W.nextWorkspace, [], 0⟩).workspaces t = some v →
        c ∈ v.restoreCandidates → W.workspaces t = some v := by
    intro t v c hv hc
    rcases World.setWorkspace_eq hv with ⟨-, rfl⟩ | ⟨-, hv⟩
    · cases hc
    · exact hv
  refine { h with
    token := ?_
    sound := ?_
    stored := ?_
    consistent := ?_
    stored_not_taken := ?_
    stored_not_published := ?_ }
  · intro t v hv
    rcases World.setWorkspace_eq hv with ⟨rfl, rfl⟩ | ⟨-, hv⟩
    · exact ⟨rfl, Nat.lt_succ_self _⟩
    · obtain ⟨htoken, hlt⟩ := h.token t v hv
      exact ⟨htoken, Nat.lt_succ_of_lt hlt⟩
  · intro t v hv
    rcases World.setWorkspace_eq hv with ⟨rfl, rfl⟩ | ⟨-, hv⟩
    · exact ⟨⟨hcons, by simp⟩, Dict.uniqueKeys_nil⟩
    · exact h.sound t v hv
  · intro t v c hv hc
    exact h.stored t v c (hbefore t v c hv hc) hc
  · intro t k s hev
    obtain ⟨v, hv, hconsistent⟩ := h.consistent t k s hev
    have hne : t ≠ W.nextWorkspace := Nat.ne_of_lt (h.token t v hv).2
    exact ⟨v, (World.setWorkspace_of_ne hne _).trans hv, hconsistent⟩
  · intro t v c id t' s hv hc
    exact h.stored_not_taken t v c id t' s (hbefore t v c hv hc) hc
  · intro t v c t' s hv hc
    exact h.stored_not_published t v c t' s (hbefore t v c hv hc) hc

/-- Every step keeps the invariant. -/
theorem Exclusive.after {W : World} (h : Exclusive W) (action : Action) :
    Exclusive (W.after action) := by
  cases action with
  | create limits =>
    show Exclusive (match MemoryWorkspace.new limits W.nextWorkspace with
      | .ok w => { W.setWorkspace W.nextWorkspace w with nextWorkspace := W.nextWorkspace + 1 }
      | .error _ => W)
    cases hnew : MemoryWorkspace.new limits W.nextWorkspace with
    | error e => exact h
    | ok w => exact h.create hnew
  | request t request =>
    show Exclusive (match W.workspaces t with
      | some w => W.setWorkspace t (request.call w).2
      | none => W)
    cases hw : W.workspaces t with
    | none => exact h
    | some w =>
      obtain ⟨hsound, -⟩ := h.sound t w hw
      rcases (request.outcome hsound.state).final with hsame | ⟨-, -, hframe, hcons⟩
      · simp only [hsame]
        exact h.shrink hw rfl rfl hsound (List.Sublist.refl _)
      · simp only
        rw [hframe]
        exact h.shrink hw rfl rfl ⟨hcons, hsound.candidates⟩ (List.Sublist.refl _)
  | prepare t preparation =>
    show Exclusive (match W.workspaces t with
      | some w => W.prepare t w preparation
      | none => W)
    cases hw : W.workspaces t with
    | none => exact h
    | some w => exact h.prepare hw preparation
  | begin t candidate =>
    show Exclusive (match W.workspaces t with
      | some w => W.begin t w candidate
      | none => W)
    cases hw : W.workspaces t with
    | none => exact h
    | some w =>
      simp only [World.begin]
      cases (MemoryWorkspace.commitRestoreCheck candidate w).1 with
      | error e => exact h
      | ok capability =>
        have hset := h.setCommit W.nextCommit (some ⟨t, capability, .checked⟩) (by simp)
        exact ⟨hset.token, hset.sound, hset.stored, hset.taken, hset.published, hset.consistent,
          hset.fresh, hset.origin, hset.stored_not_taken, hset.stored_not_published,
          hset.taken_once, hset.taken_not_published, hset.published_once⟩
  | take id =>
    rcases hid : W.commits id with _ | ⟨t, capability, _ | _⟩
    · simpa only [World.after, hid] using h
    · simp only [World.after, hid]
      cases hw : W.workspaces t with
      | none => exact h
      | some w =>
        obtain ⟨hsound, -⟩ := h.sound t w hw
        simp only [World.take]
        rcases htake : MemoryWorkspace.commitRestoreTake capability w with ⟨e | state, w'⟩
        · obtain ⟨⟨kept, hkept, hw'⟩, -⟩ := MemoryWorkspace.commitRestoreTake_spec hsound capability
          rw [htake] at hw'
          simp only at hw' ⊢
          subst hw'
          have hsmall : Exclusive (W.setWorkspace t { w with restoreCandidates := kept }) :=
            h.shrink hw rfl rfl
              ⟨hsound.state, fun c hc => hsound.candidates c (hkept.subset hc)⟩ hkept
          exact hsmall.setCommit id none (by simp)
        · obtain ⟨k, payload, rfl, hmem, rfl, rfl⟩ := commitRestoreTake_eq_ok hsound htake
          exact h.take hw hmem id
    · simpa only [World.after, hid] using h
  | publish id =>
    rcases hid : W.commits id with _ | ⟨t, k | _ | _, _ | state⟩
    case publish.some.issued.taken =>
      simp only [World.after, hid]
      cases hw : W.workspaces t with
      | none => exact h
      | some w => exact h.publish hid hw
    all_goals simpa only [World.after, hid] using h
  | cancel id => exact h.setCommit id none (by simp)
  | collect t key =>
    show Exclusive (match W.workspaces t with
      | some w =>
        W.setWorkspace t { w with restoreCandidates := Dict.erase key w.restoreCandidates }
      | none => W)
    cases hw : W.workspaces t with
    | none => exact h
    | some w =>
      obtain ⟨hsound, -⟩ := h.sound t w hw
      have hsub := Dict.erase_sublist key w.restoreCandidates
      exact h.shrink hw rfl rfl
        ⟨hsound.state, fun c hc => hsound.candidates c (hsub.subset hc)⟩ hsub

/-! ## Section 5: Every run -/

theorem reachable_exclusive {W : World} (h : system.Reachable W) : Exclusive W := by
  refine h.invariant (I := Exclusive) ?_ ?_
  · intro W hW
    rw [show W = .empty from hW]
    exact exclusive_empty
  · intro W action W' _ hW hstep
    rw [show W' = W.after action from hstep]
    exact hW.after action

/-- The state of a workspace changes by a request to it, or when a commit that
    has taken the new state from it publishes. -/
def LiveChange (W : World) (action : Action) (t : Nat) (state state' : WorkspaceState) : Prop :=
  state' = state ∨ (∃ request, action = .request t request) ∨
    ∃ id k, action = .publish id ∧ W.commits id = some ⟨t, .issued k, .taken state'⟩ ∧
      (W.after action).history = W.history ++ [Event.published t k state']

omit [Sha256] [UnicodeData] [JsonRuntime] [TarReader] [GzipReader] in
/-- Another object with the same state leaves every live state alone. -/
theorem live_setWorkspace {W : World} {t : Nat} {w : MemoryWorkspace} (w' : MemoryWorkspace)
    (hw : W.workspaces t = some w) (hstate : w'.state = w.state) {t' : Nat} {v : MemoryWorkspace}
    (hv : W.workspaces t' = some v) :
    ∃ v', (W.setWorkspace t w').workspaces t' = some v' ∧ v'.state = v.state := by
  by_cases ht : t' = t
  · subst ht
    rw [hw, Option.some.injEq] at hv
    subst hv
    exact ⟨w', World.setWorkspace_self W _ _, hstate⟩
  · exact ⟨v, (World.setWorkspace_of_ne ht _).trans hv, rfl⟩

theorem live_after {W : World} (h : Exclusive W) (action : Action) {t : Nat} {w : MemoryWorkspace}
    (hw : W.workspaces t = some w) :
    ∃ w', (W.after action).workspaces t = some w' ∧ LiveChange W action t w.state w'.state := by
  have hsame : ∀ W' : World, (∃ w', W'.workspaces t = some w' ∧ w'.state = w.state) →
      ∃ w', W'.workspaces t = some w' ∧ LiveChange W action t w.state w'.state := by
    intro W' hW'
    obtain ⟨w', hw', hstate⟩ := hW'
    exact ⟨w', hw', .inl hstate⟩
  have hself : ∃ w', W.workspaces t = some w' ∧ w'.state = w.state := ⟨w, hw, rfl⟩
  cases action with
  | create limits =>
    simp only [World.after]
    cases MemoryWorkspace.new limits W.nextWorkspace with
    | error e => exact hsame _ hself
    | ok v =>
      refine hsame _ ⟨w, ?_, rfl⟩
      exact (World.setWorkspace_of_ne (Nat.ne_of_lt (h.token t w hw).2) v).trans hw
  | request t' request =>
    simp only [World.after]
    cases hv : W.workspaces t' with
    | none => exact hsame _ hself
    | some v =>
      by_cases ht : t = t'
      · subst ht
        exact ⟨_, World.setWorkspace_self W _ _, .inr (.inl ⟨request, rfl⟩)⟩
      · exact hsame _ ⟨w, (World.setWorkspace_of_ne ht _).trans hw, rfl⟩
  | prepare t' preparation =>
    simp only [World.after]
    cases hv : W.workspaces t' with
    | none => exact hsame _ hself
    | some v =>
      rcases prepare_cases W t' v preparation with heq | ⟨state, -, -, heq⟩
      · simp only [heq]
        exact hsame _ (live_setWorkspace { v with nextCapability := W.nextCapability } hv rfl hw)
      · simp only [heq]
        obtain ⟨w', hw', hstate⟩ := live_setWorkspace { v with
          restoreCandidates := Dict.set W.nextCapability ⟨state, state.stats⟩ v.restoreCandidates
          nextCapability := W.nextCapability + 1 } hv rfl hw
        exact hsame _ ⟨w', hw', hstate⟩
  | begin t' candidate =>
    simp only [World.after]
    cases W.workspaces t' with
    | none => exact hsame _ hself
    | some v =>
      simp only [World.begin]
      cases (MemoryWorkspace.commitRestoreCheck candidate v).1 with
      | error e => exact hsame _ hself
      | ok capability => exact hsame _ hself
  | take id =>
    rcases hid : W.commits id with _ | ⟨t', capability, _ | _⟩
    · simpa only [World.after, hid] using hsame W hself
    · simp only [World.after, hid]
      cases hv : W.workspaces t' with
      | none => exact hsame _ hself
      | some v =>
        obtain ⟨hsound, -⟩ := h.sound t' v hv
        obtain ⟨⟨kept, -, hv'⟩, -⟩ := MemoryWorkspace.commitRestoreTake_spec hsound capability
        simp only [World.take]
        rcases htake : MemoryWorkspace.commitRestoreTake capability v with ⟨e | state, v'⟩
        · rw [htake] at hv'
          exact hsame _ (live_setWorkspace _ hv (by rw [show v' = _ from hv']) hw)
        · rw [htake] at hv'
          exact hsame _ (live_setWorkspace _ hv (by rw [show v' = _ from hv']) hw)
    · simpa only [World.after, hid] using hsame W hself
  | publish id =>
    rcases hid : W.commits id with _ | ⟨t', k | _ | _, _ | state⟩
    case publish.some.issued.taken =>
      cases hv : W.workspaces t' with
      | none =>
        simp only [World.after, hid, hv]
        exact hsame _ hself
      | some v =>
        have hafter : W.after (.publish id) = W.publish id t' k state v := by
          simp only [World.after, hid, hv]
        rw [hafter]
        by_cases ht : t = t'
        · subst ht
          refine ⟨{ v with state }, World.setWorkspace_self W _ _, .inr (.inr ⟨id, k, rfl, hid, ?_⟩)⟩
          rw [hafter]
          rfl
        · exact hsame _ ⟨w, (World.setWorkspace_of_ne ht _).trans hw, rfl⟩
    all_goals simpa only [World.after, hid] using hsame W hself
  | cancel id => exact hsame _ hself
  | collect t' key =>
    simp only [World.after]
    cases hv : W.workspaces t' with
    | none => exact hsame _ hself
    | some v =>
      exact hsame _ (live_setWorkspace
        { v with restoreCandidates := Dict.erase key v.restoreCandidates } hv rfl hw)

end RestoreRaces

/-! ## Section 6: A run -/

namespace RestoreRaces.OneWorkspace

open NewWorkspace

/-- Readers for a world in which no archive is offered. -/
scoped instance tar : TarReader where
  read _ := ([], .ok 0)

scoped instance gzip : GzipReader where
  read _ _ := .ok []

/-- The world with one new workspace. -/
def world : World := World.empty.after (.create .default)

end RestoreRaces.OneWorkspace
