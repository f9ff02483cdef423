import MemSandbox.Workspace.Mutations

/-! # What a restore does

    `_prepare_restore_candidate` keeps the live workspace and stores a
    consistent state under a new key; `commit_restore` publishes the state a
    key stands for, once. -/

open Python FileMap Node

namespace MemoryWorkspace

variable [Sha256]

/-! ## Section 1: Preparing -/

omit [Sha256] in
/-- The parts of any path are loose names. -/
theorem looseName_parts (path : SandboxPath) : ∀ s ∈ path.parts, LooseName s := by
  intro s hs
  by_cases h : path.value = []
  · rw [SandboxPath.parts_empty h, List.mem_singleton] at hs
    exact .inl hs
  · exact .inr ((SandboxPath.value_eq_render h).2 s hs)

omit [Sha256] in
theorem rootFromEntries_wellFormed {entries : List WorkspaceSnapshotEntry}
    {root root' : DirectoryNode} (hroot : (FileTree.directory root).WellFormed LooseName)
    (h : rootFromEntries entries root = .ok root') :
    (FileTree.directory root').WellFormed LooseName := by
  induction entries generalizing root with
  | nil =>
    simp only [rootFromEntries, Except.ok.injEq] at h
    exact h ▸ hroot
  | cons entry entries ih =>
    simp only [rootFromEntries, Except.bind_eq_ok_iff] at h
    obtain ⟨_, _, h⟩ := h
    refine ih (assignChild_wellFormed entry.not_root (looseName_parts _) hroot ?_) h
    cases entry.entry with
    | directory => exact .empty
    | file c => exact .file c

/-- Preparing stores one consistent state, rebuilt from the entries, and
    touches nothing else. -/
theorem prepareRestoreCandidate_outcome (w : MemoryWorkspace)
    (entries : List WorkspaceSnapshotEntry) (stats : WorkspaceStats)
    (requiredDirectory : SandboxPath) :
    Call.Outcome (prepareRestoreCandidate entries stats requiredDirectory) w fun candidate w' =>
      ∃ state, Consistent w.limits state ∧ state.stats = stats ∧
        rootFromEntries entries [] = .ok state.root ∧
        candidate = .prepared w.restoreToken (.issued w.nextCapability) ∧
        w' = { w with
          restoreCandidates :=
            Dict.set w.nextCapability ⟨state, state.stats⟩ w.restoreCandidates
          nextCapability := w.nextCapability + 1 } := by
  unfold prepareRestoreCandidate
  rw [Call.outcome_get_bind]
  refine Call.outcome_lift_bind fun root hroot => ?_
  have hwell := rootFromEntries_wellFormed .empty hroot
  refine Call.outcome_lift_bind fun state hstate => ?_
  obtain ⟨hr, -, hcons⟩ := (stateForRoot_eq_ok hwell).mp hstate
  refine Call.outcome_lift_bind fun _ hstats => ?_
  have hstats := require_eq_ok.mp hstats
  refine Call.outcome_lift_bind fun node _ => ?_
  cases node with
  | file c => exact Call.outcome_throw
  | directory cs =>
    refine Call.Returns.outcome ?_
    exact ⟨state, hcons, hstats, by rw [hroot, hr], rfl, rfl⟩

/-! ## Section 2: Committing -/

/-- The rebuilt state of a consistent payload is the payload's. -/
theorem detachedState_eq_ok {limits : WorkspaceLimits} {prepared : PreparedRestorePayload}
    (h : Consistent limits prepared.state) {state : WorkspaceState} :
    detachedState limits prepared = .ok state ↔
      prepared.state.stats = prepared.expectedStats ∧ state = prepared.state := by
  simp only [detachedState, Except.bind_eq_ok_iff, require_eq_ok, rewrap_eq_ok, Except.ok.injEq]
  constructor
  · rintro ⟨_, hstats, detached, ⟨root, hroot, hdetached⟩, _, hexpected, rfl⟩
    rw [h.cloneDirectory, Except.ok.injEq] at hroot
    subst hroot
    obtain ⟨hr, -, -⟩ := (stateForRoot_eq_ok (looseName_of_valid h.wellFormed)).mp hdetached
    refine ⟨hstats, ?_⟩
    rw [← hstats] at hexpected
    cases detached
    cases hprepared : prepared.state
    simp_all
  · rintro ⟨hstats, rfl⟩
    refine ⟨(), hstats, prepared.state, ⟨_, h.cloneDirectory, ?_⟩, (), hstats, rfl⟩
    exact (stateForRoot_eq_ok (looseName_of_valid h.wellFormed)).mpr
      ⟨rfl, by rw [hstats], h⟩

/-- The invariant of a workspace object: its state is consistent, and so are
    the states it keeps for its candidates. -/
structure Sound (w : MemoryWorkspace) : Prop where
  state : Consistent w.limits w.state
  candidates : ∀ c ∈ w.restoreCandidates, Consistent w.limits c.2.state

/-- `commit_restore` between its suspensions forgets at most one candidate, and
    the state it returns is that candidate's. -/
theorem commitRestoreTake_spec {w : MemoryWorkspace} (hw : Sound w) (capability : Capability) :
    (∃ kept, kept.Sublist w.restoreCandidates ∧
        (commitRestoreTake capability w).2 = { w with restoreCandidates := kept }) ∧
      ∀ state, (commitRestoreTake capability w).1 = .ok state → Consistent w.limits state := by
  unfold commitRestoreTake
  rw [Call.bind_of_ok (Call.get_apply w)]
  have hself : ∃ kept, kept.Sublist w.restoreCandidates ∧
      w = { w with restoreCandidates := kept } := ⟨_, List.Sublist.refl _, rfl⟩
  cases capability with
  | none => exact ⟨hself, by rintro _ ⟨⟩⟩
  | unhashable => exact ⟨hself, by rintro _ ⟨⟩⟩
  | issued key =>
    simp only
    cases hget : Dict.get? key w.restoreCandidates with
    | none => exact ⟨hself, by rintro _ ⟨⟩⟩
    | some prepared =>
      have hcons := hw.candidates _ (Dict.mem_of_get? hget)
      refine ⟨⟨_, Dict.erase_sublist _ _, rfl⟩, ?_⟩
      intro state hstate
      obtain ⟨-, rfl⟩ := (detachedState_eq_ok hcons).mp hstate
      exact hcons

/-- Whatever `commit_restore` does, the workspace stays sound. -/
theorem commitRestore_sound {w : MemoryWorkspace} (hw : Sound w) (candidate : RestoreCandidate) :
    Sound (commitRestore candidate w).2 ∧ (commitRestore candidate w).2.limits = w.limits := by
  have hcheck : (commitRestoreCheck candidate w).2 = w := by
    cases candidate with
    | other => rfl
    | prepared token capability =>
      unfold commitRestoreCheck
      rw [Call.bind_of_ok (Call.get_apply w)]
      by_cases h : token = w.restoreToken <;> simp [h]
  unfold commitRestore
  rw [Call.bind_apply]
  rcases hres : commitRestoreCheck candidate w with ⟨e | capability, w₁⟩
  · rw [hres] at hcheck
    exact ⟨hcheck ▸ hw, by rw [show w₁ = w from hcheck]⟩
  · rw [hres] at hcheck
    obtain rfl : w₁ = w := hcheck
    obtain ⟨⟨kept, hkept, hw₂⟩, hstate⟩ := commitRestoreTake_spec hw capability
    simp only [Call.bind_apply]
    rcases htake : commitRestoreTake capability w₁ with ⟨e | state, w₂⟩
    · rw [htake] at hw₂
      simp only at hw₂
      subst hw₂
      exact ⟨⟨hw.state, fun c hc => hw.candidates c (hkept.subset hc)⟩, rfl⟩
    · rw [htake] at hw₂ hstate
      simp only at hw₂
      subst hw₂
      exact ⟨⟨hstate state rfl, fun c hc => hw.candidates c (hkept.subset hc)⟩, rfl⟩

end MemoryWorkspace
