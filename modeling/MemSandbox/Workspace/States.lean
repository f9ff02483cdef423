import MemSandbox.Workspace.Memory
import MemSandbox.Lib.System

/-! # Consistent states

    `Consistent` is the invariant of a committed state: the statistics agree
    with the tree, and the tree respects the limits.  `_state_for_root` builds
    exactly the consistent states (`stateForRoot_eq_ok`), so a commit of any
    well-formed tree keeps the invariant or raises. -/

open Python FileMap Node

namespace MemoryWorkspace

variable [Sha256]

/-! ## Section 1: The invariant -/

/-- The statistics agree with the tree, and the tree respects the limits. -/
structure Consistent (limits : WorkspaceLimits) (state : WorkspaceState) : Prop where
  wellFormed : (FileTree.directory state.root).WellFormed SandboxPath.ValidSegment
  totalBytes : state.stats.totalBytes = (FileTree.directory state.root).total List.length
  nodeCount : state.stats.nodeCount = (FileTree.directory state.root).count
  rootHash : treeHash (.directory state.root) = some state.stats.rootHash
  fileBytes_le : ∀ p c, (FileTree.directory state.root).view p = some (.file c) →
    c.length ≤ limits.maxFileBytes
  totalBytes_le : state.stats.totalBytes ≤ limits.maxTotalBytes
  nodeCount_le : state.stats.nodeCount ≤ limits.maxNodes
  allows : ∀ p, (FileTree.directory state.root).view p ≠ none → limits.Allows p

omit [Sha256] in
/-- At the root the measure asks for the limits on every path and every file. -/
theorem measured_root_iff {limits : WorkspaceLimits} {node : Node} :
    Measured limits .root node ↔
      (∀ p, node.view p ≠ none → (∀ s ∈ p, SandboxPath.ValidSegment s) ∧ limits.Allows p) ∧
        ∀ p c, node.view p = some (.file c) → c.length ≤ limits.maxFileBytes := by
  constructor
  · intro h
    refine ⟨?_, fun p c hp => (h p _ hp).2 c rfl⟩
    intro p hp
    obtain ⟨e, he⟩ := Option.ne_none_iff_exists'.mp hp
    cases p with
    | nil => exact ⟨by simp, limits.allows_root⟩
    | cons s p =>
      obtain ⟨-, hvalid, hallows⟩ := (h _ e he).1 (by simp)
      exact ⟨hvalid, by simpa using hallows⟩
  · rintro ⟨hpath, hfile⟩ p e hp
    obtain ⟨hvalid, hallows⟩ := hpath p (by simp [hp])
    refine ⟨fun _ => ⟨by simp [SandboxPath.ROOT, py], hvalid, by simpa using hallows⟩, ?_⟩
    rintro c rfl
    exact hfile p c hp

/-- `_state_for_root` returns the consistent state of a tree, if there is one. -/
theorem stateForRoot_eq_ok {limits : WorkspaceLimits} {root : DirectoryNode} {revision : Revision}
    (hroot : (FileTree.directory root).WellFormed LooseName) {state : WorkspaceState} :
    stateForRoot limits root revision = .ok state ↔
      state.root = root ∧ state.stats.revision = revision ∧ Consistent limits state := by
  simp only [stateForRoot, Except.bind_eq_ok_iff, require_eq_ok, Except.ok.injEq]
  constructor
  · rintro ⟨⟨totalBytes, nodeCount, rootHash⟩, hmeasure, _, htotal, _, hnodes, rfl⟩
    obtain ⟨hmeasured, hbytes, hcount, hhash⟩ := (measureNode_eq_ok hroot).mp hmeasure
    obtain ⟨hpath, hfile⟩ := measured_root_iff.mp hmeasured
    exact ⟨rfl, rfl, {
      wellFormed := hroot.of_paths fun p hp => (hpath p hp).1
      totalBytes := hbytes
      nodeCount := hcount
      rootHash := hhash
      fileBytes_le := hfile
      totalBytes_le := htotal
      nodeCount_le := hnodes
      allows := fun p hp => (hpath p hp).2 }⟩
  · rintro ⟨rfl, rfl, h⟩
    have hmeasured : Measured limits .root (.directory state.root) :=
      measured_root_iff.mpr ⟨fun p hp => ⟨h.wellFormed.path hp, h.allows p hp⟩, h.fileBytes_le⟩
    exact ⟨(_, _, _), (measureNode_eq_ok hroot).mpr ⟨hmeasured, h.totalBytes, h.nodeCount, h.rootHash⟩,
      (), h.totalBytes_le, (), h.nodeCount_le, rfl⟩

/-! ## Section 2: What a consistent state offers -/

/-- The map that a workspace denotes. -/
def view (w : MemoryWorkspace) : View Text Bytes := (FileTree.directory w.state.root).view

omit [Sha256] in
theorem looseName_of_valid {root : DirectoryNode}
    (h : (FileTree.directory root).WellFormed SandboxPath.ValidSegment) :
    (FileTree.directory root).WellFormed LooseName :=
  h.mono fun _ hs => .inr hs

theorem childHashes_some {cs : DirectoryNode} {hs : List ChildHash} (h : childHashes cs = some hs)
    {c : Text × Node} (hc : c ∈ cs) : ∃ hash, treeHash c.2 = some hash := by
  rw [← Option.ne_none_iff_exists']
  intro hnone
  rw [childHashes_eq_none hc hnone] at h
  cases h

/-- Every node of a tree that has a hash has one. -/
theorem treeHash_at? {t s : Node} {p : List Text} {hash : ContentHash} (ht : treeHash t = some hash)
    (h : t.at? p = some s) : ∃ hash, treeHash s = some hash := by
  induction p generalizing t hash with
  | nil =>
    rw [FileTree.at?_nil, Option.some.injEq] at h
    exact ⟨hash, h ▸ ht⟩
  | cons k p ih =>
    cases t with
    | file c => simp at h
    | directory cs =>
      rw [FileTree.at?_directory_cons, Option.bind_eq_some_iff] at h
      obtain ⟨child, hk, hp⟩ := h
      rw [treeHash_directory, Option.bind_eq_some_iff] at ht
      obtain ⟨hs, hhashes, -⟩ := ht
      obtain ⟨hash', hhash'⟩ := childHashes_some hhashes (Dict.mem_of_get? hk)
      exact ih hhash' hp

/-- `_node_hash` succeeds on every node of a consistent state. -/
theorem Consistent.nodeHash {limits : WorkspaceLimits} {state : WorkspaceState}
    (h : Consistent limits state) {node : Node} {p : List Text}
    (hnode : (FileTree.directory state.root).at? p = some node) :
    ∃ hash, Node.nodeHash node = .ok hash ∧ treeHash node = some hash := by
  obtain ⟨hash, hhash⟩ := treeHash_at? h.rootHash hnode
  have := nodeHash_spec (h.wellFormed.at? hnode)
  rw [hhash] at this
  cases hn : Node.nodeHash node with
  | ok hash' =>
    rw [hn] at this
    simp only [Except.toOption, Option.some.injEq] at this
    exact ⟨hash', rfl, this ▸ hhash⟩
  | error e =>
    rw [hn] at this
    cases this

/-- A consistent tree passes the node check of a copy. -/
theorem Consistent.cloneDirectory {limits : WorkspaceLimits} {state : WorkspaceState}
    (h : Consistent limits state) :
    Node.cloneDirectory state.root limits.maxNodes = .ok state.root :=
  cloneDirectory_eq_ok.mpr ⟨.inl (h.nodeCount ▸ h.nodeCount_le), rfl⟩

omit [Sha256] in
theorem validatePath_eq_ok {limits : WorkspaceLimits} {path : SandboxPath} {u : Unit} :
    validatePath limits path = .ok u ↔ path.value ≠ [] ∧ limits.Allows path.parts := by
  have hpos := limits.positive
  simp only [validatePath, Except.bind_eq_ok_iff, and_true, resolvePath]
  constructor
  · rintro ⟨q, hq⟩
    have hvalue : path.value ≠ [] := by
      intro hnil
      rw [hnil] at hq
      simp [SandboxPath.resolve, Except.bind_eq_ok_iff] at hq
    obtain ⟨hrender, hvalid⟩ := SandboxPath.value_eq_render hvalue
    rw [hrender, SandboxPath.resolve_render hvalid none (by omega) (by omega)] at hq
    exact ⟨hvalue, hq.1⟩
  · rintro ⟨hvalue, hallows⟩
    obtain ⟨hrender, hvalid⟩ := SandboxPath.value_eq_render hvalue
    refine ⟨path, ?_⟩
    rw [hrender, SandboxPath.resolve_render hvalid none (by omega) (by omega)]
    exact ⟨hallows, hrender⟩

/-! ## Section 3: The rule of a commit -/

theorem commit_apply (root : DirectoryNode) (w : MemoryWorkspace) :
    commit root w = match stateForRoot w.limits root (w.state.stats.revision + 1) with
      | .ok state => (.ok state, { w with state })
      | .error e => (.error e, w) := by
  unfold commit
  rw [Call.bind_of_ok (Call.get_apply w), Call.lift_bind_apply]
  cases stateForRoot w.limits root (w.state.stats.revision + 1) <;> rfl

/-- A commit of a well-formed tree raises without a change, or leaves the
    consistent state of that tree under the next revision. -/
theorem outcome_commit {α : Type} {root : DirectoryNode} {w : MemoryWorkspace}
    {f : WorkspaceState → Method α} {post : α → MemoryWorkspace → Prop}
    (hroot : (FileTree.directory root).WellFormed LooseName)
    (h : ∀ state, state.root = root → state.stats.revision = w.state.stats.revision + 1 →
      Consistent w.limits state → Call.Returns (f state) { w with state } post) :
    Call.Outcome (commit root >>= f) w post := by
  have happly := commit_apply root w
  cases hstate : stateForRoot w.limits root (w.state.stats.revision + 1) with
  | error e =>
    rw [hstate] at happly
    unfold Call.Outcome
    rw [Call.bind_of_error happly]
  | ok state =>
    rw [hstate] at happly
    obtain ⟨hr, hrev, hcons⟩ := (stateForRoot_eq_ok hroot).mp hstate
    exact (h state hr hrev hcons).bind_outcome happly

end MemoryWorkspace
