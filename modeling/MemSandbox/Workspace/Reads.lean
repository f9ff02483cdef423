import MemSandbox.Workspace.Mutations

/-! # What the reads return

    `stat`, `list` and `read_bytes` of a consistent workspace answer from the
    map it denotes, and change nothing. -/

open Python FileMap Node

namespace MemoryWorkspace

variable [Sha256]

/-- The metadata record of an entry of the map. -/
structure Describes (revision : Revision) (record : WorkspaceEntry) (e : Entry Bytes) : Prop where
  kind : record.kind = match e with
    | .directory => .directory
    | .file _ => .file
  sizeBytes : record.sizeBytes = match e with
    | .directory => 0
    | .file content => content.length
  contentHash : ∀ content, e = .file content → record.contentHash = .fromBytes content
  revision : record.revision = revision

theorem entryOf_spec {limits : WorkspaceLimits} {state : WorkspaceState}
    (h : Consistent limits state) {node : Node} {p : List Text}
    (hnode : (FileTree.directory state.root).at? p = some node) (path : SandboxPath)
    (revision : Revision) :
    ∃ record, entryOf path node revision = .ok record ∧ record.path = path ∧
      Describes revision record node.entry := by
  obtain ⟨hash, hhash, htree⟩ := h.nodeHash hnode
  refine ⟨_, Except.bind_eq_ok_iff.mpr ⟨hash, hhash, rfl⟩, rfl, ?_⟩
  cases node with
  | file c =>
    rw [treeHash_file, Option.some.injEq] at htree
    refine ⟨rfl, rfl, ?_, rfl⟩
    rintro content heq
    cases heq
    exact htree.symm
  | directory cs => exact ⟨rfl, rfl, by simp, rfl⟩

theorem stat_spec {w : MemoryWorkspace} (hw : Consistent w.limits w.state) {path : SandboxPath}
    {e : Entry Bytes} (hvalue : path.value ≠ []) (h : w.view path.parts = some e) :
    ∃ record, stat path w = (.ok record, w) ∧ record.path = path ∧
      Describes w.state.stats.revision record e := by
  have hallows := hw.allows path.parts (by rw [← view, h]; simp)
  obtain ⟨node, hnode, rfl⟩ := Option.map_eq_some_iff.mp h
  obtain ⟨record, hrecord, hpath, hdescribes⟩ := entryOf_spec hw hnode path w.state.stats.revision
  refine ⟨record, ?_, hpath, hdescribes⟩
  unfold stat
  rw [Call.bind_of_ok (Call.get_apply w), Call.lift_bind_apply,
    (validatePath_eq_ok (u := ())).mpr ⟨hvalue, hallows⟩]
  simp only
  rw [Call.lift_bind_apply, getNode_eq_ok_iff.mpr hnode]
  simp [hrecord]

theorem readBytes_spec {w : MemoryWorkspace} (hw : Consistent w.limits w.state)
    {path : SandboxPath} {content : Bytes} (hvalue : path.value ≠ [])
    (h : w.view path.parts = some (.file content)) :
    readBytes path w =
      (.ok ⟨path, content, .fromBytes content, w.state.stats.revision⟩, w) := by
  have hallows := hw.allows path.parts (by rw [← view, h]; simp)
  have hnode := FileTree.view_eq_file_iff.mp h
  unfold readBytes
  rw [Call.bind_of_ok (Call.get_apply w), Call.lift_bind_apply,
    (validatePath_eq_ok (u := ())).mpr ⟨hvalue, hallows⟩]
  simp only
  rw [Call.lift_bind_apply, getNode_eq_ok_iff.mpr hnode]
  rfl

/-- The entries of a directory, child by child in the order given. -/
theorem listEntries_spec {limits : WorkspaceLimits} {state : WorkspaceState}
    (h : Consistent limits state) {path : SandboxPath} (hvalue : path.value ≠ [])
    (revision : Revision) {children : DirectoryNode}
    (hchildren : ∀ c ∈ children, (FileTree.directory state.root).at? (path.parts ++ [c.1]) = some c.2) :
    ∃ records, listEntries limits path revision children = .ok records ∧
      List.Forall₂ (fun c record => record.path.value ≠ [] ∧
        record.path.parts = path.parts ++ [c.1] ∧ Describes revision record c.2.entry)
        children records := by
  induction children with
  | nil => exact ⟨[], rfl, .nil⟩
  | cons c children ih =>
    obtain ⟨hc, hchildren⟩ := List.forall_mem_cons.mp hchildren
    have hview : (FileTree.directory state.root).view (path.parts ++ [c.1]) ≠ none := by
      rw [FileTree.view, hc]
      simp
    have hvalid := h.wellFormed.path hview c.1 (by simp)
    obtain ⟨childPath, hjoin⟩ := join_of_allows hvalue hvalid (h.allows _ hview)
    obtain ⟨-, -, -, hchildValue, hchildParts⟩ := join_loose (.inr hvalid) hjoin
    obtain ⟨record, hrecord, hpath, hdescribes⟩ := entryOf_spec h hc childPath revision
    obtain ⟨records, hrecords, hforall⟩ := ih hchildren
    refine ⟨record :: records, ?_, .cons ⟨?_, ?_, hdescribes⟩ hforall⟩
    · simp only [listEntries, hjoin, hrecord, hrecords, bind, Except.bind]
    · rw [hpath]
      exact hchildValue
    · rw [hpath]
      exact hchildParts

/-- `list` returns a record of every child, ordered by name. -/
theorem list_spec {w : MemoryWorkspace} (hw : Consistent w.limits w.state) {path : SandboxPath}
    (hvalue : path.value ≠ []) (h : w.view path.parts = some .directory) :
    ∃ children : List (Text × Entry Bytes), ∃ records,
      list path w = (.ok records, w) ∧
      (children.Pairwise fun a b => a.1 < b.1) ∧
      (∀ s e, (s, e) ∈ children ↔ w.view (path.parts ++ [s]) = some e) ∧
      List.Forall₂ (fun c record => record.path.value ≠ [] ∧
        record.path.parts = path.parts ++ [c.1] ∧
        Describes w.state.stats.revision record c.2) children records := by
  have hallows := hw.allows path.parts (by rw [← view, h]; simp)
  obtain ⟨cs, hcs⟩ := FileTree.view_eq_directory_iff.mp h
  have hunique := (hw.wellFormed.at? hcs).unique
  have hat : ∀ c ∈ sorted Prod.fst cs,
      (FileTree.directory w.state.root).at? (path.parts ++ [c.1]) = some c.2 := by
    intro c hc
    rw [FileTree.at?_append, hcs, Option.bind_some, FileTree.at?_directory_cons,
      Dict.get?_of_mem hunique (mem_sorted.mp hc)]
    simp
  obtain ⟨records, hrecords, hforall⟩ := listEntries_spec hw hvalue w.state.stats.revision hat
  refine ⟨(sorted Prod.fst cs).map fun c => (c.1, c.2.entry), records, ?_, ?_, ?_, ?_⟩
  · unfold list
    rw [Call.bind_of_ok (Call.get_apply w), Call.lift_bind_apply,
      (validatePath_eq_ok (u := ())).mpr ⟨hvalue, hallows⟩]
    simp only
    rw [Call.lift_bind_apply, getNode_eq_ok_iff.mpr hcs]
    simp [hrecords]
  · rw [List.pairwise_map]
    exact sorted_pairwise_lt hunique
  · intro s e
    rw [view, FileTree.view_append hcs, FileTree.view_directory_cons]
    simp only [List.mem_map, mem_sorted, Prod.mk.injEq, Option.bind_eq_some_iff,
      FileTree.view_nil, Option.some.injEq]
    constructor
    · rintro ⟨c, hc, rfl, rfl⟩
      exact ⟨c.2, Dict.get?_of_mem hunique hc, rfl⟩
    · rintro ⟨node, hnode, rfl⟩
      exact ⟨(s, node), Dict.mem_of_get? hnode, rfl, rfl⟩
  · rw [List.forall₂_map_left_iff]
    exact hforall

/-- The reads of a workspace answer from its map and leave it alone. -/
structure ReadsAgree (w : MemoryWorkspace) : Prop where
  stat : ∀ path e, path.value ≠ [] → w.view path.parts = some e →
    ∃ record, MemoryWorkspace.stat path w = (.ok record, w) ∧ record.path = path ∧
      Describes w.state.stats.revision record e
  readBytes : ∀ path content, path.value ≠ [] → w.view path.parts = some (.file content) →
    MemoryWorkspace.readBytes path w =
      (.ok ⟨path, content, .fromBytes content, w.state.stats.revision⟩, w)
  list : ∀ path, path.value ≠ [] → w.view path.parts = some .directory →
    ∃ children : List (Text × Entry Bytes), ∃ records,
      MemoryWorkspace.list path w = (.ok records, w) ∧
      (children.Pairwise fun a b => a.1 < b.1) ∧
      (∀ s e, (s, e) ∈ children ↔ w.view (path.parts ++ [s]) = some e) ∧
      List.Forall₂ (fun c record => record.path.value ≠ [] ∧
        record.path.parts = path.parts ++ [c.1] ∧
        Describes w.state.stats.revision record c.2) children records
  absent : ∀ path, w.view path.parts = none →
    (∀ r, (MemoryWorkspace.stat path w).1 ≠ .ok r) ∧
      (∀ r, (MemoryWorkspace.readBytes path w).1 ≠ .ok r) ∧
      ∀ r, (MemoryWorkspace.list path w).1 ≠ .ok r

omit [Sha256] in
/-- The first component of a call that reads, validates and looks a node up. -/
theorem lookup_absent {α : Type} {w : MemoryWorkspace} {path : SandboxPath}
    (h : w.view path.parts = none) {f : Node → Method α} {r : α} :
    (((liftM (validatePath w.limits path) : Method Unit) >>=
      fun _ => (liftM (getNode w.state.root path) : Method Node) >>= f) w).1 ≠ .ok r := by
  have hnone : ∀ node, getNode w.state.root path ≠ .ok node := by
    intro node hnode
    rw [getNode_eq_ok_iff] at hnode
    rw [view, FileTree.view_eq_none_iff, hnode] at h
    cases h
  rw [Call.lift_bind_apply]
  cases validatePath w.limits path with
  | error e => simp
  | ok u =>
    simp only
    rw [Call.lift_bind_apply]
    cases hnode : getNode w.state.root path with
    | error e => simp
    | ok node => exact absurd hnode (hnone node)

theorem readsAgree {w : MemoryWorkspace} (hw : Consistent w.limits w.state) : ReadsAgree w where
  stat _ _ := stat_spec hw
  readBytes _ _ := readBytes_spec hw
  list _ := list_spec hw
  absent _ h := ⟨fun _ => lookup_absent h, fun _ => lookup_absent h, fun _ => lookup_absent h⟩

end MemoryWorkspace
