import MemSandbox.Workspace.RootHash
import MemSandbox.Workspace.Restores

/-! # Flattening and building

    The entries of a consistent tree are its nodes other than the root
    (`snapshotEntries_spec`); sorted by path, either builder makes of them a
    tree with the same map (`build_sorted`). -/

open Python FileMap Node

/-- An entry as a path with what lies there. -/
def WorkspaceSnapshotEntry.item (entry : WorkspaceSnapshotEntry) : List Text × Entry Bytes :=
  (entry.path.parts, entry.entry)

theorem WorkspaceSnapshotEntry.node_view (entry : WorkspaceSnapshotEntry) :
    entry.node.view = View.single entry.entry := by
  unfold WorkspaceSnapshotEntry.node
  cases entry.entry with
  | directory => exact FileTree.view_directory_nil
  | file c => exact FileTree.view_file c

theorem WorkspaceSnapshotEntry.node_wellFormed {P : Text → Prop}
    (entry : WorkspaceSnapshotEntry) : entry.node.WellFormed P := by
  unfold WorkspaceSnapshotEntry.node
  cases entry.entry with
  | directory => exact .empty
  | file c => exact .file c

theorem WorkspaceSnapshotEntry.ext_value {a b : WorkspaceSnapshotEntry}
    (hpath : a.path.value = b.path.value) (hentry : a.entry = b.entry) : a = b := by
  obtain ⟨path, entry, hroot⟩ := a
  obtain ⟨path', entry', hroot'⟩ := b
  obtain rfl : path = path' := SandboxPath.ext_value hpath
  obtain rfl : entry = entry' := hentry
  rfl

/-- An entry does not lie at the root. -/
theorem WorkspaceSnapshotEntry.parts_ne_nil (entry : WorkspaceSnapshotEntry)
    (h : entry.path.value ≠ []) : entry.path.parts ≠ [] := by
  rw [ne_eq, ← SandboxPath.isRoot_iff h, entry.not_root]
  simp

/-! ## Section 1: Building -/

theorem parentChildren_eq_some {root inner : DirectoryNode} {p : List Text} :
    parentChildren root p = some inner ↔
      (FileTree.directory root).at? p = some (.directory inner) := by
  induction p generalizing root with
  | nil => simp [parentChildren]
  | cons segment p ih =>
    rw [parentChildren, FileTree.at?_directory_cons]
    cases hget : Dict.get? segment root with
    | none => simp
    | some child =>
      cases child with
      | file c => cases p <;> simp
      | directory cs => simpa using ih

/-- Entries that can be built are built, by both builders into the same tree. -/
theorem build_spec {entries : List WorkspaceSnapshotEntry} {root : DirectoryNode} (total : Nat)
    (hvalue : ∀ entry ∈ entries, entry.path.value ≠ [])
    (hwell : (FileTree.directory root).WellFormed SandboxPath.ValidSegment)
    (hbuild : View.Buildable (entries.map WorkspaceSnapshotEntry.item)
      (FileTree.directory root).view) :
    ∃ root', MemoryWorkspace.rootFromEntries entries root = .ok root' ∧
      addEntries entries root total =
        .ok (root', total + (entries.map WorkspaceSnapshotEntry.size).sum) ∧
      (FileTree.directory root').view =
        View.assignAll (entries.map WorkspaceSnapshotEntry.item) (FileTree.directory root).view ∧
      (FileTree.directory root').WellFormed SandboxPath.ValidSegment := by
  induction entries generalizing root total with
  | nil => exact ⟨root, rfl, by simp [addEntries], rfl, hwell⟩
  | cons entry entries ih =>
    obtain ⟨hparent, hnew, hrest⟩ := hbuild
    obtain ⟨inner, hinner⟩ := FileTree.view_eq_directory_iff.mp hparent
    have hvalid := (SandboxPath.value_eq_render (hvalue entry List.mem_cons_self)).2
    have hconcat := SandboxPath.parts_eq_concat entry.not_root
    have hfresh : Dict.get? entry.path.name inner = none := by
      have hbelow : (FileTree.directory root).view entry.path.parts =
          (FileTree.directory inner).view [entry.path.name] := by
        rw [hconcat]
        exact FileTree.view_append hinner [entry.path.name]
      have hnone : (FileTree.directory root).view entry.path.parts = none := hnew
      rw [hnone, FileTree.view_directory_cons] at hbelow
      cases hget : Dict.get? entry.path.name inner with
      | none => rfl
      | some child => simp [hget] at hbelow
    have hassigned : (FileTree.directory (assignChild entry.path entry.node root)).WellFormed
        SandboxPath.ValidSegment :=
      MemoryWorkspace.assignChild_wellFormed entry.not_root hvalid hwell entry.node_wellFormed
    have hview : (FileTree.directory (assignChild entry.path entry.node root)).view =
        View.assign entry.path.parts entry.entry (FileTree.directory root).view := by
      rw [MemoryWorkspace.assignChild_view entry.not_root hinner, entry.node_view]
      apply View.graft_single
      intro q hq _
      exact (FileTree.toFileMap root hwell).below_absent hnew hq
    have hrest' : View.Buildable (entries.map WorkspaceSnapshotEntry.item)
        (FileTree.directory (assignChild entry.path entry.node root)).view := by
      rw [hview]
      exact hrest
    obtain ⟨root', hroot, hadd, hfinal, hwell'⟩ :=
      ih (total + entry.size) (fun e he => hvalue e (List.mem_cons_of_mem _ he))
        hassigned hrest'
    refine ⟨root', ?_, ?_, ?_, hwell'⟩
    · simp only [MemoryWorkspace.rootFromEntries, Except.bind_eq_ok_iff]
      exact ⟨inner, (getParent_eq_ok_iff entry.not_root).mpr hinner, hroot⟩
    · have hwalk : parentChildren root entry.path.parts.dropLast = some inner :=
        parentChildren_eq_some.mpr hinner
      simp only [addEntries, hwalk, Except.bind_eq_ok_iff, require_eq_ok]
      refine ⟨(), hfresh, ?_⟩
      rw [hadd, List.map_cons, List.sum_cons, Nat.add_assoc]
    · rw [hfinal, hview]
      rfl

/-- What `measure_workspace_entries` builds can be built. -/
theorem buildable_of_addEntries {entries : List WorkspaceSnapshotEntry} {root : DirectoryNode}
    {total : Nat} {result : DirectoryNode × Nat}
    (hvalue : ∀ entry ∈ entries, entry.path.value ≠ [])
    (hwell : (FileTree.directory root).WellFormed SandboxPath.ValidSegment)
    (h : addEntries entries root total = .ok result) :
    View.Buildable (entries.map WorkspaceSnapshotEntry.item) (FileTree.directory root).view := by
  induction entries generalizing root total with
  | nil => trivial
  | cons entry entries ih =>
    rw [addEntries] at h
    cases hwalk : parentChildren root entry.path.parts.dropLast with
    | none => simp [hwalk, raise] at h
    | some inner =>
      simp only [hwalk, Except.bind_eq_ok_iff, require_eq_ok] at h
      obtain ⟨-, hfresh, hrest⟩ := h
      have hinner := parentChildren_eq_some.mp hwalk
      have hvalid := (SandboxPath.value_eq_render (hvalue entry List.mem_cons_self)).2
      have hnew : (FileTree.directory root).view entry.path.parts = none := by
        rw [SandboxPath.parts_eq_concat entry.not_root, FileTree.view_append hinner,
          FileTree.view_directory_cons, hfresh]
        rfl
      have hassigned : (FileTree.directory (assignChild entry.path entry.node root)).WellFormed
          SandboxPath.ValidSegment :=
        MemoryWorkspace.assignChild_wellFormed entry.not_root hvalid hwell entry.node_wellFormed
      have hview : (FileTree.directory (assignChild entry.path entry.node root)).view =
          View.assign entry.path.parts entry.entry (FileTree.directory root).view := by
        rw [MemoryWorkspace.assignChild_view entry.not_root hinner, entry.node_view]
        apply View.graft_single
        intro q hq _
        exact (FileTree.toFileMap root hwell).below_absent hnew hq
      refine ⟨FileTree.view_eq_directory_iff.mpr ⟨inner, hinner⟩, hnew, ?_⟩
      have hbuild := ih (fun e he => hvalue e (List.mem_cons_of_mem _ he)) hassigned hrest
      rw [hview] at hbuild
      exact hbuild

/-- A proper ancestor's path comes first. -/
theorem render_dropLast_lt {p : List Text} (h : p ≠ []) :
    SandboxPath.render p.dropLast < SandboxPath.render p := by
  obtain ⟨q, s, rfl⟩ : ∃ q s, p = q ++ [s] :=
    ⟨p.dropLast, p.getLast h, (List.dropLast_concat_getLast h).symm⟩
  rw [List.dropLast_concat, SandboxPath.render_concat]
  have hlt : ∀ (t : Text) (c : CodePoint) (rest : Text), t < t ++ c :: rest := by
    intro t c rest
    induction t with
    | nil => exact List.nil_lt_cons _ _
    | cons d t ih => exact List.cons_lt_cons_self.mpr ih
  exact hlt _ _ _

/-- The entries describe the tree: its nodes other than the root, with
    canonical paths. -/
structure Flattened (entries : List WorkspaceSnapshotEntry) (m : View Text Bytes) : Prop where
  value : ∀ entry ∈ entries, entry.path.value ≠ []
  distinct : ((entries.map WorkspaceSnapshotEntry.item).map Prod.fst).Nodup
  mem_iff : ∀ p e, (p, e) ∈ entries.map WorkspaceSnapshotEntry.item ↔ p ≠ [] ∧ m p = some e

theorem Flattened.perm {entries entries' : List WorkspaceSnapshotEntry} {m : View Text Bytes}
    (h : Flattened entries m) (hperm : entries'.Perm entries) : Flattened entries' m where
  value entry hentry := h.value entry (hperm.mem_iff.mp hentry)
  distinct := ((hperm.map _).map _).nodup_iff.mpr h.distinct
  mem_iff p e := by rw [(hperm.map _).mem_iff, h.mem_iff]

theorem Flattened.nodup_value {entries : List WorkspaceSnapshotEntry} {m : View Text Bytes}
    (h : Flattened entries m) : (entries.map fun entry => entry.path.value).Nodup := by
  have hdistinct := h.distinct
  rw [List.map_map] at hdistinct
  refine List.Nodup.map_on ?_ (List.Nodup.of_map _ hdistinct)
  intro a ha b hb heq
  have hparts : a.path.parts = b.path.parts := by
    rw [SandboxPath.ext_value heq]
  exact List.inj_on_of_nodup_map hdistinct ha hb hparts

/-- The paths of a description, sorted, are strictly increasing. -/
theorem Flattened.sorted_lt {entries : List WorkspaceSnapshotEntry} {m : View Text Bytes}
    (h : Flattened entries m) :
    (sorted (·.path.value) entries).Pairwise fun a b => a.path.value < b.path.value :=
  sorted_pairwise_lt h.nodup_value

/-- Entries that were built into a tree describe it. -/
theorem flattened_of_build {entries : List WorkspaceSnapshotEntry} {root : DirectoryNode}
    (hvalue : ∀ entry ∈ entries, entry.path.value ≠ [])
    (hbuild : View.Buildable (entries.map WorkspaceSnapshotEntry.item)
      (FileTree.directory ([] : DirectoryNode)).view)
    (hview : (FileTree.directory root).view =
      View.assignAll (entries.map WorkspaceSnapshotEntry.item)
        (FileTree.directory ([] : DirectoryNode)).view) :
    Flattened entries (FileTree.directory root).view := by
  obtain ⟨hdistinct, -⟩ := hbuild.spec
  have hne : ∀ item ∈ entries.map WorkspaceSnapshotEntry.item, item.1 ≠ [] := by
    intro item hitem
    obtain ⟨entry, hentry, rfl⟩ := List.mem_map.mp hitem
    exact entry.parts_ne_nil (hvalue entry hentry)
  refine ⟨hvalue, hdistinct, ?_⟩
  intro p e
  rw [hview]
  constructor
  · intro hmem
    exact ⟨hne _ hmem, View.assignAll_of_mem hdistinct hmem _⟩
  · intro h
    obtain ⟨hp, hassigned⟩ := h
    by_cases hmem : p ∈ (entries.map WorkspaceSnapshotEntry.item).map Prod.fst
    · obtain ⟨item, hitem, rfl⟩ := List.mem_map.mp hmem
      rw [View.assignAll_of_mem hdistinct hitem, Option.some.injEq] at hassigned
      rw [← hassigned]
      exact hitem
    · rw [View.assignAll_of_not_mem hmem, FileTree.view_directory_nil] at hassigned
      simp [View.single, hp] at hassigned

/-- With the root added, the items of a description are the listing of the tree. -/
theorem Flattened.listing_perm {entries : List WorkspaceSnapshotEntry} {root : DirectoryNode}
    (h : Flattened entries (FileTree.directory root).view)
    (hwell : (FileTree.directory root).WellFormed SandboxPath.ValidSegment) :
    (([], Entry.directory) :: entries.map WorkspaceSnapshotEntry.item).Perm
      ((FileTree.directory root).listing []) := by
  have hroot : [] ∉ (entries.map WorkspaceSnapshotEntry.item).map Prod.fst := by
    intro hmem
    obtain ⟨item, hitem, hnil⟩ := List.mem_map.mp hmem
    exact ((h.mem_iff item.1 item.2).mp hitem).1 hnil
  have hnodup : (([], Entry.directory) :: entries.map WorkspaceSnapshotEntry.item).Nodup := by
    apply List.Nodup.of_map Prod.fst
    rw [List.map_cons]
    exact List.nodup_cons.mpr ⟨hroot, h.distinct⟩
  rw [List.perm_ext_iff_of_nodup hnodup (FileTree.nodup_listing hwell []).of_map]
  intro item
  have hlisting := FileTree.mem_listing_iff hwell (p := []) (q := item.1) (e := item.2)
  rw [List.nil_append] at hlisting
  rw [hlisting, List.mem_cons]
  constructor
  · intro hitem
    rcases hitem with rfl | hitem
    · simp
    · exact ((h.mem_iff item.1 item.2).mp hitem).2
  · intro hview
    by_cases hp : item.1 = []
    · left
      obtain ⟨p, e⟩ := item
      simp only at hp hview
      subst hp
      simpa using hview.symm
    · exact .inr ((h.mem_iff item.1 item.2).mpr ⟨hp, hview⟩)

theorem Flattened.count_eq {entries : List WorkspaceSnapshotEntry} {root : DirectoryNode}
    (h : Flattened entries (FileTree.directory root).view)
    (hwell : (FileTree.directory root).WellFormed SandboxPath.ValidSegment) :
    (FileTree.directory root).count = entries.length + 1 := by
  rw [← FileTree.length_listing _ [], ← (h.listing_perm hwell).length_eq]
  simp

theorem Flattened.total_eq {entries : List WorkspaceSnapshotEntry} {root : DirectoryNode}
    (h : Flattened entries (FileTree.directory root).view)
    (hwell : (FileTree.directory root).WellFormed SandboxPath.ValidSegment) :
    (FileTree.directory root).total List.length =
      (entries.map WorkspaceSnapshotEntry.size).sum := by
  have hsize : entries.map WorkspaceSnapshotEntry.size =
      (entries.map WorkspaceSnapshotEntry.item).map fun q => q.2.weight List.length := by
    rw [List.map_map]
    refine List.map_congr_left fun entry _ => ?_
    show entry.size = entry.entry.weight List.length
    unfold WorkspaceSnapshotEntry.size Entry.weight
    cases entry.entry <;> rfl
  rw [FileTree.total_eq_listing _ _ [], ← ((h.listing_perm hwell).map _).sum_eq, List.map_cons,
    List.sum_cons, hsize]
  simp [Entry.weight]

/-- Below the root, the parent of a described path is described as a directory. -/
theorem Flattened.parent {entries : List WorkspaceSnapshotEntry} {root : DirectoryNode}
    (h : Flattened entries (FileTree.directory root).view)
    (hwell : (FileTree.directory root).WellFormed SandboxPath.ValidSegment)
    {entry : WorkspaceSnapshotEntry} (hentry : entry ∈ entries) :
    entry.path.parts.dropLast = [] ∨ ∃ parent ∈ entries,
      parent.path.parts = entry.path.parts.dropLast ∧ parent.entry = .directory := by
  have hitem : (entry.path.parts, entry.entry) ∈ entries.map WorkspaceSnapshotEntry.item :=
    List.mem_map_of_mem hentry
  obtain ⟨hne, hview⟩ := (h.mem_iff _ _).mp hitem
  by_cases hnil : entry.path.parts.dropLast = []
  · exact .inl hnil
  · right
    have hdir : (FileTree.directory root).view entry.path.parts.dropLast = some .directory := by
      apply (FileTree.toFileMap root hwell).parent_directory _ (entry.path.parts.getLast hne)
      show (FileTree.directory root).view _ ≠ none
      rw [List.dropLast_concat_getLast hne, hview]
      simp
    obtain ⟨parent, hparent, heq⟩ := List.mem_map.mp ((h.mem_iff _ _).mpr ⟨hnil, hdir⟩)
    obtain ⟨hparts, hkind⟩ := Prod.mk.inj heq
    exact ⟨parent, hparent, hparts, hkind⟩

/-- Entries with distinct paths and with the parents of all paths are built,
    once sorted, into a tree that they describe. -/
theorem build_closed {entries : List WorkspaceSnapshotEntry}
    (hvalue : ∀ entry ∈ entries, entry.path.value ≠ [])
    (hdistinct : (entries.map fun entry => entry.path.value).Nodup)
    (hclosed : ∀ entry ∈ entries, entry.path.parts.dropLast = [] ∨ ∃ parent ∈ entries,
      parent.path.parts = entry.path.parts.dropLast ∧ parent.entry = .directory) :
    ∃ root, MemoryWorkspace.rootFromEntries (sorted (·.path.value) entries) [] = .ok root ∧
      addEntries (sorted (·.path.value) entries) [] 0 =
        .ok (root, ((sorted (·.path.value) entries).map WorkspaceSnapshotEntry.size).sum) ∧
      Flattened entries (FileTree.directory root).view ∧
      (FileTree.directory root).WellFormed SandboxPath.ValidSegment := by
  have hsorted : ∀ entry ∈ sorted (·.path.value) entries, entry.path.value ≠ [] :=
    fun entry hentry => hvalue entry (mem_sorted.mp hentry)
  have hne : ∀ item ∈ (sorted (·.path.value) entries).map WorkspaceSnapshotEntry.item,
      item.1 ≠ [] := by
    intro item hitem
    obtain ⟨entry, hentry, rfl⟩ := List.mem_map.mp hitem
    exact entry.parts_ne_nil (hsorted entry hentry)
  have hbuild : View.Buildable ((sorted (·.path.value) entries).map WorkspaceSnapshotEntry.item)
      (FileTree.directory ([] : DirectoryNode)).view := by
    refine View.buildable_of_order SandboxPath.render ?_ ?_ ?_ ?_
    · -- the path of an entry is the rendering of its parts
      rw [List.pairwise_map]
      refine (sorted_pairwise_lt hdistinct).imp_of_mem ?_
      intro a b ha hb hlt
      show SandboxPath.render a.path.parts < SandboxPath.render b.path.parts
      rw [← (SandboxPath.value_eq_render (hsorted a ha)).1,
        ← (SandboxPath.value_eq_render (hsorted b hb)).1]
      exact hlt
    · exact fun item hitem => render_dropLast_lt (hne item hitem)
    · intro item hitem
      obtain ⟨entry, hentry, rfl⟩ := List.mem_map.mp hitem
      rcases hclosed entry (mem_sorted.mp hentry) with hnil | ⟨parent, hparent, hparts, hkind⟩
      · left
        show (FileTree.directory []).view entry.path.parts.dropLast = _
        rw [hnil]
        simp
      · right
        refine List.mem_map.mpr ⟨parent, mem_sorted.mpr hparent, ?_⟩
        exact Prod.ext hparts hkind
    · intro item hitem
      rw [FileTree.view_directory_nil]
      simp [View.single, hne item hitem]
  obtain ⟨root, hroot, hadd, hview, hwell⟩ := build_spec 0 hsorted .empty hbuild
  refine ⟨root, hroot, by rw [hadd, Nat.zero_add], ?_, hwell⟩
  exact (flattened_of_build hsorted hbuild hview).perm (sorted_perm _ entries).symm

/-- Sorted by path, the entries of a tree are built into a tree with its map. -/
theorem build_sorted {entries : List WorkspaceSnapshotEntry} {root : DirectoryNode}
    (hwell : (FileTree.directory root).WellFormed SandboxPath.ValidSegment)
    (h : Flattened entries (FileTree.directory root).view) :
    ∃ root', MemoryWorkspace.rootFromEntries (sorted (·.path.value) entries) [] = .ok root' ∧
      addEntries (sorted (·.path.value) entries) [] 0 =
        .ok (root', ((sorted (·.path.value) entries).map WorkspaceSnapshotEntry.size).sum) ∧
      (FileTree.directory root').view = (FileTree.directory root).view ∧
      (FileTree.directory root').WellFormed SandboxPath.ValidSegment := by
  obtain ⟨root', hroot, hadd, hflat, hwell'⟩ :=
    build_closed h.value h.nodup_value fun entry hentry => h.parent hwell hentry
  refine ⟨root', hroot, hadd, ?_, hwell'⟩
  -- both maps are what the entries describe
  funext q
  by_cases hq : q = []
  · subst hq
    simp
  · ext e
    have hmem := hflat.mem_iff q e
    rw [h.mem_iff q e] at hmem
    simpa [hq] using hmem.symm

/-- Entries that are built have the parents of all paths among them. -/
theorem closed_of_addEntries {entries : List WorkspaceSnapshotEntry} {root : DirectoryNode}
    {totalBytes : Nat} (hvalue : ∀ entry ∈ entries, entry.path.value ≠ [])
    (h : addEntries (sorted (·.path.value) entries) [] 0 = .ok (root, totalBytes)) :
    (entries.map fun entry => entry.path.value).Nodup ∧
    ∀ entry ∈ entries, entry.path.parts.dropLast = [] ∨ ∃ parent ∈ entries,
      parent.path.parts = entry.path.parts.dropLast ∧ parent.entry = .directory := by
  have hsorted : ∀ entry ∈ sorted (·.path.value) entries, entry.path.value ≠ [] :=
    fun entry hentry => hvalue entry (mem_sorted.mp hentry)
  have hbuild := buildable_of_addEntries hsorted .empty h
  obtain ⟨root', -, -, hview, hwell⟩ := build_spec 0 hsorted .empty hbuild
  have hflat := (flattened_of_build hsorted hbuild hview).perm (sorted_perm _ entries).symm
  exact ⟨hflat.nodup_value, fun entry hentry => hflat.parent hwell hentry⟩

/-- What `measure_workspace_entries` accepts is a tree, and it returns the
    counters and the hash of that tree. -/
theorem measureWorkspaceEntries_spec [Sha256] {entries : List WorkspaceSnapshotEntry}
    {stats : WorkspaceTreeStats} (hvalue : ∀ entry ∈ entries, entry.path.value ≠ [])
    (h : measureWorkspaceEntries entries = .ok stats) :
    ∃ root : DirectoryNode, (FileTree.directory root).WellFormed SandboxPath.ValidSegment ∧
      MemoryWorkspace.rootFromEntries (sorted (·.path.value) entries) [] = .ok root ∧
      Flattened entries (FileTree.directory root).view ∧
      treeHash (.directory root) = some stats.rootHash ∧
      stats.totalBytes = (FileTree.directory root).total List.length ∧
      stats.nodeCount = (FileTree.directory root).count := by
  simp only [measureWorkspaceEntries, Except.bind_eq_ok_iff, Except.ok.injEq] at h
  obtain ⟨⟨root, totalBytes⟩, hadd, rootHash, hhash, rfl⟩ := h
  have hsorted : ∀ entry ∈ sorted (·.path.value) entries, entry.path.value ≠ [] :=
    fun entry hentry => hvalue entry (mem_sorted.mp hentry)
  have hbuild := buildable_of_addEntries hsorted .empty hadd
  obtain ⟨root', hroot, hadd', hview, hwell⟩ := build_spec 0 hsorted .empty hbuild
  rw [hadd] at hadd'
  obtain ⟨rfl, rfl⟩ := Prod.mk.inj (Except.ok.inj hadd')
  have hflat := (flattened_of_build hsorted hbuild hview).perm (sorted_perm _ entries).symm
  refine ⟨root, hwell, hroot, hflat, ?_, ?_, ?_⟩
  · have hspec := PostOrder.exec_spec hashWalk_meets hwell ()
    rw [show hashWalk.exec () (FileTree.directory root) = .ok rootHash from hhash] at hspec
    exact hspec.symm
  · show 0 + _ = _
    rw [hflat.total_eq hwell, Nat.zero_add]
    exact ((sorted_perm _ _).map _).sum_eq
  · exact (hflat.count_eq hwell).symm

/-- A tree that cannot be built is corrupt. -/
theorem addEntries_raises (entries : List WorkspaceSnapshotEntry) (root : DirectoryNode)
    (totalBytes : Nat) : Raises (· = .snapshotCorruptError) (addEntries entries root totalBytes) := by
  induction entries generalizing root totalBytes with
  | nil => exact .ok
  | cons entry rest ih =>
    unfold addEntries
    cases parentChildren root entry.path.parts.dropLast with
    | none => exact Raises.raise_iff.mpr rfl
    | some parent =>
      apply Raises.bind
      · exact Raises.of_require rfl
      · exact fun _ _ => ih _ _

/-- Entries that make a tree are refused for their segments only. -/
theorem measureWorkspaceEntries_raises_of_closed [Sha256] {entries : List WorkspaceSnapshotEntry}
    (hvalue : ∀ entry ∈ entries, entry.path.value ≠ [])
    (hdistinct : (entries.map fun entry => entry.path.value).Nodup)
    (hclosed : ∀ entry ∈ entries, entry.path.parts.dropLast = [] ∨ ∃ parent ∈ entries,
      parent.path.parts = entry.path.parts.dropLast ∧ parent.entry = .directory) :
    Raises IsHashError (measureWorkspaceEntries entries) := by
  obtain ⟨root, -, hadd, -, -⟩ := build_closed hvalue hdistinct hclosed
  unfold measureWorkspaceEntries
  rw [hadd]
  apply Raises.bind .ok
  intro built _
  exact (treeNodeHash_raises _).bind fun _ _ => .ok

/-- Entries that make a tree are measured when their segments can be hashed. -/
theorem measureWorkspaceEntries_isOk_iff [Sha256] {entries : List WorkspaceSnapshotEntry}
    (hvalue : ∀ entry ∈ entries, entry.path.value ≠ [])
    (hdistinct : (entries.map fun entry => entry.path.value).Nodup)
    (hclosed : ∀ entry ∈ entries, entry.path.parts.dropLast = [] ∨ ∃ parent ∈ entries,
      parent.path.parts = entry.path.parts.dropLast ∧ parent.entry = .directory) :
    (∃ stats, measureWorkspaceEntries entries = .ok stats) ↔
      ∀ entry ∈ entries, ∀ part ∈ entry.path.parts, HashableName part := by
  obtain ⟨root, -, hadd, hflat, hwell⟩ := build_closed hvalue hdistinct hclosed
  -- the paths of the entries are those of the tree, but for the root
  have hpaths : (∀ entry ∈ entries, ∀ part ∈ entry.path.parts, HashableName part) ↔
      (FileTree.directory root).WellFormed HashableName := by
    constructor
    · intro h
      apply hwell.of_paths
      intro p hp part hpart
      have hne : p ≠ [] := List.ne_nil_of_mem hpart
      obtain ⟨e, he⟩ := Option.ne_none_iff_exists'.mp hp
      obtain ⟨entry, hentry, heq⟩ := List.mem_map.mp ((hflat.mem_iff p e).mpr ⟨hne, he⟩)
      have hparts : entry.path.parts = p := congrArg Prod.fst heq
      exact h entry hentry part (hparts ▸ hpart)
    · intro h entry hentry
      have hview := ((hflat.mem_iff _ _).mp (List.mem_map_of_mem hentry)).2
      apply h.path
      rw [hview]
      simp
  have hhash : (∃ hash, treeNodeHash (.directory root) = .ok hash) ↔
      ∃ hash, treeHash (.directory root) = some hash := by
    have hspec := PostOrder.exec_spec hashWalk_meets hwell ()
    constructor
    · intro h
      obtain ⟨hash, heq⟩ := h
      rw [show hashWalk.exec () (FileTree.directory root) = .ok hash from heq] at hspec
      exact ⟨hash, hspec.symm⟩
    · intro h
      obtain ⟨hash, heq⟩ := h
      rw [heq] at hspec
      exact ⟨hash, eq_ok_of_toOption hspec⟩
  rw [hpaths]
  constructor
  · intro h
    obtain ⟨stats, h⟩ := h
    simp only [measureWorkspaceEntries, hadd, Except.bind_eq_ok_iff, Except.ok.injEq,
      exists_eq_left'] at h
    obtain ⟨hash, heq, -⟩ := h
    obtain ⟨hash, heq⟩ := hhash.mp ⟨hash, heq⟩
    exact wellFormed_of_treeHash hwell heq
  · intro h
    obtain ⟨hash, heq⟩ := hhash.mpr (treeHash_isSome h)
    simp only [measureWorkspaceEntries, hadd, Except.bind_eq_ok_iff, Except.ok.injEq,
      exists_eq_left']
    exact ⟨_, hash, heq, rfl⟩

/-! ## Section 2: Flattening -/

/-- The nodes on a stack with everything below them. -/
def stackListing (stack : List (SandboxPath × Node)) : List (List Text × Entry Bytes) :=
  stack.flatMap fun c => c.2.listing c.1.parts

/-- A node that may be on the stack: below the root, and within the limits. -/
structure Stacked (limits : WorkspaceLimits) (c : SandboxPath × Node) : Prop where
  value : c.1.value ≠ []
  below : c.1.parts ≠ []
  wellFormed : c.2.WellFormed SandboxPath.ValidSegment
  measured : Measured limits c.1 c.2

/-- What is pushed for a directory within the limits: its children. -/
theorem pushedChildren_spec {limits : WorkspaceLimits} {path : SandboxPath}
    {children : DirectoryNode}
    (hwell : (FileTree.directory children).WellFormed SandboxPath.ValidSegment)
    (hmeasured : Measured limits path (.directory children)) :
    ∃ pushed, pushedChildren limits path children = .ok pushed ∧
      (∀ c ∈ pushed, Stacked limits c) ∧
      (stackListing pushed).Perm
        (children.flatMap fun c => c.2.listing (path.parts ++ [c.1])) ∧
      (pushed.map fun c => c.2.count).sum = (children.map fun c => c.2.count).sum := by
  rw [measured_directory hwell.unique] at hmeasured
  have hmem : ∀ c, c ∈ (sorted Prod.fst children).reverse ↔ c ∈ children := by simp
  have hjoins : ∀ c ∈ (sorted Prod.fst children).reverse, ∃ childPath,
      path.join c.1 limits.maxPathBytes limits.maxSegmentBytes = .ok childPath := by
    intro c hc
    obtain ⟨hvalue, hvalid, hallows, -⟩ := hmeasured c ((hmem c).mp hc)
    exact join_of_allows hvalue hvalid hallows
  obtain ⟨joined, hjoined⟩ := joinChildren_of_ok hjoins
  obtain ⟨hmap, hjoin⟩ := joinChildren_eq_ok hjoined
  -- each joined child is a child at its own path
  have hchild : ∀ c ∈ joined, (c.1, c.2.1) ∈ children ∧ c.2.2.value ≠ [] ∧
      c.2.2.parts = path.parts ++ [c.1] := by
    intro c hc
    have hin : (c.1, c.2.1) ∈ children := by
      apply (hmem _).mp
      rw [← hmap]
      exact List.mem_map_of_mem hc
    obtain ⟨-, -, -, hvalue, hparts⟩ := join_loose (.inr (hwell.names _ hin)) (hjoin c hc)
    exact ⟨hin, hvalue, hparts⟩
  have hperm : (joined.map fun c => (c.1, c.2.1)).Perm children := by
    rw [hmap]
    exact (List.reverse_perm _).trans (sorted_perm _ _)
  refine ⟨joined.reverse.map fun c => (c.2.2, c.2.1), ?_, ?_, ?_, ?_⟩
  · simp only [pushedChildren, hjoined, bind, Except.bind]
  · intro c hc
    obtain ⟨d, hd, rfl⟩ := List.mem_map.mp hc
    obtain ⟨hin, hvalue, hparts⟩ := hchild d (List.mem_reverse.mp hd)
    refine ⟨hvalue, by simp [hparts], hwell.subtrees _ hin, ?_⟩
    exact (hmeasured _ hin).2.2.2 d.2.2 hvalue hparts
  · have hlisting : stackListing (joined.reverse.map fun c => (c.2.2, c.2.1)) =
        joined.reverse.flatMap fun c => c.2.1.listing (path.parts ++ [c.1]) := by
      unfold stackListing
      rw [List.flatMap_map]
      refine List.flatMap_congr fun c hc => ?_
      rw [(hchild c (List.mem_reverse.mp hc)).2.2]
    rw [hlisting]
    have hflat : (joined.flatMap fun c => c.2.1.listing (path.parts ++ [c.1])) =
        (joined.map fun c => (c.1, c.2.1)).flatMap fun c => c.2.listing (path.parts ++ [c.1]) := by
      rw [List.flatMap_map]
    refine ((List.reverse_perm joined).flatMap_right _).trans ?_
    rw [hflat]
    exact hperm.flatMap_right _
  · have hcounts := (hperm.map fun c => c.2.count).sum_eq
    rw [List.map_map] at hcounts
    rw [List.map_map, ← hcounts]
    exact ((List.reverse_perm joined).map _).sum_eq

/-- A stack within the limits is flattened into its listing.  The induction is
    on the fuel, which the number of nodes on the stack bounds. -/
theorem snapshotLoop_spec {limits : WorkspaceLimits} {fuel : Nat}
    {stack : List (SandboxPath × Node)} (hstack : ∀ c ∈ stack, Stacked limits c)
    (hfuel : (stack.map fun c => c.2.count).sum ≤ fuel) :
    ∃ entries, snapshotLoop limits fuel stack = .ok entries ∧
      (∀ entry ∈ entries, entry.path.value ≠ []) ∧
      (entries.map WorkspaceSnapshotEntry.item).Perm (stackListing stack) := by
  induction fuel generalizing stack with
  | zero =>
    cases stack with
    | nil => exact ⟨[], rfl, by simp, by simp [stackListing]⟩
    | cons c stack =>
      have hpos := c.2.count_pos
      simp only [List.map_cons, List.sum_cons] at hfuel
      omega
  | succ fuel ih =>
    cases stack with
    | nil => exact ⟨[], rfl, by simp, by simp [stackListing]⟩
    | cons c stack =>
      obtain ⟨path, node⟩ := c
      obtain ⟨htop, hrest⟩ := List.forall_mem_cons.mp hstack
      have hroot : path.isRoot = false := by
        have hbelow := htop.below
        rw [ne_eq, ← SandboxPath.isRoot_iff htop.value] at hbelow
        simpa using hbelow
      have hpushed : ∃ pushed, descendants limits path node = .ok pushed ∧
          (∀ c ∈ pushed, Stacked limits c) ∧
          ((path.parts, node.entry) :: stackListing pushed).Perm (node.listing path.parts) ∧
          (pushed.map fun c => c.2.count).sum + 1 = node.count := by
        cases node with
        | file content => exact ⟨[], rfl, by simp, by simp [stackListing], by simp⟩
        | directory children =>
          obtain ⟨pushed, hpush, hall, hperm, hcount⟩ :=
            pushedChildren_spec htop.wellFormed htop.measured
          refine ⟨pushed, hpush, hall, ?_, ?_⟩
          · rw [FileTree.listing_directory]
            exact hperm.cons _
          · rw [FileTree.count_directory, hcount, Nat.add_comm]
      obtain ⟨pushed, hpush, hall, hperm, hcount⟩ := hpushed
      have hfuel' : ((pushed ++ stack).map fun c => c.2.count).sum ≤ fuel := by
        simp only [List.map_cons, List.sum_cons] at hfuel
        rw [List.map_append, List.sum_append]
        omega
      have hstacked : ∀ c ∈ pushed ++ stack, Stacked limits c := by
        intro c hc
        rcases List.mem_append.mp hc with hc | hc
        · exact hall c hc
        · exact hrest c hc
      obtain ⟨entries, hloop, hvalues, hlisting⟩ := ih hstacked hfuel'
      have hnew : WorkspaceSnapshotEntry.new path node.entry = .ok ⟨path, node.entry, hroot⟩ := by
        simp [WorkspaceSnapshotEntry.new, hroot]
      refine ⟨⟨path, node.entry, hroot⟩ :: entries, ?_, ?_, ?_⟩
      · simp only [snapshotLoop, hnew, hpush, hloop, bind, Except.bind]
      · exact List.forall_mem_cons.mpr ⟨htop.value, hvalues⟩
      · have hsplit : stackListing ((path, node) :: stack) =
            node.listing path.parts ++ stackListing stack := rfl
        have hsplit' : stackListing (pushed ++ stack) =
            stackListing pushed ++ stackListing stack := by simp [stackListing]
        rw [hsplit'] at hlisting
        rw [hsplit, List.map_cons]
        have htail := hperm.append_right (stackListing stack)
        exact (hlisting.cons _).trans htail

section Consistent

variable [Sha256]

/-- The entries of a consistent tree describe it. -/
theorem snapshotEntries_spec {limits : WorkspaceLimits} {state : WorkspaceState}
    (h : MemoryWorkspace.Consistent limits state) :
    ∃ entries, snapshotEntries state.root .root limits = .ok entries ∧
      Flattened entries (FileTree.directory state.root).view ∧
      entries.length + 1 = state.stats.nodeCount ∧
      (entries.map WorkspaceSnapshotEntry.size).sum = state.stats.totalBytes := by
  have hmeasured : Measured limits .root (.directory state.root) :=
    MemoryWorkspace.measured_root_iff.mpr
      ⟨fun p hp => ⟨h.wellFormed.path hp, h.allows p hp⟩, h.fileBytes_le⟩
  obtain ⟨pushed, hpush, hall, hperm, hcount⟩ := pushedChildren_spec h.wellFormed hmeasured
  have hfuel : (pushed.map fun c => c.2.count).sum ≤ (FileTree.directory state.root).count := by
    rw [FileTree.count_directory, hcount]
    exact Nat.le_add_left _ _
  obtain ⟨entries, hloop, hvalue, hitems⟩ := snapshotLoop_spec hall hfuel
  have hroot : SandboxPath.root.parts = [] := by decide
  rw [hroot] at hperm
  -- with the root added, the items are the listing of the tree
  have hlisting : (([], Entry.directory) :: entries.map WorkspaceSnapshotEntry.item).Perm
      ((FileTree.directory state.root).listing []) := by
    rw [FileTree.listing_directory]
    exact (hitems.trans hperm).cons _
  have hnodup := FileTree.nodup_listing h.wellFormed []
  rw [← (hlisting.map _).nodup_iff, List.map_cons, List.nodup_cons] at hnodup
  have hflat : Flattened entries (FileTree.directory state.root).view := by
    refine ⟨hvalue, hnodup.2, ?_⟩
    intro p e
    have hmem : (p, e) ∈ (([], Entry.directory) :: entries.map WorkspaceSnapshotEntry.item) ↔
        (FileTree.directory state.root).view p = some e := by
      rw [hlisting.mem_iff]
      exact FileTree.mem_listing_iff h.wellFormed (p := []) (q := p)
    constructor
    · intro hpe
      refine ⟨?_, hmem.mp (List.mem_cons_of_mem _ hpe)⟩
      intro hnil
      exact hnodup.1 (List.mem_map.mpr ⟨(p, e), hpe, hnil⟩)
    · intro hpe
      obtain ⟨hp, hview⟩ := hpe
      rcases List.mem_cons.mp (hmem.mpr hview) with heq | hin
      · exact absurd (congrArg Prod.fst heq) hp
      · exact hin
  refine ⟨entries, ?_, hflat, ?_, ?_⟩
  · simp only [snapshotEntries, hpush, hloop, bind, Except.bind]
  · rw [h.nodeCount, hflat.count_eq h.wellFormed]
  · rw [h.totalBytes, hflat.total_eq h.wellFormed]

end Consistent
