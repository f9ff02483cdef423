import MemSandbox.Workspace.Memory

/-! # Trees and entries

    The two directions between a tree and a list of snapshot entries:
    `_snapshot_entries` of `workspace/memory.py` flattens a tree,
    `measure_workspace_entries` of `workspace/snapshot_tree.py` builds one
    from entries and measures it. -/

open Python FileMap Node

/-! ## Section 1: From a tree to entries -/

/-- `WorkspaceSnapshotEntry(path, kind, content)`. -/
def WorkspaceSnapshotEntry.new (path : SandboxPath) (entry : Entry Bytes) :
    Except PyError WorkspaceSnapshotEntry :=
  if h : path.isRoot = false then
    .ok ⟨path, entry, h⟩
  else
    raise .valueError (py "snapshot entries must not contain the implicit root")

/-- The children that are pushed for a directory, the next one to pop first.
    They are joined in reverse order, and the stack reverses them again. -/
def pushedChildren (limits : WorkspaceLimits) (path : SandboxPath) (directory : DirectoryNode) :
    Except PyError (List (SandboxPath × Node)) := do
  let joined ← joinChildren limits path (sorted Prod.fst directory).reverse
  .ok (joined.reverse.map fun c => (c.2.2, c.2.1))

/-- What a popped node pushes. -/
def descendants (limits : WorkspaceLimits) (path : SandboxPath) :
    Node → Except PyError (List (SandboxPath × Node))
  | .file _ => .ok []
  | .directory children => pushedChildren limits path children

/-- The loop of `_snapshot_entries`; the fuel is the number of nodes it may pop. -/
def snapshotLoop (limits : WorkspaceLimits) :
    Nat → List (SandboxPath × Node) → Except PyError (List WorkspaceSnapshotEntry)
  | _, [] => .ok []
  | 0, _ :: _ => raise .runtimeError (py "unreachable")
  | fuel + 1, (path, node) :: pending => do
    let entry ← WorkspaceSnapshotEntry.new path node.entry
    let pushed ← descendants limits path node
    let rest ← snapshotLoop limits fuel (pushed ++ pending)
    .ok (entry :: rest)

/-- `_snapshot_entries`. -/
def snapshotEntries (directory : DirectoryNode) (path : SandboxPath) (limits : WorkspaceLimits) :
    Except PyError (List WorkspaceSnapshotEntry) := do
  let pending ← pushedChildren limits path directory
  snapshotLoop limits (FileTree.count (.directory directory)) pending

/-! ## Section 2: From entries to a tree -/

/-- The node of an entry: an empty directory, or a file. -/
def WorkspaceSnapshotEntry.node (entry : WorkspaceSnapshotEntry) : Node :=
  match entry.entry with
  | .directory => .directory []
  | .file content => .file content

/-- The bytes that an entry adds to the total. -/
def WorkspaceSnapshotEntry.size (entry : WorkspaceSnapshotEntry) : Nat :=
  match entry.entry with
  | .directory => 0
  | .file content => content.length

/-- The walk of `measure_workspace_entries` to the parent of an entry. -/
def parentChildren : DirectoryNode → List Text → Option DirectoryNode
  | children, [] => some children
  | children, segment :: rest =>
    match Dict.get? segment children with
    | some (.directory inner) => parentChildren inner rest
    | _ => none

/-- The loop of `measure_workspace_entries`: the tree and its total bytes. -/
def addEntries :
    List WorkspaceSnapshotEntry → DirectoryNode → Nat → Except PyError (DirectoryNode × Nat)
  | [], root, totalBytes => .ok (root, totalBytes)
  | entry :: rest, root, totalBytes =>
    match parentChildren root entry.path.parts.dropLast with
    | none =>
      raise .snapshotCorruptError
        (py "snapshot parent directory is missing for " ++ entry.path.value)
    | some parent => do
      require (Dict.get? entry.path.name parent = none) .snapshotCorruptError
        (py "snapshot path is duplicated: " ++ entry.path.value)
      addEntries rest (assignChild entry.path entry.node root) (totalBytes + entry.size)

section Measuring

variable [Sha256]

/-- `_tree_node_hash`. -/
def treeNodeHash : Node → Except PyError ContentHash
  | .file content => .ok (.fromBytes content)
  | .directory children => hashWalk.exec () (.directory children)

/-- `measure_workspace_entries`. -/
def measureWorkspaceEntries (entries : List WorkspaceSnapshotEntry) :
    Except PyError WorkspaceTreeStats := do
  let (root, totalBytes) ← addEntries (sorted (·.path.value) entries) [] 0
  let rootHash ← treeNodeHash (.directory root)
  .ok ⟨totalBytes, entries.length + 1, rootHash⟩

end Measuring
