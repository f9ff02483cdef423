import MemSandbox.Workspace.Models
import MemSandbox.Lib.PostOrder

/-! # Workspace nodes

    The tree functions of `workspace/memory.py`: lookups, creation of parents,
    and the copy that bounds its size.

    The source mutates a deep copy of the committed tree.  Here trees are
    values, so the copy is the tree itself, and an assignment
    `parent.children[name] = node` is a modification at the parent's position.

    A lookup is `FileTree.at?` with an error for a file on the way; the copy
    accepts exactly the trees of at most `maxNodes` nodes. -/

open Python FileMap

/-- `_Node`. -/
abbrev Node : Type := FileTree Text Bytes

/-- `_DirectoryNode`, by its children. -/
abbrev DirectoryNode : Type := List (Text × Node)

namespace Node

/-- The kind of a node. -/
def kind : Node → NodeKind
  | .file _ => .file
  | .directory _ => .directory

/-! ## Section 1: Lookups -/

/-- The loop of `_try_get_node`. -/
def descend (path : SandboxPath) : Node → List Text → Except PyError (Option Node)
  | node, [] => .ok (some node)
  | .file _, _ :: _ =>
    raise .notADirectoryError (path.parent.value ++ py " is not a directory")
  | .directory children, segment :: rest =>
    match Dict.get? segment children with
    | none => .ok none
    | some child => descend path child rest

/-- `_try_get_node`. -/
def tryGetNode (root : DirectoryNode) (path : SandboxPath) : Except PyError (Option Node) :=
  descend path (.directory root) path.parts

/-- `_get_node`. -/
def getNode (root : DirectoryNode) (path : SandboxPath) : Except PyError Node := do
  match ← tryGetNode root path with
  | none => raise .pathNotFoundError (path.value ++ py " does not exist")
  | some node => .ok node

/-- `_get_parent`. -/
def getParent (root : DirectoryNode) (path : SandboxPath) : Except PyError DirectoryNode := do
  match ← getNode root path.parent with
  | .directory children => .ok children
  | .file _ => raise .notADirectoryError (path.parent.value ++ py " is not a directory")

/-- `_require_file`. -/
def requireFile (node : Node) (path : SandboxPath) : Except PyError Bytes :=
  match node with
  | .file content => .ok content
  | .directory _ => raise .notAFileError (path.value ++ py " is not a file")

/-- The loop of `_ensure_parent`: the tree with the missing parents added. -/
def ensureSegments (limits : WorkspaceLimits) (createParents : Bool) :
    SandboxPath → List Text → DirectoryNode → Except PyError DirectoryNode
  | _, [], node => .ok node
  | traversed, segment :: rest, node => do
    let traversed ← traversed.join segment limits.maxPathBytes limits.maxSegmentBytes
    match Dict.get? segment node with
    | none =>
      if createParents then do
        let inner ← ensureSegments limits createParents traversed rest []
        .ok (Dict.set segment (.directory inner) node)
      else
        raise .pathNotFoundError
          (py "parent directory " ++ traversed.value ++ py " does not exist")
    | some (.directory children) => do
      let inner ← ensureSegments limits createParents traversed rest children
      .ok (Dict.set segment (.directory inner) node)
    | some (.file _) => raise .notADirectoryError (traversed.value ++ py " is not a directory")

/-- `_ensure_parent`. -/
def ensureParent (root : DirectoryNode) (path : SandboxPath) (createParents : Bool)
    (limits : WorkspaceLimits) : Except PyError DirectoryNode :=
  ensureSegments limits createParents .root path.parts.dropLast root

/-- `parent.children[path.name] = node`, for the parent at `path.parent`. -/
def assignChild (path : SandboxPath) (node : Node) (root : DirectoryNode) : DirectoryNode :=
  FileTree.modifyAt (Dict.set path.name node) path.parts.dropLast root

/-- `del parent.children[path.name]`, for the parent at `path.parent`. -/
def deleteChild (path : SandboxPath) (root : DirectoryNode) : DirectoryNode :=
  FileTree.modifyAt (Dict.erase path.name) path.parts.dropLast root

/-! ## Section 2: Copies -/

/-- The inner loop of `_clone_node`: the number of nodes copied, and the
    directories still to copy. -/
def cloneChildren (maxNodes : Nat) :
    DirectoryNode → Nat × List DirectoryNode → Except PyError (Nat × List DirectoryNode)
  | [], state => .ok state
  | (_, child) :: rest, (clonedNodes, pending) =>
    if clonedNodes + 1 > maxNodes then
      raise .nodeLimitExceededError
        (py "workspace clone contains more than " ++ Text.ofNat maxNodes ++ py " nodes")
    else
      match child with
      | .file _ => cloneChildren maxNodes rest (clonedNodes + 1, pending)
      | .directory children => cloneChildren maxNodes rest (clonedNodes + 1, children :: pending)

/-- The outer loop of `_clone_node`; the fuel is the number of directories it may pop. -/
def cloneLoop (maxNodes : Nat) : Nat → List DirectoryNode → Nat → Except PyError Unit
  | _, [], _ => .ok ()
  | 0, _ :: _, _ => raise .runtimeError (py "unreachable")
  | fuel + 1, source :: pending, clonedNodes => do
    let (clonedNodes, pending) ← cloneChildren maxNodes source (clonedNodes, pending)
    cloneLoop maxNodes fuel pending clonedNodes

/-- `_clone_node`. -/
def cloneNode (node : Node) (maxNodes : Nat) : Except PyError Node :=
  match node with
  | .file content => .ok (.file content)
  | .directory children => do
    cloneLoop maxNodes (FileTree.count (.directory children)) [children] 1
    .ok (.directory children)

/-- `_clone_directory`. -/
def cloneDirectory (directory : DirectoryNode) (maxNodes : Nat) : Except PyError DirectoryNode := do
  match ← cloneNode (.directory directory) maxNodes with
  | .directory children => .ok children
  | .file _ => raise .typeError (py "workspace root must be a directory")

/-! ## Section 3: What the lookups return -/

theorem descend_eq_ok {path : SandboxPath} {node : Node} {p : List Text} {found : Option Node}
    (h : descend path node p = .ok found) : found = node.at? p := by
  induction p generalizing node with
  | nil =>
    simp only [descend, Except.ok.injEq] at h
    simp [← h]
  | cons s p ih =>
    cases node with
    | file c => simp [descend] at h
    | directory cs =>
      rw [FileTree.at?_directory_cons]
      unfold descend at h
      cases hs : Dict.get? s cs with
      | none =>
        simp only [hs, Except.ok.injEq] at h
        simp [← h]
      | some child =>
        simp only [hs] at h
        simpa using ih h

/-- A node that is there is found. -/
theorem descend_of_at? {path : SandboxPath} {node found : Node} {p : List Text}
    (h : node.at? p = some found) : descend path node p = .ok (some found) := by
  induction p generalizing node with
  | nil =>
    simp only [FileTree.at?_nil, Option.some.injEq] at h
    simp [descend, h]
  | cons s p ih =>
    cases node with
    | file c => simp at h
    | directory cs =>
      rw [FileTree.at?_directory_cons, Option.bind_eq_some_iff] at h
      obtain ⟨child, hs, hchild⟩ := h
      simp only [descend, hs]
      exact ih hchild

/-- The lookup raises when, and only when, a proper ancestor is a file. -/
theorem descend_eq_error_iff {path : SandboxPath} {node : Node} {p : List Text} :
    (∃ e, descend path node p = .error e) ↔
      ∃ q r c, p = q ++ r ∧ r ≠ [] ∧ node.at? q = some (.file c) := by
  induction p generalizing node with
  | nil =>
    simp only [descend, reduceCtorEq, exists_false, false_iff, not_exists]
    rintro q r c ⟨hqr, hr, -⟩
    simp_all
  | cons s p ih =>
    cases node with
    | file c =>
      simp only [descend, raise, Except.error.injEq, exists_eq', true_iff]
      exact ⟨[], s :: p, c, rfl, by simp, by simp⟩
    | directory cs =>
      unfold descend
      cases hs : Dict.get? s cs with
      | none =>
        simp only [reduceCtorEq, exists_false, false_iff, not_exists]
        rintro q r c ⟨hqr, hr, hq⟩
        cases q with
        | nil => simp at hq
        | cons k q =>
          simp only [List.cons_append, List.cons.injEq] at hqr
          rw [FileTree.at?_directory_cons, ← hqr.1, hs] at hq
          simp at hq
      | some child =>
        simp only
        rw [ih]
        constructor
        · rintro ⟨q, r, c, rfl, hr, hq⟩
          exact ⟨s :: q, r, c, rfl, hr, by rw [FileTree.at?_directory_cons, hs]; exact hq⟩
        · rintro ⟨q, r, c, hqr, hr, hq⟩
          cases q with
          | nil => simp at hq
          | cons k q =>
            simp only [List.cons_append, List.cons.injEq] at hqr
            obtain ⟨rfl, rfl⟩ := hqr
            rw [FileTree.at?_directory_cons, hs] at hq
            exact ⟨q, r, c, rfl, hr, hq⟩

theorem tryGetNode_eq_ok {root : DirectoryNode} {path : SandboxPath} {found : Option Node}
    (h : tryGetNode root path = .ok found) :
    found = (FileTree.directory root).at? path.parts :=
  descend_eq_ok h

theorem getNode_eq_ok_iff {root : DirectoryNode} {path : SandboxPath} {node : Node} :
    getNode root path = .ok node ↔ (FileTree.directory root).at? path.parts = some node := by
  simp only [getNode, Except.bind_eq_ok_iff]
  constructor
  · rintro ⟨found, hfound, h⟩
    cases found with
    | none => simp at h
    | some n =>
      simp only [Except.ok.injEq] at h
      rw [← tryGetNode_eq_ok hfound, h]
  · intro h
    exact ⟨some node, descend_of_at? h, rfl⟩

theorem getParent_eq_ok_iff {root : DirectoryNode} {path : SandboxPath}
    (hpath : path.isRoot = false) {children : DirectoryNode} :
    getParent root path = .ok children ↔
      (FileTree.directory root).at? path.parts.dropLast = some (.directory children) := by
  simp only [getParent, Except.bind_eq_ok_iff, getNode_eq_ok_iff, (path.parent_spec hpath).2]
  constructor
  · rintro ⟨node, hnode, h⟩
    cases node with
    | file c => simp at h
    | directory cs =>
      simp only [Except.ok.injEq] at h
      rw [hnode, h]
  · intro h
    exact ⟨_, h, rfl⟩

@[simp] theorem requireFile_eq_ok {node : Node} {path : SandboxPath} {content : Bytes} :
    requireFile node path = .ok content ↔ node = .file content := by
  cases node <;> simp [requireFile]

/-! ## Section 4: What the copy checks -/

/-- The subdirectories of a directory, last first. -/
def subdirectories : DirectoryNode → List DirectoryNode
  | [] => []
  | (_, .file _) :: rest => subdirectories rest
  | (_, .directory children) :: rest => subdirectories rest ++ [children]

theorem length_subdirectories (source : DirectoryNode) :
    (subdirectories source).length ≤ source.length := by
  induction source with
  | nil => simp [subdirectories]
  | cons c source ih =>
    rcases c with ⟨name, child⟩
    cases child <;> simp [subdirectories] <;> omega

theorem cloneChildren_eq_ok {maxNodes n : Nat} {source : DirectoryNode}
    {pending : List DirectoryNode} {out : Nat × List DirectoryNode} :
    cloneChildren maxNodes source (n, pending) = .ok out ↔
      (n + source.length ≤ maxNodes ∨ source = []) ∧
        out = (n + source.length, subdirectories source ++ pending) := by
  induction source generalizing n pending with
  | nil => simp [cloneChildren, subdirectories, eq_comm]
  | cons c source ih =>
    unfold cloneChildren
    by_cases hlt : n + 1 > maxNodes
    · simp only [hlt, if_true, raise_ne_ok, List.length_cons, reduceCtorEq, or_false, false_iff,
        not_and]
      omega
    · have hle : (n + 1 + source.length ≤ maxNodes ∨ source = []) ↔
          n + (source.length + 1) ≤ maxNodes := by
        cases source with
        | nil => simp; omega
        | cons => simp only [reduceCtorEq, or_false]; omega
      rcases c with ⟨name, child⟩
      cases child with
      | file c =>
        simp only [hlt, if_false, ih, hle, List.length_cons, reduceCtorEq, or_false]
        rw [show n + (source.length + 1) = n + 1 + source.length by omega]
        simp [subdirectories]
      | directory cs =>
        simp only [hlt, if_false, ih, hle, List.length_cons, reduceCtorEq, or_false]
        rw [show n + (source.length + 1) = n + 1 + source.length by omega]
        simp [subdirectories]

/-- The nodes strictly below the directories of a worklist. -/
def pendingBelow (pending : List DirectoryNode) : Nat :=
  (pending.map fun children => FileTree.countAll children).sum

theorem pendingBelow_append (p q : List DirectoryNode) :
    pendingBelow (p ++ q) = pendingBelow p + pendingBelow q := by
  simp [pendingBelow]

theorem countAll_eq (source : DirectoryNode) :
    FileTree.countAll source = source.length + pendingBelow (subdirectories source) := by
  induction source with
  | nil => rfl
  | cons c source ih =>
    rcases c with ⟨name, child⟩
    rw [FileTree.countAll, ih]
    cases child with
    | file c => simp [subdirectories]; omega
    | directory cs =>
      simp only [FileTree.count, subdirectories, pendingBelow_append, List.length_cons]
      simp only [pendingBelow, List.map_cons, List.map_nil, List.sum_cons, List.sum_nil]
      omega

theorem cloneLoop_eq_ok {maxNodes fuel n : Nat} {pending : List DirectoryNode} {u : Unit}
    (hfuel : pending.length + pendingBelow pending ≤ fuel) :
    cloneLoop maxNodes fuel pending n = .ok u ↔
      n + pendingBelow pending ≤ maxNodes ∨ pendingBelow pending = 0 := by
  induction fuel generalizing pending n with
  | zero =>
    cases pending with
    | nil => simp [cloneLoop, pendingBelow]
    | cons => simp at hfuel
  | succ fuel ih =>
    cases pending with
    | nil => simp [cloneLoop, pendingBelow]
    | cons source pending =>
      have hcount := countAll_eq source
      have hle := length_subdirectories source
      have hbelow : pendingBelow (source :: pending) =
          FileTree.countAll source + pendingBelow pending := rfl
      simp only [cloneLoop, Except.bind_eq_ok_iff, cloneChildren_eq_ok]
      rw [hbelow] at hfuel ⊢
      rw [List.length_cons] at hfuel
      constructor
      · rintro ⟨⟨m, rest⟩, ⟨hm, heq⟩, hloop⟩
        rw [Prod.mk.injEq] at heq
        obtain ⟨rfl, rfl⟩ := heq
        rw [ih (by rw [List.length_append, pendingBelow_append]; omega),
          pendingBelow_append] at hloop
        rcases hm with hm | rfl
        · omega
        · simp [FileTree.countAll, subdirectories, pendingBelow] at hloop ⊢
          omega
      · intro h
        refine ⟨_, ⟨?_, rfl⟩, ?_⟩
        · cases source with
          | nil => exact .inr rfl
          | cons => rw [List.length_cons] at hcount ⊢; omega
        · rw [ih (by rw [List.length_append, pendingBelow_append]; omega),
            pendingBelow_append]
          cases source with
          | nil => simp [FileTree.countAll, subdirectories, pendingBelow] at h ⊢; omega
          | cons => rw [List.length_cons] at hcount ⊢; omega

/-- A copy is the node itself; it is refused when a directory holds too many nodes. -/
theorem cloneNode_eq_ok {node out : Node} {maxNodes : Nat} :
    cloneNode node maxNodes = .ok out ↔
      (node.count ≤ maxNodes ∨ node.count = 1) ∧ out = node := by
  cases node with
  | file c => simp [cloneNode, eq_comm]
  | directory cs =>
    have hcount : FileTree.count (.directory cs) = 1 + FileTree.countAll cs := by
      rw [FileTree.count]
    have hloop : ∀ u, cloneLoop maxNodes (FileTree.count (.directory cs)) [cs] 1 = .ok u ↔
        1 + FileTree.countAll cs ≤ maxNodes ∨ FileTree.countAll cs = 0 := by
      intro u
      rw [cloneLoop_eq_ok (by simp [pendingBelow, hcount])]
      simp [pendingBelow]
    simp only [cloneNode, Except.bind_eq_ok_iff, hloop, Except.ok.injEq, exists_const]
    rw [hcount]
    constructor
    · rintro ⟨h, rfl⟩
      exact ⟨by omega, rfl⟩
    · rintro ⟨h, rfl⟩
      exact ⟨by omega, rfl⟩

theorem cloneDirectory_eq_ok {directory out : DirectoryNode} {maxNodes : Nat} :
    cloneDirectory directory maxNodes = .ok out ↔
      (FileTree.count (.directory directory) ≤ maxNodes ∨
        FileTree.count (.directory directory) = 1) ∧ out = directory := by
  simp only [cloneDirectory, Except.bind_eq_ok_iff, cloneNode_eq_ok]
  constructor
  · rintro ⟨node, ⟨h, rfl⟩, hout⟩
    exact ⟨h, (Except.ok.inj hout).symm⟩
  · rintro ⟨h, rfl⟩
    exact ⟨_, ⟨h, rfl⟩, rfl⟩

/-! ## Section 5: What the creation of parents does -/

/-- The parents are directories afterwards, and nothing else moved. -/
theorem ensureSegments_view {limits : WorkspaceLimits} {createParents : Bool}
    {traversed : SandboxPath} {p : List Text} {node node' : DirectoryNode}
    (h : ensureSegments limits createParents traversed p node = .ok node') (q : List Text) :
    (FileTree.directory node').view q =
      if q <+: p then some .directory else (FileTree.directory node).view q := by
  induction p generalizing traversed node node' q with
  | nil =>
    simp only [ensureSegments, Except.ok.injEq] at h
    subst h
    cases q <;> simp
  | cons s p ih =>
    have key : ∀ inner inner' traversed',
        ensureSegments limits createParents traversed' p inner = .ok inner' →
        (∀ q, (Dict.get? s node).bind (FileTree.view · q) = if Dict.get? s node = none then none
          else (FileTree.directory inner).view q) →
        (Dict.get? s node = none → inner = []) →
        Dict.set s (.directory inner') node = node' →
        (FileTree.directory node').view q =
          if q <+: s :: p then some .directory else (FileTree.directory node).view q := by
      intro inner inner' traversed' hinner hget hempty hset
      subst hset
      rw [FileTree.view_set]
      cases q with
      | nil => simp [View.graft]
      | cons k q =>
        by_cases hk : k = s
        · subst hk
          rw [View.graft, if_pos (by simp)]
          simp only [List.length_cons, List.length_nil, List.drop_succ_cons, List.drop_zero,
            List.cons_prefix_cons, true_and]
          rw [ih hinner, FileTree.view_directory_cons, hget]
          by_cases hnone : Dict.get? k node = none
          · rw [hempty hnone, if_pos hnone]
            cases q <;> simp [FileTree.view_directory_cons]
          · rw [if_neg hnone]
        · rw [View.graft_of_not_below (by simp [Ne.symm hk])]
          simp [hk]
    simp only [ensureSegments, Except.bind_eq_ok_iff] at h
    obtain ⟨traversed', -, h⟩ := h
    cases hs : Dict.get? s node with
    | none =>
      simp only [hs] at h
      cases createParents with
      | false => simp at h
      | true =>
        simp only [if_true, Except.bind_eq_ok_iff, Except.ok.injEq] at h
        obtain ⟨inner', hinner, hset⟩ := h
        exact key [] inner' traversed' hinner (by simp [hs]) (fun _ => rfl) hset
    | some child =>
      cases child with
      | file c => simp [hs] at h
      | directory cs =>
        simp only [hs, Except.bind_eq_ok_iff, Except.ok.injEq] at h
        obtain ⟨inner', hinner, hset⟩ := h
        exact key cs inner' traversed' hinner (by simp [hs]) (by simp [hs]) hset

/-- Without leave to create parents, they were all there. -/
theorem ensureSegments_existing {limits : WorkspaceLimits} {traversed : SandboxPath}
    {p : List Text} {node node' : DirectoryNode}
    (h : ensureSegments limits false traversed p node = .ok node') :
    ∀ q, q <+: p → (FileTree.directory node).view q = some .directory := by
  induction p generalizing traversed node node' with
  | nil =>
    intro q hq
    rw [List.prefix_nil.mp hq]
    simp
  | cons s p ih =>
    simp only [ensureSegments, Except.bind_eq_ok_iff, Bool.false_eq_true, if_false] at h
    obtain ⟨traversed', -, h⟩ := h
    cases hs : Dict.get? s node with
    | none => simp [hs] at h
    | some child =>
      cases child with
      | file c => simp [hs] at h
      | directory cs =>
        simp only [hs, Except.bind_eq_ok_iff, Except.ok.injEq] at h
        obtain ⟨inner', hinner, -⟩ := h
        intro q hq
        cases q with
        | nil => simp
        | cons k q =>
          obtain ⟨rfl, hbelow⟩ := List.cons_prefix_cons.mp hq
          rw [FileTree.view_directory_cons, hs]
          exact ih hinner q hbelow

/-- No parent was a file. -/
theorem ensureSegments_no_file {limits : WorkspaceLimits} {createParents : Bool}
    {traversed : SandboxPath} {p : List Text} {node node' : DirectoryNode}
    (h : ensureSegments limits createParents traversed p node = .ok node') :
    ∀ q c, q <+: p → (FileTree.directory node).view q ≠ some (.file c) := by
  induction p generalizing traversed node node' with
  | nil =>
    intro q c hq
    rw [List.prefix_nil.mp hq]
    simp
  | cons s p ih =>
    simp only [ensureSegments, Except.bind_eq_ok_iff] at h
    obtain ⟨traversed', -, h⟩ := h
    intro q c hq
    cases q with
    | nil => simp
    | cons k q =>
      obtain ⟨rfl, hbelow⟩ := List.cons_prefix_cons.mp hq
      rw [FileTree.view_directory_cons]
      cases hs : Dict.get? k node with
      | none => simp
      | some child =>
        cases child with
        | file c => simp [hs] at h
        | directory cs =>
          simp only [hs, Except.bind_eq_ok_iff, Except.ok.injEq] at h
          obtain ⟨inner', hinner, -⟩ := h
          exact ih hinner q c hbelow

theorem ensureSegments_wellFormed {P : Text → Prop} {limits : WorkspaceLimits}
    {createParents : Bool} {traversed : SandboxPath} {p : List Text} {node node' : DirectoryNode}
    (hp : ∀ s ∈ p, P s) (hnode : (FileTree.directory node).WellFormed P)
    (h : ensureSegments limits createParents traversed p node = .ok node') :
    (FileTree.directory node').WellFormed P := by
  induction p generalizing traversed node node' with
  | nil =>
    simp only [ensureSegments, Except.ok.injEq] at h
    exact h ▸ hnode
  | cons s p ih =>
    obtain ⟨hs, hp⟩ := List.forall_mem_cons.mp hp
    simp only [ensureSegments, Except.bind_eq_ok_iff] at h
    obtain ⟨traversed', -, h⟩ := h
    cases hget : Dict.get? s node with
    | none =>
      simp only [hget] at h
      cases createParents with
      | false => simp at h
      | true =>
        simp only [if_true, Except.bind_eq_ok_iff, Except.ok.injEq] at h
        obtain ⟨inner', hinner, rfl⟩ := h
        exact hnode.set hs (ih hp .empty hinner)
    | some child =>
      cases child with
      | file c => simp [hget] at h
      | directory cs =>
        simp only [hget, Except.bind_eq_ok_iff, Except.ok.injEq] at h
        obtain ⟨inner', hinner, rfl⟩ := h
        exact hnode.set hs (ih hp (hnode.subtrees _ (Dict.mem_of_get? hget)) hinner)

end Node
