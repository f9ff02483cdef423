import MemSandbox.Workspace.Runs

/-! # Moves and copies

    `move` does what `copy` and a recursive `remove` of the source do, one
    after the other.  The trees are the same because an assignment and a
    deletion that do not overlap commute; the errors are the same because the
    measure of the copy fails where the measure of the move does, the source
    being measured where it stood.

    * **Section 1** what `_measure_node` raises;
    * **Section 2** the steps that the two methods share;
    * **Section 3** the law. -/

open Python FileMap Node PostOrder

namespace Node

/-! ## Section 1: What the measure raises -/

/-- What `hash_directory` raises at a name. -/
def badName (name : Text) : Option PyError :=
  failure (encode name >>= fun bytes => toBytes4 bytes.length)

theorem failure_childBytes (hashes : List ChildHash) :
    failure (childBytes hashes) = hashes.findSome? fun c => badName c.1 := by
  induction hashes with
  | nil => rfl
  | cons c hashes ih =>
    obtain ⟨name, kind, contentHash⟩ := c
    rw [childBytes, List.findSome?_cons, badName, ← ih]
    cases encode name with
    | error e => rfl
    | ok nameBytes =>
      simp only [bind, Except.bind]
      cases toBytes4 nameBytes.length with
      | error e => rfl
      | ok length => cases childBytes hashes <;> rfl

variable [Sha256]

/-- The hash of a directory fails at its first bad name. -/
theorem failure_hashDirectory {hashes : List ChildHash}
    (h : (hashes.map Prod.fst).Pairwise (· < ·)) :
    failure (hashDirectory hashes) = hashes.findSome? fun c => badName c.1 := by
  have hsorted : sorted ChildHash.key hashes = hashes := by
    refine sorted_eq_self ((List.pairwise_map.mp h).imp fun hlt => ?_)
    exact le_of_lt (Prod.Lex.left _ _ hlt)
  rw [hashDirectory, hsorted, ← failure_childBytes]
  cases childBytes hashes <;> rfl

omit [Sha256] in
/-- The loop over the children goes through once every child has a result. -/
theorem sumChildren_of_some {look : Text → Option (Nat × Nat × ContentHash)} {cs : DirectoryNode}
    (h : ∀ c ∈ cs, (look c.1).isSome) (b n : Nat) (hashes : List ChildHash) :
    ∃ b' n' hashes', sumChildren look cs (b, n, hashes) = .ok (b', n', hashes ++ hashes') ∧
      hashes'.map Prod.fst = cs.map Prod.fst := by
  induction cs generalizing b n hashes with
  | nil => exact ⟨b, n, [], by rw [sumChildren, List.append_nil], rfl⟩
  | cons c cs ih =>
    obtain ⟨hlook, hcs⟩ := List.forall_mem_cons.mp h
    obtain ⟨⟨childBytes, childNodes, childHash⟩, hc⟩ := Option.isSome_iff_exists.mp hlook
    obtain ⟨b', n', hashes', hsum, hnames⟩ :=
      ih hcs (b + childBytes) (n + childNodes) (hashes ++ [(c.1, kind c.2, childHash)])
    refine ⟨b', n', (c.1, kind c.2, childHash) :: hashes', ?_, ?_⟩
    · rw [sumChildren, hc]
      show sumChildren look cs _ = _
      rw [hsum, List.append_assoc, List.singleton_append]
    · rw [List.map_cons, List.map_cons, hnames]

omit [Sha256] in
theorem sumChildren_congr {look look' : Text → Option (Nat × Nat × ContentHash)}
    {cs : DirectoryNode} (h : ∀ c ∈ cs, look c.1 = look' c.1) (sums : Nat × Nat × List ChildHash) :
    sumChildren look cs sums = sumChildren look' cs sums := by
  induction cs generalizing sums with
  | nil => rfl
  | cons c cs ih =>
    obtain ⟨hc, hcs⟩ := List.forall_mem_cons.mp h
    rw [sumChildren, sumChildren, hc]
    cases look' c.1 with
    | none => rfl
    | some result => exact ih hcs _

omit [Sha256] in
theorem joinChildren_eq_joinEach (limits : WorkspaceLimits) (path : SandboxPath)
    (cs : DirectoryNode) :
    joinChildren limits path cs =
      joinEach (fun path name => path.join name limits.maxPathBytes limits.maxSegmentBytes) path cs := by
  induction cs with
  | nil => rfl
  | cons c cs ih =>
    rw [joinChildren, joinEach, ih]
    rfl

/-- `_measure_node` joins the names last to first, and fails at a bad name. -/
theorem measureWalk_joins (limits : WorkspaceLimits) :
    (measureWalk limits).Joins (sorted Prod.fst)
      (fun path name => path.join name limits.maxPathBytes limits.maxSegmentBytes) badName where
  order_perm cs := sorted_perm _ cs
  order_erase cs k h := by
    rw [Dict.erase_eq_filter h]
    exact sorted_filter_of_nodup h _
  order_set cs k t h hk := by
    rw [Dict.set_eq_map h hk]
    refine sorted_map_of_nodup h fun c => ?_
    by_cases hc : c.1 = k
    · rw [if_pos hc, hc]
    · rw [if_neg hc]
  enter path cs := joinChildren_eq_joinEach limits path _
  leave cs look hcs hlook := by
    have hlooks : ∀ c ∈ sorted Prod.fst cs, (look c.1).isSome :=
      fun c hc => hlook c (mem_sorted.mp hc)
    obtain ⟨b, n, hashes, hsum, hnames⟩ := sumChildren_of_some hlooks 0 1 []
    have hleave : (measureWalk limits).leave cs look =
        (hashDirectory hashes >>= fun hash => .ok (b, n, hash)) := by
      show (sumChildren look (sorted Prod.fst cs) (0, 1, []) >>= _) = _
      rw [hsum]
      rfl
    have hordered : (hashes.map Prod.fst).Pairwise (· < ·) := by
      rw [hnames]
      exact List.pairwise_map.mpr (sorted_pairwise_lt hcs)
    have hfind : (hashes.findSome? fun c => badName c.1) =
        (sorted Prod.fst cs).findSome? fun c => badName c.1 := by
      have hhashes : (hashes.map Prod.fst).findSome? badName =
          ((sorted Prod.fst cs).map Prod.fst).findSome? badName := by
        rw [hnames]
      rwa [List.findSome?_map, List.findSome?_map] at hhashes
    rw [hleave, ← hfind, ← failure_hashDirectory hordered]
    cases hashDirectory hashes <;> rfl
  leave_congr cs look look' h := by
    show (sumChildren look (sorted Prod.fst cs) (0, 1, []) >>= _) =
      (sumChildren look' (sorted Prod.fst cs) (0, 1, []) >>= _)
    rw [sumChildren_congr fun c hc => h c (mem_sorted.mp hc)]

end Node

namespace Node

/-! ## Section 2: The steps that the two methods share -/

/-- The creation of parents leaves alone what is not on the way. -/
theorem ensureSegments_at? {limits : WorkspaceLimits} {createParents : Bool}
    {traversed : SandboxPath} {p q : List Text} {node node' : DirectoryNode}
    (h : ensureSegments limits createParents traversed p node = .ok node') (hq : ¬ q <+: p) :
    (FileTree.directory node').at? q = (FileTree.directory node).at? q := by
  induction p generalizing traversed q node node' with
  | nil =>
    cases h
    rfl
  | cons s p ih =>
    cases q with
    | nil => exact absurd List.nil_prefix hq
    | cons k q =>
      simp only [ensureSegments, Except.bind_eq_ok_iff] at h
      obtain ⟨traversed', -, h⟩ := h
      rw [FileTree.at?_directory_cons, FileTree.at?_directory_cons]
      by_cases hk : k = s
      · subst hk
        have hq' : ¬ q <+: p := fun hpre => hq (by simpa using hpre)
        cases hchild : Dict.get? k node with
        | none =>
          simp only [hchild] at h
          cases createParents with
          | false => simp at h
          | true =>
            simp only [if_true, Except.bind_eq_ok_iff, Except.ok.injEq] at h
            obtain ⟨inner', hinner, rfl⟩ := h
            rw [Dict.get?_set_self, Option.bind_some, ih hinner hq']
            cases q with
            | nil => exact absurd List.nil_prefix hq'
            | cons j q => simp [FileTree.at?_directory_cons]
        | some child =>
          cases child with
          | file c => simp [hchild] at h
          | directory cs =>
            simp only [hchild, Except.bind_eq_ok_iff, Except.ok.injEq] at h
            obtain ⟨inner', hinner, rfl⟩ := h
            rw [Dict.get?_set_self, Option.bind_some, Option.bind_some, ih hinner hq']
      · cases hchild : Dict.get? s node with
        | none =>
          simp only [hchild] at h
          cases createParents with
          | false => simp at h
          | true =>
            simp only [if_true, Except.bind_eq_ok_iff, Except.ok.injEq] at h
            obtain ⟨inner', -, rfl⟩ := h
            rw [Dict.get?_set_ne hk]
        | some child =>
          cases child with
          | file c => simp [hchild] at h
          | directory cs =>
            simp only [hchild, Except.bind_eq_ok_iff, Except.ok.injEq] at h
            obtain ⟨inner', -, rfl⟩ := h
            rw [Dict.get?_set_ne hk]

end Node

namespace MemoryWorkspace

variable [Sha256] {w : MemoryWorkspace}

/-- What both methods have found before they change the tree. -/
structure OpenTransfer where
  source : Node
  existing : Option Node
  previousHash : Option ContentHash
  root : DirectoryNode

/-- The first steps of `copy` and `move`. -/
def openTransfer (limits : WorkspaceLimits) (root : DirectoryNode) (source destination : SandboxPath)
    (overwrite : Bool) : Except PyError OpenTransfer := do
  validatePath limits source
  validatePath limits destination
  validateTransferPaths source destination
  let node ← getNode root source
  let existing ← tryGetNode root destination
  require (existing = none ∨ overwrite) .pathAlreadyExistsError
    (destination.value ++ py " already exists")
  let previousHash ← existingHash existing
  let root ← cloneDirectory root limits.maxNodes
  .ok ⟨node, existing, previousHash, root⟩

/-- The last steps of `copy` and `move`. -/
def finishTransfer (destination : SandboxPath) (found : OpenTransfer) (root : DirectoryNode) :
    Method WorkspaceMutation := do
  let nextState ← commit root
  let node ← getNode nextState.root destination
  let currentHash ← nodeHash node
  return {
    path := destination
    created := found.existing.isNone
    changed := true
    previousHash := found.previousHash
    currentHash := some currentHash
    stats := nextState.stats }

omit [Sha256] in
theorem lift_seq {α β γ : Type} (x : Except PyError α) (f : α → Except PyError β)
    (g : β → Method γ) :
    ((liftM (x >>= f) : Method β) >>= g) =
      (liftM x : Method α) >>= fun a => (liftM (f a) : Method β) >>= g := by
  funext s
  rw [Call.lift_bind_apply, Call.lift_bind_apply]
  cases x with
  | error e => rfl
  | ok a => exact (Call.lift_bind_apply (f a) g s).symm

theorem copy_steps (request : CopyPathRequest) :
    copy request w = ((do
      let found ← openTransfer w.limits w.state.root request.source request.destination
        request.overwrite
      let root ← ensureParent found.root request.destination request.createParents w.limits
      let source ← cloneNode found.source w.limits.maxNodes
      finishTransfer request.destination found (assignChild request.destination source root)) :
        Method WorkspaceMutation) w := by
  unfold copy openTransfer
  rw [Call.bind_of_ok (Call.get_apply w)]
  simp only [lift_seq]
  rfl

theorem move_steps (request : MovePathRequest) :
    move request w = ((do
      let found ← openTransfer w.limits w.state.root request.source request.destination
        request.overwrite
      let source ← getNode found.root request.source
      let root ← ensureParent found.root request.destination request.createParents w.limits
      let _ ← getParent root request.source
      finishTransfer request.destination found
        (assignChild request.destination source (deleteChild request.source root))) :
        Method WorkspaceMutation) w := by
  unfold move openTransfer
  rw [Call.bind_of_ok (Call.get_apply w)]
  simp only [lift_seq]
  rfl

/-- What the first steps check. -/
structure Opened (w : MemoryWorkspace) (source destination : SandboxPath) (found : OpenTransfer) :
    Prop where
  root : found.root = w.state.root
  source_valid : validatePath w.limits source = .ok ()
  destination_valid : validatePath w.limits destination = .ok ()
  source_below : source.isRoot = false
  destination_below : destination.isRoot = false
  not_within : ¬ source.parts <+: destination.parts
  not_around : ¬ destination.parts <+: source.parts
  source_node : (FileTree.directory w.state.root).at? source.parts = some found.source

theorem openTransfer_eq_ok (hw : Consistent w.limits w.state) {source destination : SandboxPath}
    {overwrite : Bool} {found : OpenTransfer}
    (h : openTransfer w.limits w.state.root source destination overwrite = .ok found) :
    Opened w source destination found := by
  simp only [openTransfer, Except.bind_eq_ok_iff] at h
  obtain ⟨_, hsource, _, hdestination, _, hpaths, node, hnode, existing, -, _, -, previousHash, -,
    root, hroot, hfound⟩ := h
  rw [hw.cloneDirectory] at hroot
  cases hroot
  cases hfound
  obtain ⟨hsbelow, hdbelow, hwithin, haround⟩ := validateTransferPaths_ok
    (validatePath_eq_ok.mp hsource).1 (validatePath_eq_ok.mp hdestination).1 hpaths
  exact {
    root := rfl
    source_valid := hsource
    destination_valid := hdestination
    source_below := hsbelow
    destination_below := hdbelow
    not_within := hwithin
    not_around := haround
    source_node := getNode_eq_ok_iff.mp hnode }

omit [Sha256] in
/-- The source has a directory for its parent, before and after the parents of
    the destination are made. -/
theorem Opened.source_parent {source destination : SandboxPath} {found : OpenTransfer}
    (h : Opened w source destination found) {createParents : Bool} {root : DirectoryNode}
    (hroot : ensureParent w.state.root destination createParents w.limits = .ok root) :
    (FileTree.directory root).at? source.parts = some found.source ∧
      ∃ parent, getParent root source = .ok parent := by
  have hat : (FileTree.directory root).at? source.parts = some found.source := by
    rw [← h.source_node]
    refine ensureSegments_at? hroot fun hpre => ?_
    exact h.not_within (hpre.trans (List.dropLast_prefix _))
  refine ⟨hat, ?_⟩
  rw [SandboxPath.parts_eq_concat h.source_below] at hat
  rw [FileTree.at?_append, Option.bind_eq_some_iff] at hat
  obtain ⟨parent, hparent, hname⟩ := hat
  obtain ⟨cs, rfl⟩ := directory_of_at? (p := []) hname
  exact ⟨cs, (getParent_eq_ok_iff h.source_below).mpr hparent⟩

/-- Both methods fail alike before the commit, or commit the same assignment,
    `move` after a deletion. -/
theorem transfer_cases (hw : Consistent w.limits w.state) (source destination : SandboxPath)
    (overwrite createParents : Bool) :
    (∃ e, copy { source, destination, overwrite, createParents } w = (.error e, w) ∧
      move { source, destination, overwrite, createParents } w = (.error e, w)) ∨
    ∃ found root, Opened w source destination found ∧
      ensureParent w.state.root destination createParents w.limits = .ok root ∧
      copy { source, destination, overwrite, createParents } w =
        finishTransfer destination found (assignChild destination found.source root) w ∧
      move { source, destination, overwrite, createParents } w =
        finishTransfer destination found
          (assignChild destination found.source (deleteChild source root)) w := by
  rw [copy_steps, move_steps]
  dsimp only
  cases hopen : openTransfer w.limits w.state.root source destination overwrite with
  | error e => exact .inl ⟨e, Call.bind_of_error rfl, Call.bind_of_error rfl⟩
  | ok found =>
    have hopened := openTransfer_eq_ok hw hopen
    have hnode : getNode found.root source = .ok found.source := by
      rw [hopened.root]
      exact getNode_eq_ok_iff.mpr hopened.source_node
    rw [Call.lift_bind_of_ok rfl, Call.lift_bind_of_ok rfl, Call.lift_bind_of_ok hnode,
      hopened.root]
    cases hensure : ensureParent w.state.root destination createParents w.limits with
    | error e => exact .inl ⟨e, Call.bind_of_error rfl, Call.bind_of_error rfl⟩
    | ok root =>
      obtain ⟨-, parent, hparent⟩ := hopened.source_parent hensure
      have hclone : cloneNode found.source w.limits.maxNodes = .ok found.source := by
        refine cloneNode_eq_ok.mpr ⟨.inl ?_, rfl⟩
        have hcount := FileTree.count_at?_le hopened.source_node
        have hle := hw.nodeCount_le
        rw [hw.nodeCount] at hle
        exact hcount.trans hle
      refine .inr ⟨found, root, hopened, rfl, ?_, ?_⟩
      · rw [Call.lift_bind_of_ok rfl, Call.lift_bind_of_ok hclone]
      · rw [Call.lift_bind_of_ok rfl, Call.lift_bind_of_ok hparent]

/-- A tree that the state refuses is not committed. -/
theorem finishTransfer_of_error {destination : SandboxPath} {found : OpenTransfer}
    {root : DirectoryNode} {e : PyError}
    (h : stateForRoot w.limits root (w.state.stats.revision + 1) = .error e) :
    finishTransfer destination found root w = (.error e, w) := by
  have hcommit := commit_apply root w
  rw [h] at hcommit
  exact Call.bind_of_error hcommit

/-- A tree that the state accepts is committed, and holds the destination. -/
theorem finishTransfer_of_ok {destination : SandboxPath} (found : OpenTransfer)
    {root : DirectoryNode} (hroot : (FileTree.directory root).WellFormed LooseName)
    {node : Node} (hnode : (FileTree.directory root).at? destination.parts = some node)
    {state : WorkspaceState}
    (h : stateForRoot w.limits root (w.state.stats.revision + 1) = .ok state) :
    ∃ m, finishTransfer destination found root w = (.ok m, { w with state }) := by
  have hcommit := commit_apply root w
  rw [h] at hcommit
  obtain ⟨rfl, -, hcons⟩ := (stateForRoot_eq_ok hroot).mp h
  obtain ⟨hash, hhash, -⟩ := hcons.nodeHash hnode
  unfold finishTransfer
  rw [Call.bind_of_ok hcommit, Call.lift_bind_of_ok (getNode_eq_ok_iff.mpr hnode),
    Call.lift_bind_of_ok hhash]
  exact ⟨_, rfl⟩

/-! ## Section 3: The law -/

/-- The trees that the two methods commit. -/
structure TransferTrees (source destination : SandboxPath) (node : Node)
    (copied moved : DirectoryNode) : Prop where
  copied_wellFormed : (FileTree.directory copied).WellFormed SandboxPath.ValidSegment
  copied_source : (FileTree.directory copied).at? source.parts = some node
  copied_destination : (FileTree.directory copied).at? destination.parts = some node
  moved_destination : (FileTree.directory moved).at? destination.parts = some node
  /-- The move deletes the source from what the copy has. -/
  moved_eq : moved = deleteChild source copied

theorem transferTrees (hw : Consistent w.limits w.state) {source destination : SandboxPath}
    {found : OpenTransfer} (h : Opened w source destination found) {createParents : Bool}
    {root : DirectoryNode}
    (hroot : ensureParent w.state.root destination createParents w.limits = .ok root) :
    TransferTrees source destination found.source (assignChild destination found.source root)
      (assignChild destination found.source (deleteChild source root)) := by
  obtain ⟨hat, -⟩ := h.source_parent hroot
  obtain ⟨inner, hinner⟩ := ensureParent_parent hroot
  have hvalid := (SandboxPath.value_eq_render (validatePath_eq_ok.mp h.destination_valid).1).2
  have hs := SandboxPath.parts_eq_concat h.source_below
  have hd := SandboxPath.parts_eq_concat h.destination_below
  have hwithin : ¬ source.parts.dropLast ++ [source.name] <+:
      destination.parts.dropLast ++ [destination.name] := by
    rw [← hs, ← hd]
    exact h.not_within
  have haround : ¬ destination.parts.dropLast ++ [destination.name] <+:
      source.parts.dropLast ++ [source.name] := by
    rw [← hs, ← hd]
    exact h.not_around
  have hmoved : assignChild destination found.source (deleteChild source root) =
      deleteChild source (assignChild destination found.source root) :=
    FileTree.modifyAt_set_erase haround hwithin found.source root
  have hdestination : (FileTree.directory (assignChild destination found.source root)).at?
      destination.parts = some found.source := by
    rw [hd]
    exact FileTree.at?_modifyAt_set_self found.source hinner
  have hset : ∀ j, j ≠ destination.name → ∀ cs,
      Dict.get? j (Dict.set destination.name found.source cs) = Dict.get? j cs :=
    fun j hj cs => Dict.get?_set_ne hj found.source cs
  have herase : ∀ j, j ≠ source.name → ∀ cs : DirectoryNode,
      Dict.get? j (Dict.erase source.name cs) = Dict.get? j cs :=
    fun j hj cs => Dict.get?_erase_of_ne hj cs
  refine ⟨?_, ?_, hdestination, ?_, hmoved⟩
  · exact assignChild_wellFormed h.destination_below hvalid
      (ensureParent_wellFormed hvalid hw.wellFormed hroot) (hw.wellFormed.at? h.source_node)
  · rw [← hat, hs]
    exact FileTree.at?_modifyAt_of_apart hset haround hwithin root
  · rw [hmoved, ← hdestination, hd]
    exact FileTree.at?_modifyAt_of_apart herase hwithin haround _

/-- The measure of the moved tree fails where that of the copied tree does: the
    source did not fail where it stood. -/
theorem failure_measure (hw : Consistent w.limits w.state) {source destination : SandboxPath}
    {found : OpenTransfer} (h : Opened w source destination found) {copied moved : DirectoryNode}
    (ht : TransferTrees source destination found.source copied moved) :
    failure (measureNode (.directory moved) .root w.limits) =
      failure (measureNode (.directory copied) .root w.limits) := by
  have hmeasured : failure (measureNode (.directory w.state.root) .root w.limits) = none := by
    have hstate : stateForRoot w.limits w.state.root w.state.stats.revision = .ok w.state :=
      (stateForRoot_eq_ok (looseName_of_valid hw.wellFormed)).mpr ⟨rfl, rfl, hw⟩
    simp only [stateForRoot, Except.bind_eq_ok_iff] at hstate
    obtain ⟨result, hresult, -⟩ := hstate
    exact failure_eq_none.mpr ⟨result, hresult⟩
  have hs := SandboxPath.parts_eq_concat h.source_below
  have hnode := h.source_node
  have hcopied := ht.copied_source
  rw [hs] at hnode hcopied
  rw [ht.moved_eq]
  exact failure_erase (measureWalk_joins w.limits) hw.wellFormed ht.copied_wellFormed hnode hcopied
    hmeasured

/-- The moved tree is accepted wherever the copied one is. -/
theorem stateForRoot_moved (hw : Consistent w.limits w.state) {source destination : SandboxPath}
    {found : OpenTransfer} (h : Opened w source destination found) {copied moved : DirectoryNode}
    (ht : TransferTrees source destination found.source copied moved) {revision : Revision}
    {state : WorkspaceState} (hcopied : stateForRoot w.limits copied revision = .ok state)
    (next : Revision) : ∃ state', stateForRoot w.limits moved next = .ok state' := by
  simp only [stateForRoot, Except.bind_eq_ok_iff, require_eq_ok] at hcopied
  obtain ⟨⟨totalBytes, nodeCount, rootHash⟩, hmeasure, -, htotal, -, hnodes, -⟩ := hcopied
  have hmovedWell : (FileTree.directory moved).WellFormed LooseName := by
    rw [ht.moved_eq]
    exact looseName_of_valid (deleteChild_wellFormed ht.copied_wellFormed)
  obtain ⟨-, rfl, rfl, -⟩ :=
    (measureNode_eq_ok (looseName_of_valid ht.copied_wellFormed)).mp hmeasure
  have hfailure := failure_measure hw h ht
  rw [failure_eq_none.mpr ⟨_, hmeasure⟩] at hfailure
  obtain ⟨⟨totalBytes', nodeCount', rootHash'⟩, hmeasure'⟩ := failure_eq_none.mp hfailure
  obtain ⟨-, rfl, rfl, -⟩ := (measureNode_eq_ok hmovedWell).mp hmeasure'
  -- without the source there are no more bytes and no more nodes
  have htotal' : (FileTree.directory moved).total List.length ≤
      (FileTree.directory copied).total List.length := by
    rw [ht.moved_eq]
    have hbase : ∀ cs : DirectoryNode, (FileTree.directory cs).total List.length =
        0 + (cs.map fun c => c.2.total List.length).sum := by
      intro cs
      rw [FileTree.total_directory, Nat.zero_add]
    exact FileTree.measure_erase_le hbase source.name source.parts.dropLast copied
  have hnodes' : (FileTree.directory moved).count ≤ (FileTree.directory copied).count := by
    rw [ht.moved_eq]
    exact FileTree.measure_erase_le FileTree.count_directory source.name source.parts.dropLast copied
  refine ⟨⟨moved, ⟨(FileTree.directory moved).total List.length, (FileTree.directory moved).count,
    next, rootHash'⟩⟩, ?_⟩
  simp only [stateForRoot, Except.bind_eq_ok_iff, require_eq_ok]
  exact ⟨_, hmeasure', (), htotal'.trans htotal, (), hnodes'.trans hnodes, rfl⟩

/-- Where the moved tree is refused, the limits on bytes and nodes apart, the
    copied one is refused alike. -/
theorem stateForRoot_copied (hw : Consistent w.limits w.state) {source destination : SandboxPath}
    {found : OpenTransfer} (h : Opened w source destination found) {copied moved : DirectoryNode}
    (ht : TransferTrees source destination found.source copied moved) {revision : Revision}
    {e : PyError} (hmoved : stateForRoot w.limits moved revision = .error e)
    (htotal : e.cls ≠ .workspaceSizeLimitExceededError) (hnodes : e.cls ≠ .nodeLimitExceededError)
    (next : Revision) : stateForRoot w.limits copied next = .error e := by
  have hfailure := failure_measure hw h ht
  cases hmeasure : measureNode (.directory moved) .root w.limits with
  | error e' =>
    have he : e' = e := by
      rw [stateForRoot, hmeasure] at hmoved
      exact Except.error.inj hmoved
    subst he
    rw [hmeasure] at hfailure
    rw [stateForRoot, failure_eq_some.mp hfailure.symm]
    rfl
  | ok result =>
    exfalso
    obtain ⟨totalBytes, nodeCount, rootHash⟩ := result
    rw [stateForRoot, hmeasure] at hmoved
    simp only [bind, Except.bind] at hmoved
    by_cases hbytes : totalBytes ≤ w.limits.maxTotalBytes
    · rw [require, if_pos hbytes] at hmoved
      by_cases hcount : nodeCount ≤ w.limits.maxNodes
      · rw [require, if_pos hcount] at hmoved
        cases hmoved
      · rw [require, if_neg hcount] at hmoved
        exact hnodes (congrArg PyError.cls (Except.error.inj hmoved)).symm
    · rw [require, if_neg hbytes] at hmoved
      exact htotal (congrArg PyError.cls (Except.error.inj hmoved)).symm

/-- The removal of a source that is there, when the state accepts what is left. -/
theorem remove_of_accepted {w : MemoryWorkspace} (hw : Consistent w.limits w.state)
    {source : SandboxPath} (hvalid : validatePath w.limits source = .ok ())
    (hbelow : source.isRoot = false) {node : Node}
    (hnode : (FileTree.directory w.state.root).at? source.parts = some node) {state : WorkspaceState}
    (hstate : stateForRoot w.limits (deleteChild source w.state.root)
      (w.state.stats.revision + 1) = .ok state) :
    ∃ m, remove { path := source, recursive := true } w = (.ok m, { w with state }) := by
  have hfound : tryGetNode w.state.root source = .ok (some node) := by
    have hget := getNode_eq_ok_iff.mpr hnode
    simp only [getNode, Except.bind_eq_ok_iff] at hget
    obtain ⟨found, hfound, -⟩ := hget
    rw [hfound, tryGetNode_eq_ok hfound, hnode]
  obtain ⟨hash, hhash, -⟩ := hw.nodeHash hnode
  have hempty : require (isNonEmptyDirectory node = false ∨ true = true) .directoryNotEmptyError
      (source.value ++ py " is not empty") = .ok () := require_eq_ok.mpr (.inr rfl)
  have hnotRoot : require (source.isRoot = false) .rootModificationError
      (py "the workspace root cannot be removed") = .ok () := require_eq_ok.mpr hbelow
  have hparent : ∃ parent, getParent w.state.root source = .ok parent := by
    rw [SandboxPath.parts_eq_concat hbelow, FileTree.at?_append, Option.bind_eq_some_iff] at hnode
    obtain ⟨parent, hparent, hname⟩ := hnode
    obtain ⟨cs, rfl⟩ := directory_of_at? (p := []) hname
    exact ⟨cs, (getParent_eq_ok_iff hbelow).mpr hparent⟩
  obtain ⟨parent, hparent⟩ := hparent
  have hcommit := commit_apply (deleteChild source w.state.root) w
  rw [hstate] at hcommit
  unfold remove
  rw [Call.bind_of_ok (Call.get_apply w), Call.lift_bind_of_ok hvalid,
    Call.lift_bind_of_ok hnotRoot, Call.lift_bind_of_ok hfound]
  dsimp only
  rw [Call.lift_bind_of_ok hempty, Call.lift_bind_of_ok hhash,
    Call.lift_bind_of_ok hw.cloneDirectory, Call.lift_bind_of_ok hparent, Call.bind_of_ok hcommit]
  exact ⟨_, rfl⟩

/-- A move does what a copy and a recursive removal of the source do, and fails
    as the copy does, the limits on bytes and nodes apart. -/
theorem move_eq_copy_remove [UnicodeData] {limits : WorkspaceLimits}
    (hw : (system limits).Reachable w) (source destination : SandboxPath)
    (overwrite createParents : Bool) :
    (∀ m copied, copy { source, destination, overwrite, createParents } w = (.ok m, copied) →
      ∃ m₁ removed m₂ moved,
        remove { path := source, recursive := true } copied = (.ok m₁, removed) ∧
        move { source, destination, overwrite, createParents } w = (.ok m₂, moved) ∧
        removed.state.root = moved.state.root ∧
        removed.state.stats.rootHash = moved.state.stats.rootHash) ∧
    ∀ e w', move { source, destination, overwrite, createParents } w = (.error e, w') →
      e.cls ≠ .workspaceSizeLimitExceededError → e.cls ≠ .nodeLimitExceededError →
        copy { source, destination, overwrite, createParents } w = (.error e, w) := by
  obtain ⟨hsound, -⟩ := reachable_sound hw
  have hcons := hsound.state
  rcases transfer_cases hcons source destination overwrite createParents with
    ⟨e, hcopy, hmove⟩ | ⟨found, root, hopened, hroot, hcopy, hmove⟩
  · rw [hcopy, hmove]
    refine ⟨nofun, fun e' w' h _ _ => ?_⟩
    cases h
    rfl
  · have htrees := transferTrees hcons hopened hroot
    have hcopiedWell := looseName_of_valid htrees.copied_wellFormed
    have hmovedWell : (FileTree.directory (assignChild destination found.source
        (deleteChild source root))).WellFormed LooseName := by
      rw [htrees.moved_eq]
      exact looseName_of_valid (deleteChild_wellFormed htrees.copied_wellFormed)
    rw [hcopy, hmove]
    constructor
    · intro m copied h
      cases hstate : stateForRoot w.limits (assignChild destination found.source root)
          (w.state.stats.revision + 1) with
      | error e =>
        rw [finishTransfer_of_error hstate] at h
        cases h
      | ok state =>
        obtain ⟨m', hfinish⟩ :=
          finishTransfer_of_ok found hcopiedWell htrees.copied_destination hstate
        rw [hfinish] at h
        obtain ⟨-, rfl⟩ := Prod.mk.inj h
        obtain ⟨hstateRoot, hrevision, hstateCons⟩ := (stateForRoot_eq_ok hcopiedWell).mp hstate
        -- the removal commits the tree of the move under the revision after
        obtain ⟨state₁, hstate₁⟩ := stateForRoot_moved hcons hopened htrees hstate
          (state.stats.revision + 1)
        obtain ⟨state₂, hstate₂⟩ := stateForRoot_moved hcons hopened htrees hstate
          (w.state.stats.revision + 1)
        obtain ⟨hroot₁, -, hcons₁⟩ := (stateForRoot_eq_ok hmovedWell).mp hstate₁
        obtain ⟨hroot₂, -, hcons₂⟩ := (stateForRoot_eq_ok hmovedWell).mp hstate₂
        have hnode : (FileTree.directory state.root).at? source.parts = some found.source := by
          rw [hstateRoot]
          exact htrees.copied_source
        have hleft : stateForRoot w.limits (deleteChild source state.root)
            (state.stats.revision + 1) = .ok state₁ := by
          rw [hstateRoot, ← htrees.moved_eq]
          exact hstate₁
        obtain ⟨m₁, hremove⟩ := remove_of_accepted (w := { w with state }) hstateCons
          hopened.source_valid hopened.source_below hnode hleft
        obtain ⟨m₂, hmoved⟩ :=
          finishTransfer_of_ok found hmovedWell htrees.moved_destination hstate₂
        refine ⟨m₁, _, m₂, _, hremove, hmoved, hroot₁.trans hroot₂.symm, ?_⟩
        have hhash := hcons₁.rootHash
        rw [hroot₁, ← hroot₂, hcons₂.rootHash] at hhash
        exact (Option.some.inj hhash).symm
    · intro e w' h htotal hnodes
      cases hstate : stateForRoot w.limits (assignChild destination found.source
          (deleteChild source root)) (w.state.stats.revision + 1) with
      | ok state =>
        obtain ⟨m', hfinish⟩ :=
          finishTransfer_of_ok found hmovedWell htrees.moved_destination hstate
        rw [hfinish] at h
        cases h
      | error e' =>
        rw [finishTransfer_of_error hstate] at h
        cases h
        exact finishTransfer_of_error (stateForRoot_copied hcons hopened htrees hstate htotal hnodes _)

end MemoryWorkspace

namespace MemoryWorkspace

open NewWorkspace

/-- A file of a new workspace, and where it goes. -/
def filePath : SandboxPath := ⟨py "/workspace/a", by decide⟩

def copyPath : SandboxPath := ⟨py "/workspace/d/b", by decide⟩

def writeFile : Request :=
  .write { path := filePath, content := [7], precondition := .pathMustNotExist }

/-- The workspace that holds the file. -/
def fileWorkspace : MemoryWorkspace := (writeFile.call (NewWorkspace.workspace .default)).2

theorem reachable_fileWorkspace : (system .default).Reachable fileWorkspace :=
  .step (l := .request writeFile) (NewWorkspace.reachable .default) rfl

/-- The file goes to a directory that is made for it. -/
theorem move_eq_copy_remove_file :
    ∃ m copied m₁ removed m₂ moved,
      copy ⟨filePath, copyPath, false, true⟩ fileWorkspace = (.ok m, copied) ∧
      remove { path := filePath, recursive := true } copied = (.ok m₁, removed) ∧
      move ⟨filePath, copyPath, false, true⟩ fileWorkspace = (.ok m₂, moved) ∧
      removed.state.root = moved.state.root := by
  have hcopies : (copy ⟨filePath, copyPath, false, true⟩ fileWorkspace).1.toOption.isSome = true := by
    decide +kernel
  rcases hcopy : copy ⟨filePath, copyPath, false, true⟩ fileWorkspace with ⟨e | m, copied⟩
  · rw [hcopy] at hcopies
    cases hcopies
  · obtain ⟨m₁, removed, m₂, moved, hremove, hmove, hroot, -⟩ :=
      (move_eq_copy_remove reachable_fileWorkspace filePath copyPath false true).1 m copied hcopy
    exact ⟨m, copied, m₁, removed, m₂, moved, rfl, hremove, hmove, hroot⟩

end MemoryWorkspace
