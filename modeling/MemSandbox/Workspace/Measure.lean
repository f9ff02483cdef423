import MemSandbox.Workspace.Nodes

/-! # Hashes and measures of a tree

    The iterative traversals `_node_hash` and `_measure_node` of
    `workspace/memory.py` and `_tree_node_hash` of
    `workspace/snapshot_tree.py`, and the recursive functions they compute. -/

open Python FileMap

namespace Node

section Hashing

variable [Sha256]

/-- The error of `measured[id(child)]` when the child is missing. -/
def missingResult : PyError := ⟨.keyError, py "id(child)"⟩

/-- The loop of `_node_hash` over the children of a directory. -/
def readHashes (look : Text → Option ContentHash) :
    DirectoryNode → Except PyError (List ChildHash)
  | [] => .ok []
  | (name, child) :: rest =>
    match look name with
    | none => .error missingResult
    | some hash => do
      let tail ← readHashes look rest
      .ok ((name, kind child, hash) :: tail)

/-- The traversal of `_node_hash`. -/
def hashWalk : PostOrder Text Bytes Unit ContentHash PyError where
  leaf _ content := .ok (.fromBytes content)
  enter _ children := .ok (children.map fun c => (c.1, c.2, ()))
  leave children look := do
    let hashes ← readHashes look children
    hashDirectory hashes
  missing := missingResult

/-- `_node_hash`. -/
def nodeHash : Node → Except PyError ContentHash
  | .file content => .ok (.fromBytes content)
  | .directory children => hashWalk.exec () (.directory children)

/-- The loop of `_measure_node` over the sorted children of a directory. -/
def sumChildren (look : Text → Option (Nat × Nat × ContentHash)) :
    DirectoryNode → Nat × Nat × List ChildHash → Except PyError (Nat × Nat × List ChildHash)
  | [], sums => .ok sums
  | (name, child) :: rest, (totalBytes, nodeCount, childHashes) =>
    match look name with
    | none => .error missingResult
    | some (childBytes, childNodes, childHash) =>
      sumChildren look rest
        (totalBytes + childBytes, nodeCount + childNodes,
          childHashes ++ [(name, kind child, childHash)])

/-- The children of a directory with their paths, in the order `_measure_node` pushes them. -/
def joinChildren (limits : WorkspaceLimits) (path : SandboxPath) :
    DirectoryNode → Except PyError (List (Text × Node × SandboxPath))
  | [] => .ok []
  | (name, child) :: rest => do
    let childPath ← path.join name limits.maxPathBytes limits.maxSegmentBytes
    let tail ← joinChildren limits path rest
    .ok ((name, child, childPath) :: tail)

/-- The traversal of `_measure_node`. -/
def measureWalk (limits : WorkspaceLimits) :
    PostOrder Text Bytes SandboxPath (Nat × Nat × ContentHash) PyError where
  leaf path content := do
    let size := content.length
    require (size ≤ limits.maxFileBytes) .fileSizeLimitExceededError
      (path.value ++ py " contains " ++ Text.ofNat size ++ py " bytes; limit is " ++
        Text.ofNat limits.maxFileBytes ++ py " bytes")
    .ok (size, 1, .fromBytes content)
  enter path children := joinChildren limits path (sorted Prod.fst children).reverse
  leave children look := do
    let (totalBytes, nodeCount, childHashes) ←
      sumChildren look (sorted Prod.fst children) (0, 1, [])
    let hash ← hashDirectory childHashes
    .ok (totalBytes, nodeCount, hash)
  missing := missingResult

/-- `_measure_node`. -/
def measureNode (node : Node) (path : SandboxPath) (limits : WorkspaceLimits) :
    Except PyError (Nat × Nat × ContentHash) :=
  (measureWalk limits).exec path node

/-! ## Section 2: The recursive hash -/

mutual

/-- The hash of a tree, by recursion. -/
def treeHash : Node → Option ContentHash
  | .file content => some (.fromBytes content)
  | .directory children =>
    (childHashes children).bind fun hashes => (hashDirectory hashes).toOption

/-- The children of a directory with their hashes. -/
def childHashes : List (Text × FileTree Text Bytes) → Option (List ChildHash)
  | [] => some []
  | (name, child) :: rest =>
    match treeHash child, childHashes rest with
    | some hash, some tail => some ((name, kind child, hash) :: tail)
    | _, _ => none

end

@[simp] theorem treeHash_file (c : Bytes) : treeHash (.file c) = some (.fromBytes c) := by
  simp [treeHash]

theorem treeHash_directory (cs : DirectoryNode) :
    treeHash (.directory cs) =
      (childHashes cs).bind fun hashes => (hashDirectory hashes).toOption := by
  rw [treeHash]

theorem childHashes_cons_eq_some {c : Text × Node} {cs : DirectoryNode} {hs : List ChildHash} :
    childHashes (c :: cs) = some hs ↔
      ∃ hash tail, treeHash c.2 = some hash ∧ childHashes cs = some tail ∧
        hs = (c.1, kind c.2, hash) :: tail := by
  rw [childHashes]
  cases treeHash c.2 <;> cases childHashes cs <;> simp [eq_comm]

theorem childHashes_eq_none {c : Text × Node} {cs : DirectoryNode} (hc : c ∈ cs)
    (h : treeHash c.2 = none) : childHashes cs = none := by
  induction cs with
  | nil => cases hc
  | cons d cs ih =>
    by_contra hne
    obtain ⟨hs, hsome⟩ := Option.ne_none_iff_exists'.mp hne
    obtain ⟨hash, tail, hhash, htail, -⟩ := childHashes_cons_eq_some.mp hsome
    rcases List.mem_cons.mp hc with rfl | hc
    · rw [h] at hhash
      cases hhash
    · rw [ih hc] at htail
      cases htail

theorem childHashes_perm {cs cs' : DirectoryNode} (h : cs.Perm cs') {hs : List ChildHash}
    (hcs : childHashes cs = some hs) : ∃ hs', childHashes cs' = some hs' ∧ hs.Perm hs' := by
  induction h generalizing hs with
  | nil => exact ⟨hs, hcs, .refl _⟩
  | cons c _ ih =>
    obtain ⟨hash, tail, hhash, htail, rfl⟩ := childHashes_cons_eq_some.mp hcs
    obtain ⟨tail', htail', hperm⟩ := ih htail
    exact ⟨_, childHashes_cons_eq_some.mpr ⟨hash, tail', hhash, htail', rfl⟩, hperm.cons _⟩
  | swap c d cs =>
    obtain ⟨hash, tail, hhash, htail, rfl⟩ := childHashes_cons_eq_some.mp hcs
    obtain ⟨hash', tail', hhash', htail', rfl⟩ := childHashes_cons_eq_some.mp htail
    refine ⟨_, childHashes_cons_eq_some.mpr ⟨hash', _, hhash',
      childHashes_cons_eq_some.mpr ⟨hash, tail', hhash, htail', rfl⟩, rfl⟩, List.Perm.swap _ _ _⟩
  | trans _ _ ih₁ ih₂ =>
    obtain ⟨hs₁, h₁, hp₁⟩ := ih₁ hcs
    obtain ⟨hs₂, h₂, hp₂⟩ := ih₂ h₁
    exact ⟨hs₂, h₂, hp₁.trans hp₂⟩

/-- The hash of a directory does not depend on the order of its children. -/
theorem treeHash_perm {cs cs' : DirectoryNode} (h : cs.Perm cs') :
    treeHash (.directory cs) = treeHash (.directory cs') := by
  rw [treeHash_directory, treeHash_directory]
  cases hcs : childHashes cs with
  | none =>
    cases hcs' : childHashes cs' with
    | none => rfl
    | some hs' =>
      obtain ⟨hs, hs_eq, -⟩ := childHashes_perm h.symm hcs'
      rw [hcs] at hs_eq
      cases hs_eq
  | some hs =>
    obtain ⟨hs', hs_eq, hperm⟩ := childHashes_perm h hcs
    rw [hs_eq]
    simp [hashDirectory_perm hperm]

/-- The hash of a tree depends on its map only.  The induction is on the first
    tree; the children of the second are matched with its own. -/
theorem treeHash_of_view {P Q : Text → Prop} {t t' : Node} (ht : t.WellFormed P)
    (ht' : t'.WellFormed Q) (h : t.view = t'.view) : treeHash t = treeHash t' := by
  induction t using FileTree.induct generalizing t' with
  | file c =>
    have hentry : t'.entry = .file c := by
      have hnil := congrFun h []
      simpa using hnil.symm
    rw [FileTree.entry_eq_file.mp hentry]
  | directory cs ih =>
    have hentry : t'.entry = .directory := by
      have hnil := congrFun h []
      simpa using hnil.symm
    obtain ⟨cs', rfl⟩ := FileTree.entry_eq_directory.mp hentry
    obtain ⟨matched, hperm, hmatched⟩ := FileTree.children_of_view ht ht' h
    have hhashes : ∀ (l l' : DirectoryNode), (∀ c ∈ l, c ∈ cs) → (∀ c ∈ l', c ∈ cs') →
        List.Forall₂ (fun c c' => c.1 = c'.1 ∧ c.2.view = c'.2.view) l l' →
        childHashes l = childHashes l' := by
      intro l l' hl hl' hall
      induction hall with
      | nil => rfl
      | @cons c c' l l' hc _ ihl =>
        obtain ⟨hname, hview⟩ := hc
        have hmem := hl c List.mem_cons_self
        have hmem' := hl' c' List.mem_cons_self
        have hhash := ih c hmem (ht.subtrees c hmem) (ht'.subtrees c' hmem') hview
        have hkind : kind c.2 = kind c'.2 := by
          have hnil := congrFun hview []
          simp only [FileTree.view_nil, Option.some.injEq] at hnil
          cases hc2 : c.2 <;> cases hc2' : c'.2 <;> simp_all [kind]
        have htail := ihl (fun d hd => hl d (List.mem_cons_of_mem _ hd))
          (fun d hd => hl' d (List.mem_cons_of_mem _ hd))
        obtain ⟨name, child⟩ := c
        obtain ⟨name', child'⟩ := c'
        simp only at hname hhash hkind
        rw [childHashes, childHashes, hname, hhash, hkind, htail]
    have heq := hhashes cs matched (fun _ hc => hc) (fun _ hc => hperm.mem_iff.mp hc) hmatched
    rw [← treeHash_perm hperm, treeHash_directory, treeHash_directory, heq]

/-! ## Section 3: `_node_hash` computes it -/

theorem readHashes_spec {look : Text → Option ContentHash} {cs : DirectoryNode}
    (h : ∀ c ∈ cs, look c.1 = treeHash c.2 ∧ (look c.1).isSome) :
    ∃ hs, readHashes look cs = .ok hs ∧ childHashes cs = some hs := by
  induction cs with
  | nil => exact ⟨[], rfl, by simp [childHashes]⟩
  | cons c cs ih =>
    obtain ⟨⟨hlook, hsome⟩, hcs⟩ := List.forall_mem_cons.mp h
    obtain ⟨hash, hhash⟩ := Option.isSome_iff_exists.mp hsome
    obtain ⟨tail, hread, htail⟩ := ih hcs
    refine ⟨(c.1, kind c.2, hash) :: tail, ?_, ?_⟩
    · simp only [readHashes, hhash, Except.bind_eq_ok_iff]
      exact ⟨tail, hread, rfl⟩
    · exact childHashes_cons_eq_some.mpr ⟨hash, tail, by rw [← hlook, hhash], htail, rfl⟩

theorem hashWalk_meets {P : Text → Prop} : hashWalk.Meets P fun _ => treeHash where
  leaf _ c := by simp [hashWalk, Except.toOption]
  enter_error _ cs _ e h := by simp [hashWalk] at h
  enter_perm _ cs pushed h := by
    simp only [hashWalk, Except.ok.injEq] at h
    rw [← h, List.map_map]
    exact .of_eq (List.map_id cs)
  child_error _ cs _ pushed h c hc hnone := by
    simp only [hashWalk, Except.ok.injEq] at h
    rw [← h, List.mem_map] at hc
    obtain ⟨d, hd, rfl⟩ := hc
    simp [treeHash_directory, childHashes_eq_none hd hnone]
  leave _ cs _ pushed h look hlook := by
    simp only [hashWalk, Except.ok.injEq] at h ⊢
    have hcs : ∀ c ∈ cs, look c.1 = treeHash c.2 ∧ (look c.1).isSome := by
      intro c hc
      refine hlook (c.1, c.2, ()) ?_
      rw [← h]
      exact List.mem_map_of_mem hc
    obtain ⟨hs, hread, hhashes⟩ := readHashes_spec hcs
    rw [hread, treeHash_directory, hhashes]
    rfl

/-- `_node_hash` computes the recursive hash. -/
theorem nodeHash_spec {P : Text → Prop} {node : Node} (h : node.WellFormed P) :
    (nodeHash node).toOption = treeHash node := by
  cases node with
  | file c => simp [nodeHash, Except.toOption]
  | directory cs => exact PostOrder.exec_spec hashWalk_meets h ()

/-! ## Section 4: What the measure accepts -/

/-- A name that a tree under construction may hold: the source's constructor
    of `SandboxPath` lets the empty text through, the measure does not. -/
def LooseName (s : Text) : Prop := s = [] ∨ SandboxPath.ValidSegment s

/-- Below `path` every node has a path within the limits, and so has every file its size. -/
def Measured (limits : WorkspaceLimits) (path : SandboxPath) (node : Node) : Prop :=
  ∀ p e, node.view p = some e →
    (p ≠ [] → path.value ≠ [] ∧ (∀ s ∈ p, SandboxPath.ValidSegment s) ∧
      limits.Allows (path.parts ++ p)) ∧
    ∀ c, e = .file c → c.length ≤ limits.maxFileBytes

omit [Sha256] in
theorem measured_file {limits : WorkspaceLimits} {path : SandboxPath} {c : Bytes} :
    Measured limits path (.file c) ↔ c.length ≤ limits.maxFileBytes := by
  constructor
  · intro h
    exact (h [] (.file c) (by simp)).2 c rfl
  · intro h p e hp
    cases p with
    | nil =>
      simp only [FileTree.view_nil, FileTree.entry_file, Option.some.injEq] at hp
      subst hp
      simpa using h
    | cons => simp at hp

omit [Sha256] in
/-- A directory is within the limits when its children are, each at its joined path. -/
theorem measured_directory {limits : WorkspaceLimits} {path : SandboxPath} {cs : DirectoryNode}
    (hcs : Dict.UniqueKeys cs) :
    Measured limits path (.directory cs) ↔
      ∀ c ∈ cs, path.value ≠ [] ∧ SandboxPath.ValidSegment c.1 ∧
        limits.Allows (path.parts ++ [c.1]) ∧
        ∀ childPath : SandboxPath, childPath.value ≠ [] → childPath.parts = path.parts ++ [c.1] →
          Measured limits childPath c.2 := by
  constructor
  · intro h c hc
    have hget := Dict.get?_of_mem hcs hc
    have hview : ∀ q, (FileTree.directory cs).view (c.1 :: q) = c.2.view q := by
      intro q
      rw [FileTree.view_directory_cons, hget]
      rfl
    obtain ⟨hvalue, hvalid, hallows⟩ := (h [c.1] _ (by rw [hview, FileTree.view_nil])).1 (by simp)
    refine ⟨hvalue, hvalid _ List.mem_cons_self, hallows, ?_⟩
    intro childPath hchild hparts q e hq
    obtain ⟨hpath, hsize⟩ := h (c.1 :: q) e (by rw [hview, hq])
    refine ⟨fun _ => ?_, hsize⟩
    obtain ⟨-, hvalid, hallows⟩ := hpath (by simp)
    refine ⟨hchild, fun s hs => hvalid s (List.mem_cons_of_mem _ hs), ?_⟩
    rw [hparts, List.append_assoc]
    exact hallows
  · intro h p e hp
    cases p with
    | nil =>
      simp only [FileTree.view_nil, FileTree.entry_directory, Option.some.injEq] at hp
      subst hp
      simp
    | cons k p =>
      rw [FileTree.view_directory_cons, Option.bind_eq_some_iff] at hp
      obtain ⟨child, hget, hp⟩ := hp
      obtain ⟨hvalue, hvalid, hallows, hbelow⟩ := h (k, child) (Dict.mem_of_get? hget)
      have hsegments : ∀ s ∈ path.parts ++ [k], SandboxPath.ValidSegment s := by
        intro s hs
        rcases List.mem_append.mp hs with hs | hs
        · exact (SandboxPath.value_eq_render hvalue).2 s hs
        · rw [List.mem_singleton.mp hs]
          exact hvalid
      have hparts : (SandboxPath.ofSegments _ hsegments).parts = path.parts ++ [k] :=
        SandboxPath.parts_of_value hsegments rfl
      obtain ⟨hpath, hsize⟩ := hbelow (.ofSegments _ hsegments) (SandboxPath.render_ne_nil _)
        hparts p e hp
      refine ⟨fun _ => ⟨hvalue, ?_, ?_⟩, hsize⟩
      · by_cases hnil : p = []
        · subst hnil
          simpa using hvalid
        · exact List.forall_mem_cons.mpr ⟨hvalid, (hpath hnil).2.1⟩
      · by_cases hnil : p = []
        · subst hnil
          exact hallows
        · have := (hpath hnil).2.2
          rwa [hparts, List.append_assoc] at this

open Classical in
/-- What `_measure_node` returns, by recursion. -/
noncomputable def measureSpec (limits : WorkspaceLimits) (path : SandboxPath) (node : Node) :
    Option (Nat × Nat × ContentHash) :=
  if Measured limits path node then
    (treeHash node).map fun hash => (node.total List.length, node.count, hash)
  else
    none

theorem measureSpec_eq_some {limits : WorkspaceLimits} {path : SandboxPath} {node : Node}
    {totalBytes nodeCount : Nat} {hash : ContentHash} :
    measureSpec limits path node = some (totalBytes, nodeCount, hash) ↔
      Measured limits path node ∧ totalBytes = node.total List.length ∧
        nodeCount = node.count ∧ treeHash node = some hash := by
  unfold measureSpec
  split
  · next h =>
    simp only [h, true_and, Option.map_eq_some_iff, Prod.mk.injEq]
    constructor
    · rintro ⟨hash, hhash, rfl, rfl, rfl⟩
      exact ⟨rfl, rfl, hhash⟩
    · rintro ⟨rfl, rfl, hhash⟩
      exact ⟨hash, hhash, rfl, rfl, rfl⟩
  · next h => simp [h]

/-! ## Section 5: `_measure_node` computes it -/

omit [Sha256] in
theorem joinChildren_eq_ok {limits : WorkspaceLimits} {path : SandboxPath} {cs : DirectoryNode}
    {pushed : List (Text × Node × SandboxPath)}
    (h : joinChildren limits path cs = .ok pushed) :
    (pushed.map fun c => (c.1, c.2.1)) = cs ∧
      ∀ c ∈ pushed, path.join c.1 limits.maxPathBytes limits.maxSegmentBytes = .ok c.2.2 := by
  induction cs generalizing pushed with
  | nil =>
    simp only [joinChildren, Except.ok.injEq] at h
    subst h
    simp
  | cons c cs ih =>
    simp only [joinChildren, Except.bind_eq_ok_iff, Except.ok.injEq] at h
    obtain ⟨childPath, hjoin, tail, htail, rfl⟩ := h
    obtain ⟨hmap, hall⟩ := ih htail
    exact ⟨by simp [hmap], List.forall_mem_cons.mpr ⟨hjoin, hall⟩⟩

omit [Sha256] in
theorem joinChildren_of_ok {limits : WorkspaceLimits} {path : SandboxPath} {cs : DirectoryNode}
    (h : ∀ c ∈ cs, ∃ childPath,
      path.join c.1 limits.maxPathBytes limits.maxSegmentBytes = .ok childPath) :
    ∃ pushed, joinChildren limits path cs = .ok pushed := by
  induction cs with
  | nil => exact ⟨[], rfl⟩
  | cons c cs ih =>
    obtain ⟨⟨childPath, hjoin⟩, hcs⟩ := List.forall_mem_cons.mp h
    obtain ⟨tail, htail⟩ := ih hcs
    refine ⟨(c.1, c.2, childPath) :: tail, ?_⟩
    simp only [joinChildren, Except.bind_eq_ok_iff]
    exact ⟨childPath, hjoin, tail, htail, rfl⟩

omit [Sha256] in
/-- A joined name is valid, and its path is the parent's extended by it. -/
theorem join_loose {limits : WorkspaceLimits} {path childPath : SandboxPath} {s : Text}
    (hs : LooseName s)
    (h : path.join s limits.maxPathBytes limits.maxSegmentBytes = .ok childPath) :
    path.value ≠ [] ∧ SandboxPath.ValidSegment s ∧ limits.Allows (path.parts ++ [s]) ∧
      childPath.value ≠ [] ∧ childPath.parts = path.parts ++ [s] := by
  have hpos := limits.positive
  rcases hs with rfl | hs
  · exact absurd h SandboxPath.join_nil_ne_ok
  · obtain ⟨hfits, hvalue⟩ :=
      (SandboxPath.join_eq_ok hs (by omega) (by omega)).mp h
    have hpath := SandboxPath.join_value_ne_nil hs (by omega) (by omega) h
    refine ⟨hpath, hs, hfits, by rw [hvalue]; exact SandboxPath.render_ne_nil _, ?_⟩
    refine SandboxPath.parts_of_value ?_ hvalue
    intro t ht
    rcases List.mem_append.mp ht with ht | ht
    · exact (SandboxPath.value_eq_render hpath).2 t ht
    · exact List.mem_singleton.mp ht ▸ hs

omit [Sha256] in
/-- A valid name joins when the extended path is within the limits. -/
theorem join_of_allows {limits : WorkspaceLimits} {path : SandboxPath} {s : Text}
    (hpath : path.value ≠ []) (hs : SandboxPath.ValidSegment s)
    (h : limits.Allows (path.parts ++ [s])) :
    ∃ childPath, path.join s limits.maxPathBytes limits.maxSegmentBytes = .ok childPath := by
  have hpos := limits.positive
  have hsegments : ∀ t ∈ path.parts ++ [s], SandboxPath.ValidSegment t := by
    intro t ht
    rcases List.mem_append.mp ht with ht | ht
    · exact (SandboxPath.value_eq_render hpath).2 t ht
    · exact List.mem_singleton.mp ht ▸ hs
  exact ⟨.ofSegments _ hsegments,
    (SandboxPath.join_eq_ok hs (by omega) (by omega)).mpr ⟨h, rfl⟩⟩

theorem sumChildren_spec {look : Text → Option (Nat × Nat × ContentHash)} {cs : DirectoryNode}
    (b n : Nat) (hashes : List ChildHash)
    (h : ∀ c ∈ cs, ∃ hash, treeHash c.2 = some hash ∧
      look c.1 = some (c.2.total List.length, c.2.count, hash)) :
    ∃ hs, childHashes cs = some hs ∧
      sumChildren look cs (b, n, hashes) =
        .ok (b + (cs.map fun c => c.2.total List.length).sum,
          n + (cs.map fun c => c.2.count).sum, hashes ++ hs) := by
  induction cs generalizing b n hashes with
  | nil => exact ⟨[], by simp [childHashes], by simp [sumChildren]⟩
  | cons c cs ih =>
    obtain ⟨⟨hash, hhash, hlook⟩, hcs⟩ := List.forall_mem_cons.mp h
    obtain ⟨tail, htail, hsum⟩ := ih (b + c.2.total List.length) (n + c.2.count)
      (hashes ++ [(c.1, kind c.2, hash)]) hcs
    refine ⟨_, childHashes_cons_eq_some.mpr ⟨hash, tail, hhash, htail, rfl⟩, ?_⟩
    simp only [sumChildren, hlook, hsum, List.map_cons, List.sum_cons, List.append_assoc,
      List.cons_append, List.nil_append, Nat.add_assoc]

theorem measureWalk_meets (limits : WorkspaceLimits) :
    (measureWalk limits).Meets LooseName (measureSpec limits) where
  leaf path c := by
    unfold measureSpec
    rw [measured_file]
    by_cases h : c.length ≤ limits.maxFileBytes
    · simp [measureWalk, h, require, bind, Except.bind, Except.toOption]
    · simp [measureWalk, h, require, raise, bind, Except.bind, Except.toOption]
  enter_error path cs hcs e h := by
    simp only [measureSpec, ite_eq_right_iff]
    intro hmeasured
    rw [measured_directory hcs.unique] at hmeasured
    have hjoins : ∀ c ∈ (sorted Prod.fst cs).reverse, ∃ childPath,
        path.join c.1 limits.maxPathBytes limits.maxSegmentBytes = .ok childPath := by
      intro c hc
      rw [List.mem_reverse, mem_sorted] at hc
      obtain ⟨hvalue, hvalid, hallows, -⟩ := hmeasured c hc
      exact join_of_allows hvalue hvalid hallows
    obtain ⟨pushed, hpushed⟩ := joinChildren_of_ok hjoins
    simp only [measureWalk, hpushed] at h
    cases h
  enter_perm path cs pushed h := by
    rw [(joinChildren_eq_ok h).1]
    exact (List.reverse_perm _).trans (sorted_perm _ _)
  child_error path cs hcs pushed h c hc hnone := by
    obtain ⟨hmap, hjoin⟩ := joinChildren_eq_ok h
    have hmem : (c.1, c.2.1) ∈ cs := by
      have : (c.1, c.2.1) ∈ (sorted Prod.fst cs).reverse := hmap ▸ List.mem_map_of_mem hc
      simpa using this
    obtain ⟨-, -, -, hvalue, hparts⟩ := join_loose (hcs.names _ hmem) (hjoin c hc)
    unfold measureSpec at hnone ⊢
    split
    · next hmeasured =>
      rw [measured_directory hcs.unique] at hmeasured
      rw [if_pos ((hmeasured _ hmem).2.2.2 c.2.2 hvalue hparts), Option.map_eq_none_iff] at hnone
      simp [treeHash_directory, childHashes_eq_none hmem hnone]
    · rfl
  leave path cs hcs pushed h look hlook := by
    obtain ⟨hmap, hjoin⟩ := joinChildren_eq_ok h
    have hpushed : ∀ c ∈ cs, ∃ childPath, (c.1, c.2, childPath) ∈ pushed := by
      intro c hc
      have : c ∈ pushed.map fun c => (c.1, c.2.1) := by
        rw [hmap]
        simpa using hc
      obtain ⟨⟨name, child, childPath⟩, hmem, rfl⟩ := List.mem_map.mp this
      exact ⟨childPath, hmem⟩
    have hchild : ∀ c ∈ cs, ∃ hash, treeHash c.2 = some hash ∧
        look c.1 = some (c.2.total List.length, c.2.count, hash) := by
      intro c hc
      obtain ⟨childPath, hmem⟩ := hpushed c hc
      obtain ⟨hspec, hsome⟩ := hlook _ hmem
      obtain ⟨⟨b, n, hash⟩, hres⟩ := Option.isSome_iff_exists.mp hsome
      rw [hres] at hspec
      obtain ⟨-, rfl, rfl, hhash⟩ := measureSpec_eq_some.mp hspec.symm
      exact ⟨hash, hhash, hres⟩
    have hmeasured : Measured limits path (.directory cs) := by
      rw [measured_directory hcs.unique]
      intro c hc
      obtain ⟨childPath, hmem⟩ := hpushed c hc
      obtain ⟨hvalue, hvalid, hallows, hne, hparts⟩ := join_loose (hcs.names c hc) (hjoin _ hmem)
      refine ⟨hvalue, hvalid, hallows, ?_⟩
      intro childPath' hne' hparts'
      obtain ⟨hspec, hsome⟩ := hlook _ hmem
      obtain ⟨⟨b, n, hash⟩, hres⟩ := Option.isSome_iff_exists.mp hsome
      rw [hres] at hspec
      have := (measureSpec_eq_some.mp hspec.symm).1
      rwa [SandboxPath.ext_parts hne' hne (hparts'.trans hparts.symm)]
    have hsorted : ∀ c ∈ sorted Prod.fst cs, ∃ hash, treeHash c.2 = some hash ∧
        look c.1 = some (c.2.total List.length, c.2.count, hash) := by
      intro c hc
      exact hchild c (mem_sorted.mp hc)
    obtain ⟨hs, hhashes, hsum⟩ := sumChildren_spec 0 1 [] hsorted
    have hbytes := ((sorted_perm Prod.fst cs).map fun c => c.2.total List.length).sum_eq
    have hnodes := ((sorted_perm Prod.fst cs).map fun c => c.2.count).sum_eq
    unfold measureSpec
    rw [if_pos hmeasured, ← treeHash_perm (sorted_perm Prod.fst cs), treeHash_directory, hhashes,
      FileTree.total_directory, FileTree.count_directory, ← hbytes, ← hnodes]
    simp only [measureWalk, hsum, bind, Except.bind, List.nil_append, Nat.zero_add,
      Option.bind_some]
    cases hashDirectory hs <;> rfl

/-- `_measure_node` accepts the trees within the limits, and returns their
    bytes, nodes and recursive hash. -/
theorem measureNode_eq_ok {limits : WorkspaceLimits} {path : SandboxPath} {node : Node}
    (h : node.WellFormed LooseName) {totalBytes nodeCount : Nat} {hash : ContentHash} :
    measureNode node path limits = .ok (totalBytes, nodeCount, hash) ↔
      Measured limits path node ∧ totalBytes = node.total List.length ∧
        nodeCount = node.count ∧ treeHash node = some hash := by
  rw [← measureSpec_eq_some, ← PostOrder.exec_spec (measureWalk_meets limits) h path, measureNode]
  cases (measureWalk limits).exec path node <;> simp [Except.toOption]

end Hashing

end Node
