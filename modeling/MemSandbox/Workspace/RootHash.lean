import MemSandbox.Workspace.SnapshotTree

/-! # The root hash identifies the tree

    Three traversals hash a tree: `_measure_node` and `_node_hash` of
    `workspace/memory.py`, and `_tree_node_hash` of
    `workspace/snapshot_tree.py`.  They return the recursive hash, which
    depends on the map of the tree only; and trees with the same hash have
    the same map, unless two of the byte strings that were hashed for them
    collide. -/

open Python FileMap

namespace Node

section Identity

variable [Sha256]

/-! ## Section 1: What is hashed -/

/-- A path segment that `hash_directory` accepts. -/
def HashableName (s : Text) : Prop :=
  SandboxPath.ValidSegment s ∧ ∃ bytes, encodeUtf8 s = some bytes ∧ bytes.length < 2 ^ 32

/-- The bytes whose digest is the hash of a node. -/
def hashInput : Node → Option Bytes
  | .file content => some content
  | .directory children => do
    let hashes ← childHashes children
    let bytes ← (childBytes (sorted ChildHash.key hashes)).toOption
    some (ascii "mem-sandbox-directory-v1" ++ [0] ++ bytes)

/-- The byte strings that are hashed for a tree, one for each of its nodes. -/
def hashInputs (node : Node) : Set Bytes :=
  {bytes | ∃ p inner, node.at? p = some inner ∧ hashInput inner = some bytes}

theorem hashInput_directory {cs : DirectoryNode} {bytes : Bytes} :
    hashInput (.directory cs) = some bytes ↔
      ∃ hashes inner, childHashes cs = some hashes ∧
        childBytes (sorted ChildHash.key hashes) = .ok inner ∧
        bytes = ascii "mem-sandbox-directory-v1" ++ [0] ++ inner := by
  show ((childHashes cs).bind fun hashes =>
    ((childBytes (sorted ChildHash.key hashes)).toOption).bind fun inner =>
      some (ascii "mem-sandbox-directory-v1" ++ [0] ++ inner)) = some bytes ↔ _
  simp only [Option.bind_eq_some_iff, Option.some.injEq]
  constructor
  · intro h
    obtain ⟨hashes, hhashes, inner, hinner, hbytes⟩ := h
    refine ⟨hashes, inner, hhashes, ?_, hbytes.symm⟩
    cases hchild : childBytes (sorted ChildHash.key hashes) with
    | error e => simp [hchild, Except.toOption] at hinner
    | ok b =>
      simp only [hchild, Except.toOption, Option.some.injEq] at hinner
      rw [hinner]
  · intro h
    obtain ⟨hashes, inner, hhashes, hinner, hbytes⟩ := h
    refine ⟨hashes, hhashes, inner, ?_, hbytes.symm⟩
    rw [hinner]
    rfl

/-- The recursive hash is the digest of that input. -/
theorem treeHash_eq_hashInput (node : Node) :
    treeHash node = (hashInput node).map ContentHash.fromBytes := by
  cases node with
  | file content => simp [hashInput]
  | directory cs =>
    rw [treeHash_directory]
    show _ = ((childHashes cs).bind fun hashes =>
      ((childBytes (sorted ChildHash.key hashes)).toOption).bind fun inner =>
        some (ascii "mem-sandbox-directory-v1" ++ [0] ++ inner)).map ContentHash.fromBytes
    cases childHashes cs with
    | none => rfl
    | some hashes =>
      simp only [Option.bind_some, hashDirectory, bind, Except.bind]
      cases childBytes (sorted ChildHash.key hashes) <;> rfl

theorem hashInput_mem {node : Node} {bytes : Bytes} (h : hashInput node = some bytes) :
    bytes ∈ hashInputs node :=
  ⟨[], node, by simp, h⟩

theorem hashInputs_child {cs : DirectoryNode} (hcs : Dict.UniqueKeys cs) {c : Text × Node}
    (hc : c ∈ cs) : hashInputs c.2 ⊆ hashInputs (.directory cs) := by
  intro bytes hbytes
  obtain ⟨p, inner, hat, hinput⟩ := hbytes
  refine ⟨c.1 :: p, inner, ?_, hinput⟩
  rw [FileTree.at?_directory_cons, Dict.get?_of_mem hcs hc]
  exact hat

/-! ## Section 2: Every tree with such names has a hash -/

omit [Sha256] in
theorem childBytes_isOk {hashes : List ChildHash} (h : ∀ c ∈ hashes, HashableName c.1) :
    ∃ bytes, childBytes hashes = .ok bytes := by
  induction hashes with
  | nil => exact ⟨[], rfl⟩
  | cons c hashes ih =>
    obtain ⟨⟨-, nameBytes, hname, hlt⟩, hrest⟩ := List.forall_mem_cons.mp h
    obtain ⟨length, hlength⟩ := toBytes4_of_lt hlt
    obtain ⟨tail, htail⟩ := ih hrest
    exact ⟨_, childBytes_cons_eq_ok.mpr ⟨nameBytes, length, tail, hname, hlength, htail, rfl⟩⟩

theorem childHashes_isSome {cs : DirectoryNode} (h : ∀ c ∈ cs, (treeHash c.2).isSome) :
    ∃ hashes, childHashes cs = some hashes := by
  induction cs with
  | nil => exact ⟨[], by simp [childHashes]⟩
  | cons c cs ih =>
    obtain ⟨hc, hcs⟩ := List.forall_mem_cons.mp h
    obtain ⟨hash, hhash⟩ := Option.isSome_iff_exists.mp hc
    obtain ⟨tail, htail⟩ := ih hcs
    exact ⟨_, childHashes_cons_eq_some.mpr ⟨hash, tail, hhash, htail, rfl⟩⟩

/-- The children of a directory and their hashes correspond. -/
theorem childHashes_forall₂ {cs : DirectoryNode} {hashes : List ChildHash}
    (h : childHashes cs = some hashes) :
    List.Forall₂ (fun c r => r.1 = c.1 ∧ r.2.1 = kind c.2 ∧ treeHash c.2 = some r.2.2) cs hashes := by
  induction cs generalizing hashes with
  | nil =>
    simp only [childHashes, Option.some.injEq] at h
    subst h
    exact .nil
  | cons c cs ih =>
    obtain ⟨hash, tail, hhash, htail, rfl⟩ := childHashes_cons_eq_some.mp h
    exact .cons ⟨rfl, rfl, hhash⟩ (ih htail)

theorem mem_childHashes {cs : DirectoryNode} {hashes : List ChildHash}
    (h : childHashes cs = some hashes) {c : Text × Node} (hc : c ∈ cs) :
    ∃ hash, (c.1, kind c.2, hash) ∈ hashes ∧ treeHash c.2 = some hash := by
  have hall := childHashes_forall₂ h
  obtain ⟨i, hi, rfl⟩ := List.getElem_of_mem hc
  have hi' : i < hashes.length := hall.length_eq ▸ hi
  obtain ⟨hname, hkind, hhash⟩ := List.forall₂_iff_get.mp hall |>.2 i hi hi'
  refine ⟨hashes[i].2.2, ?_, hhash⟩
  have hrecord : (cs[i].1, kind cs[i].2, hashes[i].2.2) = hashes[i] := by
    simp only [List.get_eq_getElem] at hname hkind
    rw [← hname, ← hkind]
  rw [hrecord]
  exact List.getElem_mem hi'

theorem exists_of_mem_childHashes {cs : DirectoryNode} {hashes : List ChildHash}
    (h : childHashes cs = some hashes) {r : ChildHash} (hr : r ∈ hashes) :
    ∃ c ∈ cs, r.1 = c.1 ∧ r.2.1 = kind c.2 ∧ treeHash c.2 = some r.2.2 := by
  have hall := childHashes_forall₂ h
  obtain ⟨i, hi, rfl⟩ := List.getElem_of_mem hr
  have hi' : i < cs.length := hall.length_eq ▸ hi
  exact ⟨cs[i], List.getElem_mem hi', List.forall₂_iff_get.mp hall |>.2 i hi' hi⟩

theorem treeHash_isSome {node : Node} (h : node.WellFormed HashableName) :
    ∃ hash, treeHash node = some hash := by
  induction node using FileTree.induct with
  | file content => exact ⟨_, treeHash_file content⟩
  | directory cs ih =>
    obtain ⟨hashes, hhashes⟩ := childHashes_isSome fun c hc =>
      Option.isSome_iff_exists.mpr (ih c hc (h.subtrees c hc))
    have hnames : ∀ r ∈ sorted ChildHash.key hashes, HashableName r.1 := by
      intro r hr
      obtain ⟨c, hc, hname, -⟩ := exists_of_mem_childHashes hhashes (mem_sorted.mp hr)
      rw [hname]
      exact h.names c hc
    obtain ⟨inner, hinner⟩ := childBytes_isOk hnames
    have hinput := hashInput_directory.mpr ⟨hashes, inner, hhashes, hinner, rfl⟩
    exact ⟨_, by rw [treeHash_eq_hashInput, hinput]; rfl⟩

omit [Sha256] in
theorem childBytes_names {hashes : List ChildHash} {bytes : Bytes}
    (h : childBytes hashes = .ok bytes) :
    ∀ c ∈ hashes, ∃ nameBytes, encodeUtf8 c.1 = some nameBytes ∧ nameBytes.length < 2 ^ 32 := by
  induction hashes generalizing bytes with
  | nil => simp
  | cons c hashes ih =>
    obtain ⟨nameBytes, length, tail, hname, hlength, htail, -⟩ := childBytes_cons_eq_ok.mp h
    exact List.forall_mem_cons.mpr ⟨⟨nameBytes, hname, lt_of_toBytes4 hlength⟩, ih htail⟩

/-- Only trees with such names have a hash. -/
theorem wellFormed_of_treeHash {node : Node} (hnode : node.WellFormed SandboxPath.ValidSegment)
    {hash : ContentHash} (h : treeHash node = some hash) : node.WellFormed HashableName := by
  induction node using FileTree.induct generalizing hash with
  | file content => exact .file content
  | directory cs ih =>
    rw [treeHash_eq_hashInput, Option.map_eq_some_iff] at h
    obtain ⟨bytes, hinput, -⟩ := h
    obtain ⟨hashes, inner, hhashes, hinner, -⟩ := hashInput_directory.mp hinput
    refine .directory hnode.unique ?_ ?_
    · intro c hc
      obtain ⟨childHash, hmem, -⟩ := mem_childHashes hhashes hc
      exact ⟨hnode.names c hc, childBytes_names hinner _ (mem_sorted.mpr hmem)⟩
    · intro c hc
      obtain ⟨childHash, -, hchild⟩ := mem_childHashes hhashes hc
      exact ih c hc (hnode.subtrees c hc) hchild

/-- The traversal raises when a name cannot be hashed, and nothing else but the
    error of a lookup that misses. -/
def IsHashError (cls : ErrorClass) : Prop := cls = .keyError ∨ IsNameError cls

theorem hashWalk_raises : hashWalk.RaisesOnly fun e => IsHashError e.cls where
  leaf _ _ e h := by cases h
  enter _ _ e h := by cases h
  missing := .inl rfl
  leave cs look e h := by
    have hread : ∀ cs, Raises IsHashError (readHashes look cs) := by
      intro cs
      induction cs with
      | nil => exact .ok
      | cons c cs ih =>
        unfold readHashes
        cases look c.1 with
        | none => exact Raises.error_iff.mpr (.inl rfl)
        | some hash => exact ih.bind fun tail _ => .ok
    exact ((hread cs).bind fun _ _ => hashDirectory_raises.mono fun _ h => .inr h).of_error e h

theorem treeNodeHash_raises (node : Node) : Raises IsHashError (treeNodeHash node) := by
  cases node with
  | file content => exact .ok
  | directory cs => exact ⟨fun e h => PostOrder.exec_raises hashWalk_raises h⟩

/-! ## Section 3: Equal hashes, equal trees -/

/-- No two byte strings that are hashed for the trees have the same digest. -/
def CollisionFree (node node' : Node) : Prop :=
  Set.InjOn Sha256.digest (hashInputs node ∪ hashInputs node')

/-- Equal hashes of two trees come from equal inputs. -/
theorem hashInput_eq_of_treeHash {node node' : Node} (hfree : CollisionFree node node')
    {hash : ContentHash} (h : treeHash node = some hash) (h' : treeHash node' = some hash) :
    ∃ bytes, hashInput node = some bytes ∧ hashInput node' = some bytes := by
  rw [treeHash_eq_hashInput, Option.map_eq_some_iff] at h h'
  obtain ⟨a, ha, hhash⟩ := h
  obtain ⟨b, hb, hhash'⟩ := h'
  have hdigest := ContentHash.digest_eq_of_fromBytes (hhash.trans hhash'.symm)
  have heq := hfree (.inl (hashInput_mem ha)) (.inr (hashInput_mem hb)) hdigest
  exact ⟨a, ha, heq ▸ hb⟩

/-- Directories with the same input have the same records for their children. -/
theorem childHashes_mem_iff {cs cs' : DirectoryNode} {bytes : Bytes}
    (h : hashInput (.directory cs) = some bytes) (h' : hashInput (.directory cs') = some bytes) :
    ∃ hashes hashes', childHashes cs = some hashes ∧ childHashes cs' = some hashes' ∧
      ∀ r, r ∈ hashes ↔ r ∈ hashes' := by
  obtain ⟨hashes, inner, hhashes, hinner, rfl⟩ := hashInput_directory.mp h
  obtain ⟨hashes', inner', hhashes', hinner', heq⟩ := hashInput_directory.mp h'
  have hsorted := childBytes_injective hinner (List.append_cancel_left heq ▸ hinner')
  refine ⟨hashes, hashes', hhashes, hhashes', ?_⟩
  intro r
  have hmem : r ∈ sorted ChildHash.key hashes ↔ r ∈ sorted ChildHash.key hashes' := by
    rw [hsorted]
  rwa [mem_sorted, mem_sorted] at hmem

/-- Below one name, the same records are the same child up to the induction. -/
theorem child_of_records {cs cs' : DirectoryNode} {hashes hashes' : List ChildHash}
    (hhashes : childHashes cs = some hashes) (hhashes' : childHashes cs' = some hashes')
    (hcs' : Dict.UniqueKeys cs') (h : ∀ r, r ∈ hashes ↔ r ∈ hashes') {c : Text × Node}
    (hc : c ∈ cs) :
    ∃ child hash, Dict.get? c.1 cs' = some child ∧ (c.1, child) ∈ cs' ∧ kind c.2 = kind child ∧
      treeHash c.2 = some hash ∧ treeHash child = some hash := by
  obtain ⟨hash, hmem, hhash⟩ := mem_childHashes hhashes hc
  obtain ⟨c', hc', hname, hkind, hhash'⟩ := exists_of_mem_childHashes hhashes' ((h _).mp hmem)
  simp only at hname hkind hhash'
  obtain ⟨name, child⟩ := c'
  simp only at hname hkind hhash'
  subst hname
  exact ⟨child, hash, Dict.get?_of_mem hcs' hc', hc', hkind, hhash, hhash'⟩

/-- Trees of one kind with the same hash have the same map.  The induction is
    on the first tree; that the kinds agree is what the records of the parent
    carry, and what keeps the input of a directory apart from a file with
    those very bytes. -/
theorem view_of_treeHash {P : Text → Prop} {node node' : Node} (hnode : node.WellFormed P)
    (hnode' : node'.WellFormed P) (hfree : CollisionFree node node')
    (hkind : kind node = kind node') {hash : ContentHash} (h : treeHash node = some hash)
    (h' : treeHash node' = some hash) : node.view = node'.view := by
  induction node using FileTree.induct generalizing node' hash with
  | file content =>
    obtain ⟨bytes, hinput, hinput'⟩ := hashInput_eq_of_treeHash hfree h h'
    cases node' with
    | directory cs' => cases hkind
    | file content' =>
      simp only [hashInput, Option.some.injEq] at hinput hinput'
      rw [hinput, hinput']
  | directory cs ih =>
    obtain ⟨bytes, hinput, hinput'⟩ := hashInput_eq_of_treeHash hfree h h'
    cases node' with
    | file content' => cases hkind
    | directory cs' =>
      obtain ⟨hashes, hashes', hhashes, hhashes', hiff⟩ := childHashes_mem_iff hinput hinput'
      funext p
      cases p with
      | nil => simp
      | cons k q =>
        rw [FileTree.view_directory_cons, FileTree.view_directory_cons]
        cases hget : Dict.get? k cs with
        | none =>
          -- a child of the second directory has its record among those of the first
          cases hget' : Dict.get? k cs' with
          | none => rfl
          | some child' =>
            obtain ⟨child, -, hchild, -⟩ := child_of_records hhashes' hhashes hnode.unique
              (fun r => (hiff r).symm) (Dict.mem_of_get? hget')
            rw [hget] at hchild
            cases hchild
        | some child =>
          have hmem := Dict.mem_of_get? hget
          obtain ⟨child', hash, hget', hmem', hkinds, hhash, hhash'⟩ :=
            child_of_records hhashes hhashes' hnode'.unique hiff hmem
          have hsub : CollisionFree child child' :=
            hfree.mono (Set.union_subset_union (hashInputs_child hnode.unique hmem)
              (hashInputs_child hnode'.unique hmem'))
          have hview := ih (k, child) hmem (hnode.subtrees _ hmem) (hnode'.subtrees _ hmem') hsub
            hkinds hhash hhash'
          rw [hget']
          exact congrFun hview q

/-! ## Section 4: The three traversals -/

omit [Sha256] in
theorem HashableName.loose {s : Text} (h : HashableName s) : LooseName s := .inr h.1

/-- What the three traversals return for a tree with this hash; the measure
    does whenever the tree is within its limits, and else raises. -/
structure HashedAs (node : Node) (hash : ContentHash) : Prop where
  recursive : treeHash node = some hash
  node_hash : nodeHash node = .ok hash
  tree_node_hash : treeNodeHash node = .ok hash
  measure_node : ∀ (path : SandboxPath) (limits : WorkspaceLimits)
    (measured : Nat × Nat × ContentHash),
    measureNode node path limits = .ok measured ↔
      Measured limits path node ∧ measured = (node.total List.length, node.count, hash)

omit [Sha256] in
theorem eq_ok_of_toOption {α : Type} {r : Except PyError α} {a : α} (h : r.toOption = some a) :
    r = .ok a := by
  cases r with
  | error e => cases h
  | ok b =>
    rw [Option.some.inj h]

theorem hashedAs {node : Node} (h : node.WellFormed HashableName) {hash : ContentHash}
    (hhash : treeHash node = some hash) : HashedAs node hash where
  recursive := hhash
  node_hash := eq_ok_of_toOption ((nodeHash_spec h).trans hhash)
  tree_node_hash := by
    -- the traversal of the entries is the one of the nodes
    have hspec : (treeNodeHash node).toOption = treeHash node := by
      cases node with
      | file content => simp [treeNodeHash, Except.toOption]
      | directory cs => exact PostOrder.exec_spec hashWalk_meets h ()
    exact eq_ok_of_toOption (hspec.trans hhash)
  measure_node path limits measured := by
    obtain ⟨totalBytes, nodeCount, measuredHash⟩ := measured
    rw [measureNode_eq_ok (h.mono fun _ hs => hs.loose), hhash]
    simp only [Option.some.injEq, Prod.mk.injEq, @eq_comm _ hash]

/-- The three traversals return one hash for a directory tree, which does not
    depend on the order in which the children were inserted; and trees with
    equal hashes are equal, unless two of the byte strings hashed for them
    collide. -/
theorem rootHash_identifies {cs cs' : DirectoryNode}
    (hcs : (FileTree.directory cs).WellFormed HashableName)
    (hcs' : (FileTree.directory cs').WellFormed HashableName) :
    ∃ hash hash', HashedAs (.directory cs) hash ∧ HashedAs (.directory cs') hash' ∧
      ((FileTree.directory cs).view = (FileTree.directory cs').view → hash = hash') ∧
      (CollisionFree (.directory cs) (.directory cs') → hash = hash' →
        (FileTree.directory cs).view = (FileTree.directory cs').view) := by
  obtain ⟨hash, hhash⟩ := treeHash_isSome hcs
  obtain ⟨hash', hhash'⟩ := treeHash_isSome hcs'
  refine ⟨hash, hash', hashedAs hcs hhash, hashedAs hcs' hhash', ?_, ?_⟩
  · intro hview
    have heq := treeHash_of_view hcs hcs' hview
    rw [hhash, hhash'] at heq
    exact Option.some.inj heq
  · intro hfree heq
    subst heq
    exact view_of_treeHash hcs hcs' hfree rfl hhash hhash'

end Identity

/-! ## Section 5: Two trees

    The digests are those SHA-256 gives for the three byte strings that the
    trees below are hashed from. -/

namespace TwoTrees

/-- A workspace with the empty file `a`. -/
def oneFile : DirectoryNode := [(py "a", .file [])]

def emptyFileDigest : Bytes := [227, 176, 196, 66, 152, 252, 28, 20, 154, 251, 244, 200, 153, 111, 185, 36, 39, 174, 65, 228, 100, 155, 147, 76, 164, 149, 153, 27, 120, 82, 184, 85]

scoped instance sha256 : Sha256 where
  digest content := fun i =>
    if content = [] then emptyFileDigest.getD i.val 0
    else if content = ascii "mem-sandbox-directory-v1" ++ [0] then
      ([241, 73, 238, 146, 7, 118, 25, 15, 40, 112, 10, 233, 78, 61, 213, 212, 167, 193, 225, 96, 138, 171, 103, 45, 41, 213, 128, 106, 203, 49, 37, 138] : Bytes).getD i.val 0
    else
      ([56, 51, 61, 200, 228, 112, 38, 27, 23, 194, 0, 18, 91, 154, 167, 216, 68, 192, 115, 175, 241, 9, 71, 107, 10, 29, 226, 223, 32, 110, 162, 84] : Bytes).getD i.val 0

/-- The byte string that `oneFile` is hashed from. -/
def oneFileInput : Bytes :=
  ascii "mem-sandbox-directory-v1" ++ [0] ++ ascii "F" ++ [0, 0, 0, 1] ++ ascii "a" ++
    emptyFileDigest

theorem get?_oneFile (k : Text) :
    Dict.get? k oneFile = if py "a" = k then some (.file []) else none := rfl

theorem hashInput_oneFile : hashInput (.directory oneFile) = some oneFileInput := by
  decide

/-- The three byte strings that are hashed for the two trees. -/
theorem hashInputs_cases {bytes : Bytes}
    (h : bytes ∈ hashInputs (.directory []) ∪ hashInputs (.directory oneFile)) :
    bytes ∈ [[], ascii "mem-sandbox-directory-v1" ++ [0], oneFileInput] := by
  rcases h with h | h
  · obtain ⟨p, inner, hat, hinput⟩ := h
    cases p with
    | cons k p => simp [FileTree.at?_directory_cons] at hat
    | nil =>
      rw [FileTree.at?_nil, Option.some.injEq] at hat
      subst hat
      have hempty : hashInput (.directory []) = some (ascii "mem-sandbox-directory-v1" ++ [0]) := by
        decide
      rw [hempty, Option.some.injEq] at hinput
      simp [← hinput]
  · obtain ⟨p, inner, hat, hinput⟩ := h
    cases p with
    | nil =>
      rw [FileTree.at?_nil, Option.some.injEq] at hat
      subst hat
      rw [hashInput_oneFile, Option.some.injEq] at hinput
      simp [← hinput]
    | cons k p =>
      rw [FileTree.at?_directory_cons, get?_oneFile] at hat
      by_cases hk : py "a" = k
      · rw [if_pos hk] at hat
        cases p with
        | nil =>
          simp only [Option.bind_some, FileTree.at?_nil, Option.some.injEq] at hat
          subst hat
          simp only [hashInput, Option.some.injEq] at hinput
          simp [← hinput]
        | cons k' p => simp at hat
      · rw [if_neg hk] at hat
        cases hat

/-- The digests of the three byte strings start with different bytes. -/
theorem collisionFree : CollisionFree (.directory []) (.directory oneFile) := by
  have hfirst : ∀ a ∈ [[], ascii "mem-sandbox-directory-v1" ++ [0], oneFileInput],
      ∀ b ∈ [[], ascii "mem-sandbox-directory-v1" ++ [0], oneFileInput],
        Sha256.digest a 0 = Sha256.digest b 0 → a = b := by
    decide
  intro a ha b hb h
  exact hfirst a (hashInputs_cases ha) b (hashInputs_cases hb) (congrFun h 0)

/-- A workspace with one empty file is not hashed as the empty workspace. -/
theorem rootHash_identifies_oneFile :
    ∃ hash hash', HashedAs (.directory []) hash ∧ HashedAs (.directory oneFile) hash' ∧
      hash ≠ hash' := by
  have hname : HashableName (py "a") := ⟨by decide, [97], by decide, by decide⟩
  have hfile : (FileTree.directory oneFile : Node).WellFormed HashableName :=
    .directory (List.nodup_singleton _) (by simpa [oneFile] using hname)
      (by simpa [oneFile] using FileTree.WellFormed.file _)
  obtain ⟨hash, hash', hempty, hone, -, hidentifies⟩ := rootHash_identifies .empty hfile
  refine ⟨hash, hash', hempty, hone, ?_⟩
  intro heq
  have hview := congrFun (hidentifies collisionFree heq) [py "a"]
  simp [FileTree.view_directory_cons, get?_oneFile] at hview

end TwoTrees

end Node
