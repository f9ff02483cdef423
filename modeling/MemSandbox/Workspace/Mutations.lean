import MemSandbox.Workspace.States

/-! # What the mutations do

    One theorem for each mutation of `workspace/memory.py`: from a consistent
    state the call raises and leaves the workspace alone, or returns in a
    consistent state whose map is the old one with the request carried out.
    The maps are written in the vocabulary of `FileMap.View`. -/

open Python FileMap Node

namespace MemoryWorkspace

variable [Sha256]

/-! ## Section 1: Maps before and after -/

/-- `w'` is `w` after one commit: the next revision, the map `m`. -/
structure Advanced (w w' : MemoryWorkspace) (m : View Text Bytes) : Prop where
  frame : w' = { w with state := w'.state }
  consistent : Consistent w.limits w'.state
  revision : w'.state.stats.revision = w.state.stats.revision + 1
  view : w'.view = m

/-- The map with the missing ancestors of `p`, when they are to be created. -/
def withParents (createParents : Bool) (p : List Text) (m : View Text Bytes) : View Text Bytes :=
  if createParents then View.withAncestors p m else m

/-- Every ancestor of `p` is a directory, or absent and to be created. -/
def ParentsReady (createParents : Bool) (p : List Text) (m : View Text Bytes) : Prop :=
  ∀ q, q <+: p → q ≠ p → m q = some .directory ∨ createParents = true ∧ m q = none

omit [Sha256] in
theorem withParents_of_not_isPrefix {createParents : Bool} {p q : List Text} (h : ¬ q <+: p)
    (m : View Text Bytes) : withParents createParents p m q = m q := by
  unfold withParents
  split
  · exact View.withAncestors_of_not_isPrefix h m
  · rfl

omit [Sha256] in
@[simp] theorem withParents_self {createParents : Bool} {p : List Text} (m : View Text Bytes) :
    withParents createParents p m p = m p := by
  unfold withParents
  split
  · exact View.withAncestors_self p m
  · rfl

omit [Sha256] in
theorem withParents_below {createParents : Bool} {p q : List Text} (hpq : p <+: q)
    (m : View Text Bytes) : withParents createParents p m q = m q := by
  by_cases hq : q <+: p
  · rw [List.IsPrefix.eq_of_length hq (le_antisymm hq.length_le hpq.length_le)]
    exact withParents_self m
  · exact withParents_of_not_isPrefix hq m

/-- The abstract filesystem of a consistent workspace. -/
def fileMap (w : MemoryWorkspace) (hw : Consistent w.limits w.state) : FileMap Text Bytes :=
  FileTree.toFileMap w.state.root hw.wellFormed

@[simp] theorem fileMap_entry (w : MemoryWorkspace) (hw : Consistent w.limits w.state) :
    (w.fileMap hw).entry = w.view := rfl

/-- Nothing lies below an absent path or a file. -/
theorem view_below {w : MemoryWorkspace} (hw : Consistent w.limits w.state) {p q : List Text}
    (hp : w.view p ≠ some .directory) (hpq : p <+: q) (hne : q ≠ p) : w.view q = none := by
  cases h : w.view p with
  | none => exact (w.fileMap hw).below_absent h hpq
  | some e =>
    cases e with
    | directory => exact absurd h hp
    | file c => exact (w.fileMap hw).below_file h hpq (Ne.symm hne)

/-- Assigning a path that holds no directory is grafting a single entry. -/
theorem graft_single_withParents {w : MemoryWorkspace} (hw : Consistent w.limits w.state)
    {createParents : Bool} {p : List Text} (hp : w.view p ≠ some .directory) (e : Entry Bytes) :
    View.graft p (View.single e) (withParents createParents p w.view) =
      View.assign p e (withParents createParents p w.view) := by
  refine View.graft_single e ?_
  intro q hpq hne
  rw [withParents_below hpq]
  exact view_below hw hp hpq hne

/-! ## Section 2: Parents and assignments -/

section Parents

variable {limits : WorkspaceLimits} {path : SandboxPath} {root root' : DirectoryNode}
  {createParents : Bool}

omit [Sha256] in
theorem prefix_dropLast_iff (h : path.isRoot = false) {q : List Text} :
    q <+: path.parts.dropLast ↔ q <+: path.parts ∧ q ≠ path.parts := by
  conv_rhs => rw [SandboxPath.parts_eq_concat h]
  rw [List.prefix_concat_iff]
  constructor
  · intro hq
    refine ⟨.inr hq, ?_⟩
    rintro rfl
    have := hq.length_le
    simp at this
  · rintro ⟨rfl | hq, hne⟩
    · exact absurd rfl hne
    · exact hq

omit [Sha256] in
theorem ensureParent_view (h : path.isRoot = false)
    (hroot : ensureParent root path createParents limits = .ok root') :
    (FileTree.directory root').view =
      withParents createParents path.parts (FileTree.directory root).view := by
  funext q
  rw [ensureSegments_view hroot, withParents]
  cases createParents with
  | true =>
    simp only [if_true, View.withAncestors, prefix_dropLast_iff h]
  | false =>
    simp only [Bool.false_eq_true, if_false, ite_eq_right_iff]
    intro hq
    exact (ensureSegments_existing hroot q hq).symm

omit [Sha256] in
theorem ensureParent_ready (h : path.isRoot = false)
    (hroot : ensureParent root path createParents limits = .ok root') :
    ParentsReady createParents path.parts (FileTree.directory root).view := by
  intro q hq hne
  have hpre := (prefix_dropLast_iff h).mpr ⟨hq, hne⟩
  cases hv : (FileTree.directory root).view q with
  | none =>
    cases createParents with
    | true => exact .inr ⟨rfl, rfl⟩
    | false =>
      rw [ensureSegments_existing hroot q hpre] at hv
      cases hv
  | some e =>
    cases e with
    | directory => exact .inl rfl
    | file c => exact absurd hv (ensureSegments_no_file hroot q c hpre)

omit [Sha256] in
/-- After `_ensure_parent` the parent is a directory. -/
theorem ensureParent_parent (hroot : ensureParent root path createParents limits = .ok root') :
    ∃ inner, (FileTree.directory root').at? path.parts.dropLast = some (.directory inner) := by
  rw [← FileTree.view_eq_directory_iff, ensureSegments_view hroot]
  simp

omit [Sha256] in
theorem ensureParent_wellFormed {P : Text → Prop} (hpath : ∀ s ∈ path.parts, P s)
    (hwell : (FileTree.directory root).WellFormed P)
    (hroot : ensureParent root path createParents limits = .ok root') :
    (FileTree.directory root').WellFormed P :=
  ensureSegments_wellFormed (fun s hs => hpath s (List.dropLast_subset _ hs)) hwell hroot

omit [Sha256] in
theorem assignChild_view (h : path.isRoot = false) {inner : DirectoryNode}
    (hparent : (FileTree.directory root).at? path.parts.dropLast = some (.directory inner))
    (node : Node) :
    (FileTree.directory (assignChild path node root)).view =
      View.graft path.parts node.view (FileTree.directory root).view := by
  rw [assignChild, FileTree.view_modifyAt_set _ _ hparent, ← SandboxPath.parts_eq_concat h]

omit [Sha256] in
theorem deleteChild_view (h : path.isRoot = false) {P : Text → Prop}
    (hwell : (FileTree.directory root).WellFormed P) {inner : DirectoryNode}
    (hparent : (FileTree.directory root).at? path.parts.dropLast = some (.directory inner)) :
    (FileTree.directory (deleteChild path root)).view =
      View.without path.parts (FileTree.directory root).view := by
  rw [deleteChild, FileTree.view_modifyAt_erase _ hparent (hwell.at? hparent).unique,
    ← SandboxPath.parts_eq_concat h]

omit [Sha256] in
theorem name_mem_parts (h : path.isRoot = false) : path.name ∈ path.parts := by
  rw [SandboxPath.parts_eq_concat h]
  simp

omit [Sha256] in
theorem assignChild_wellFormed (h : path.isRoot = false) {P : Text → Prop}
    (hpath : ∀ s ∈ path.parts, P s) (hwell : (FileTree.directory root).WellFormed P) {node : Node}
    (hnode : node.WellFormed P) : (FileTree.directory (assignChild path node root)).WellFormed P :=
  hwell.modifyAt (fun _ hds => hds.set (hpath _ (name_mem_parts h)) hnode) _

omit [Sha256] in
theorem deleteChild_wellFormed {P : Text → Prop} (hwell : (FileTree.directory root).WellFormed P) :
    (FileTree.directory (deleteChild path root)).WellFormed P :=
  hwell.modifyAt (fun _ hds => hds.erase _) _

end Parents

/-- The commit that ends `mkdir`, `write`, `append` and `copy`: a node assigned
    below parents that `_ensure_parent` provides. -/
theorem outcome_assign {α : Type} {w : MemoryWorkspace} (hw : Consistent w.limits w.state)
    {path : SandboxPath} (hroot : path.isRoot = false) (hvalue : path.value ≠ [])
    {createParents : Bool} {root : DirectoryNode}
    (hensure : ensureParent w.state.root path createParents w.limits = .ok root)
    {node : Node} (hnode : node.WellFormed SandboxPath.ValidSegment)
    {f : WorkspaceState → Method α} {post : α → MemoryWorkspace → Prop}
    (h : ∀ state, state.root = assignChild path node root →
      Advanced w { w with state }
        (View.graft path.parts node.view (withParents createParents path.parts w.view)) →
      Call.Returns (f state) { w with state } post) :
    Call.Outcome (commit (assignChild path node root) >>= f) w post := by
  have hparts := (SandboxPath.value_eq_render hvalue).2
  have hwell := assignChild_wellFormed hroot hparts
    (ensureParent_wellFormed hparts hw.wellFormed hensure) hnode
  obtain ⟨inner, hparent⟩ := ensureParent_parent hensure
  refine outcome_commit (looseName_of_valid hwell) ?_
  intro state hr hrev hcons
  refine h state hr ⟨rfl, hcons, hrev, ?_⟩
  show (FileTree.directory state.root).view = _
  rw [hr, assignChild_view hroot hparent, ensureParent_view hroot hensure]
  rfl

/-! ## Section 3: The mutations of one path -/

variable {w : MemoryWorkspace}

theorem mkdir_outcome (hw : Consistent w.limits w.state) (request : MakeDirectoryRequest) :
    Call.Outcome (mkdir request) w fun _ w' =>
      (request.existOk = true ∧ w.view request.path.parts = some .directory ∧ w' = w) ∨
      (w.view request.path.parts = none ∧
        ParentsReady request.createParents request.path.parts w.view ∧
        Advanced w w' (View.assign request.path.parts .directory
          (withParents request.createParents request.path.parts w.view))) := by
  unfold mkdir
  rw [Call.outcome_get_bind]
  refine Call.outcome_lift_bind fun _ hvalid => ?_
  obtain ⟨hvalue, hallows⟩ := validatePath_eq_ok.mp hvalid
  refine Call.outcome_lift_bind fun existing hexisting => ?_
  have hat := tryGetNode_eq_ok hexisting
  cases existing with
  | some node =>
    show Call.Outcome (if _ then _ else _) w _
    split
    · next hok =>
      refine Call.outcome_lift_bind fun hash _ => ?_
      refine .inl ⟨hok.1, ?_, rfl⟩
      cases node with
      | file c => simp [kind] at hok
      | directory cs => exact FileTree.view_eq_directory_iff.mpr ⟨cs, hat.symm⟩
    · exact Call.outcome_throw
  | none =>
    have habsent : w.view request.path.parts = none := FileTree.view_eq_none_iff.mpr hat.symm
    have hroot : request.path.isRoot = false := by
      rw [Bool.eq_false_iff, ne_eq, SandboxPath.isRoot_iff hvalue]
      intro hnil
      rw [hnil] at habsent
      simp [view] at habsent
    refine Call.outcome_lift_bind fun cloned hclone => ?_
    rw [hw.cloneDirectory, Except.ok.injEq] at hclone
    subst hclone
    refine Call.outcome_lift_bind fun root hensure => ?_
    refine outcome_assign hw hroot hvalue hensure .empty fun state hstate hadv => ?_
    have hready := ensureParent_ready hroot hensure
    rw [FileTree.view_directory_nil, graft_single_withParents hw (by simp [habsent])] at hadv
    have hview : (FileTree.directory state.root).view request.path.parts = some .directory := by
      have := congrFun hadv.view request.path.parts
      rwa [View.assign_self] at this
    obtain ⟨cs, hcs⟩ := FileTree.view_eq_directory_iff.mp hview
    obtain ⟨hash, hhash, -⟩ := hadv.consistent.nodeHash hcs
    refine Call.returns_lift_bind (getNode_eq_ok_iff.mpr hcs) ?_
    refine Call.returns_lift_bind hhash ?_
    exact .inr ⟨habsent, hready, hadv⟩

/-- What a write precondition asks of the entry that is there. -/
def PreconditionHolds : WritePrecondition → Option (Entry Bytes) → Prop
  | .anyCurrentState, _ => True
  | .pathMustNotExist, e => e = none
  | .contentHashMustEqual hash, e => ∃ c, e = some (.file c) ∧ ContentHash.fromBytes c = hash

/-- An accepted precondition holds, and the target is no directory. -/
theorem validateWritePrecondition_ok {path : SandboxPath} {existing : Option Node}
    {precondition : WritePrecondition} {hash : Option ContentHash}
    (h : validateWritePrecondition path existing precondition = .ok hash) :
    existing.map FileTree.entry ≠ some .directory ∧
      PreconditionHolds precondition (existing.map FileTree.entry) := by
  cases existing with
  | none => cases precondition <;> simp_all [validateWritePrecondition, PreconditionHolds]
  | some node =>
    cases node with
    | directory cs => simp [validateWritePrecondition] at h
    | file c =>
      cases precondition with
      | anyCurrentState => simp [PreconditionHolds]
      | pathMustNotExist => simp [validateWritePrecondition] at h
      | contentHashMustEqual expected =>
        by_cases hne : ContentHash.fromBytes c ≠ expected
        · simp [validateWritePrecondition, hne] at h
        · rw [ne_eq, not_not] at hne
          exact ⟨by simp, c, rfl, hne⟩

theorem write_outcome (hw : Consistent w.limits w.state) (request : WorkspaceWriteRequest) :
    Call.Outcome (write request) w fun _ w' =>
      w.view request.path.parts ≠ some .directory ∧
        PreconditionHolds request.precondition (w.view request.path.parts) ∧
        ParentsReady request.createParents request.path.parts w.view ∧
        Advanced w w' (View.assign request.path.parts (.file request.content)
          (withParents request.createParents request.path.parts w.view)) := by
  unfold write
  rw [Call.outcome_get_bind]
  refine Call.outcome_lift_bind fun _ hvalid => ?_
  obtain ⟨hvalue, hallows⟩ := validatePath_eq_ok.mp hvalid
  refine Call.outcome_lift_bind fun _ hroot => ?_
  have hroot := require_eq_ok.mp hroot
  refine Call.outcome_lift_bind fun _ _ => ?_
  refine Call.outcome_lift_bind fun existing hexisting => ?_
  have hat := tryGetNode_eq_ok hexisting
  refine Call.outcome_lift_bind fun hash hprecondition => ?_
  obtain ⟨hfile, hholds⟩ := validateWritePrecondition_ok hprecondition
  have hentry : existing.map FileTree.entry = w.view request.path.parts := by
    rw [hat]
    rfl
  rw [hentry] at hfile hholds
  refine Call.outcome_lift_bind fun cloned hclone => ?_
  rw [hw.cloneDirectory, Except.ok.injEq] at hclone
  subst hclone
  refine Call.outcome_lift_bind fun root hensure => ?_
  refine outcome_assign hw hroot hvalue hensure (.file request.content) fun state _ hadv => ?_
  rw [FileTree.view_file, graft_single_withParents hw hfile] at hadv
  exact ⟨hfile, hholds, ensureParent_ready hroot hensure, hadv⟩

/-- The bytes at a path, none when it holds no file. -/
def contentAt (m : View Text Bytes) (p : List Text) : Bytes :=
  match m p with
  | some (.file content) => content
  | _ => []

theorem append_outcome (hw : Consistent w.limits w.state) (request : WorkspaceAppendRequest) :
    Call.Outcome (append request) w fun _ w' =>
      w.view request.path.parts ≠ some .directory ∧
        PreconditionHolds request.precondition (w.view request.path.parts) ∧
        ParentsReady request.createParents request.path.parts w.view ∧
        Advanced w w' (View.assign request.path.parts
          (.file (contentAt w.view request.path.parts ++ request.content))
          (withParents request.createParents request.path.parts w.view)) := by
  unfold append
  rw [Call.outcome_get_bind]
  refine Call.outcome_lift_bind fun _ hvalid => ?_
  obtain ⟨hvalue, hallows⟩ := validatePath_eq_ok.mp hvalid
  refine Call.outcome_lift_bind fun _ hroot => ?_
  have hroot := require_eq_ok.mp hroot
  refine Call.outcome_lift_bind fun existing hexisting => ?_
  have hat := tryGetNode_eq_ok hexisting
  refine Call.outcome_lift_bind fun hash hprecondition => ?_
  obtain ⟨hfile, hholds⟩ := validateWritePrecondition_ok hprecondition
  have hentry : existing.map FileTree.entry = w.view request.path.parts := by
    rw [hat]
    rfl
  have hcontent : previousContent existing = contentAt w.view request.path.parts := by
    unfold contentAt
    rw [← hentry]
    cases existing with
    | none => rfl
    | some node => cases node <;> rfl
  rw [hentry] at hfile hholds
  refine Call.outcome_lift_bind fun _ _ => ?_
  refine Call.outcome_lift_bind fun cloned hclone => ?_
  rw [hw.cloneDirectory, Except.ok.injEq] at hclone
  subst hclone
  refine Call.outcome_lift_bind fun root hensure => ?_
  refine outcome_assign hw hroot hvalue hensure (.file _) fun state _ hadv => ?_
  rw [hcontent, FileTree.view_file, graft_single_withParents hw hfile] at hadv
  exact ⟨hfile, hholds, ensureParent_ready hroot hensure, hadv⟩

theorem remove_outcome (hw : Consistent w.limits w.state) (request : RemovePathRequest) :
    Call.Outcome (remove request) w fun _ w' =>
      (request.missingOk = true ∧ w.view request.path.parts = none ∧ w' = w) ∨
      (request.path.parts ≠ [] ∧ w.view request.path.parts ≠ none ∧
        (request.recursive = true ∨ ∀ q, request.path.parts <+: q → q ≠ request.path.parts →
          w.view q = none) ∧
        Advanced w w' (View.without request.path.parts w.view)) := by
  unfold remove
  rw [Call.outcome_get_bind]
  refine Call.outcome_lift_bind fun _ hvalid => ?_
  obtain ⟨hvalue, hallows⟩ := validatePath_eq_ok.mp hvalid
  refine Call.outcome_lift_bind fun _ hroot => ?_
  have hroot := require_eq_ok.mp hroot
  refine Call.outcome_lift_bind fun existing hexisting => ?_
  have hat := tryGetNode_eq_ok hexisting
  cases existing with
  | none =>
    show Call.Outcome (if _ then _ else _) w _
    split
    · next hok => exact .inl ⟨hok, FileTree.view_eq_none_iff.mpr hat.symm, rfl⟩
    · exact Call.outcome_throw
  | some node =>
    have hpresent : w.view request.path.parts = some node.entry := by
      show (FileTree.at? _ _).map _ = _
      rw [← hat]
      rfl
    refine Call.outcome_lift_bind fun _ hempty => ?_
    have hempty := require_eq_ok.mp hempty
    refine Call.outcome_lift_bind fun hash _ => ?_
    refine Call.outcome_lift_bind fun cloned hclone => ?_
    rw [hw.cloneDirectory, Except.ok.injEq] at hclone
    subst hclone
    refine Call.outcome_lift_bind fun parent hparent => ?_
    rw [getParent_eq_ok_iff hroot] at hparent
    refine outcome_commit (looseName_of_valid (deleteChild_wellFormed hw.wellFormed)) ?_
    intro state hr hrev hcons
    refine .inr ⟨?_, by simp [hpresent], ?_, rfl, hcons, hrev, ?_⟩
    · rw [ne_eq, ← SandboxPath.isRoot_iff hvalue, hroot]
      simp
    · refine hempty.symm.imp_right fun hleaf => ?_
      intro q hq hne
      obtain ⟨r, rfl⟩ := hq
      show (FileTree.directory w.state.root).view _ = none
      rw [FileTree.view_append hat.symm]
      cases r with
      | nil => simp at hne
      | cons s r =>
        cases node with
        | file c => simp
        | directory cs =>
          cases cs with
          | nil => simp [FileTree.view_directory_cons]
          | cons => simp [isNonEmptyDirectory] at hleaf
    · show (FileTree.directory state.root).view = _
      rw [hr, deleteChild_view hroot hw.wellFormed hparent]
      rfl

/-! ## Section 4: The mutations of two paths -/

omit [Sha256] in
/-- Accepted transfer paths are not the root, and neither contains the other. -/
theorem validateTransferPaths_ok {source destination : SandboxPath} {u : Unit}
    (hs : source.value ≠ []) (hd : destination.value ≠ [])
    (h : validateTransferPaths source destination = .ok u) :
    source.isRoot = false ∧ destination.isRoot = false ∧
      ¬ source.parts <+: destination.parts ∧ ¬ destination.parts <+: source.parts := by
  simp only [validateTransferPaths, Except.bind_eq_ok_iff, require_eq_ok] at h
  obtain ⟨_, ⟨hsroot, hdroot⟩, _, hne, hsd, hds⟩ := h
  have hparts : source.parts ≠ destination.parts := fun heq => hne (SandboxPath.ext_parts hs hd heq)
  refine ⟨hsroot, hdroot, ?_, ?_⟩
  · intro hpre
    rw [(SandboxPath.isAncestorOf_iff hs hd).mpr ⟨hpre, hparts⟩] at hsd
    cases hsd
  · intro hpre
    rw [(SandboxPath.isAncestorOf_iff hd hs).mpr ⟨hpre, hparts.symm⟩] at hds
    cases hds

/-- Once the destination holds a node of a consistent state, the rest of a
    transfer returns. -/
theorem returns_destination {α : Type} {w : MemoryWorkspace} {state : WorkspaceState}
    (hcons : Consistent w.limits state) {path : SandboxPath} {e : Entry Bytes}
    (h : (FileTree.directory state.root).view path.parts = some e)
    {f : ContentHash → Method α} {post : α → MemoryWorkspace → Prop}
    (hf : ∀ hash, Call.Returns (f hash) { w with state } post) :
    Call.Returns (do
      let node ← liftM (getNode state.root path)
      let hash ← liftM (nodeHash node)
      f hash) { w with state } post := by
  obtain ⟨node, hnode, -⟩ := Option.map_eq_some_iff.mp h
  obtain ⟨hash, hhash, -⟩ := hcons.nodeHash hnode
  refine Call.returns_lift_bind (getNode_eq_ok_iff.mpr hnode) ?_
  exact Call.returns_lift_bind hhash (hf hash)

theorem copy_outcome (hw : Consistent w.limits w.state) (request : CopyPathRequest) :
    Call.Outcome (copy request) w fun _ w' =>
      w.view request.source.parts ≠ none ∧
        (w.view request.destination.parts = none ∨ request.overwrite = true) ∧
        ¬ request.source.parts <+: request.destination.parts ∧
        ¬ request.destination.parts <+: request.source.parts ∧
        ParentsReady request.createParents request.destination.parts w.view ∧
        Advanced w w' (View.graft request.destination.parts
          (View.subtree request.source.parts w.view)
          (withParents request.createParents request.destination.parts w.view)) := by
  unfold copy
  rw [Call.outcome_get_bind]
  refine Call.outcome_lift_bind fun _ hsvalid => ?_
  obtain ⟨hsvalue, -⟩ := validatePath_eq_ok.mp hsvalid
  refine Call.outcome_lift_bind fun _ hdvalid => ?_
  obtain ⟨hdvalue, -⟩ := validatePath_eq_ok.mp hdvalid
  refine Call.outcome_lift_bind fun _ htransfer => ?_
  obtain ⟨hsroot, hdroot, hsd, hds⟩ := validateTransferPaths_ok hsvalue hdvalue htransfer
  refine Call.outcome_lift_bind fun source hsource => ?_
  rw [getNode_eq_ok_iff] at hsource
  refine Call.outcome_lift_bind fun existing hexisting => ?_
  have hat := tryGetNode_eq_ok hexisting
  refine Call.outcome_lift_bind fun _ hoverwrite => ?_
  have hoverwrite := require_eq_ok.mp hoverwrite
  refine Call.outcome_lift_bind fun hash _ => ?_
  refine Call.outcome_lift_bind fun cloned hclone => ?_
  rw [hw.cloneDirectory, Except.ok.injEq] at hclone
  subst hclone
  refine Call.outcome_lift_bind fun root hensure => ?_
  refine Call.outcome_lift_bind fun clonedSource hcloned => ?_
  obtain ⟨-, rfl⟩ := cloneNode_eq_ok.mp hcloned
  refine outcome_assign hw hdroot hdvalue hensure (hw.wellFormed.at? hsource) fun state _ hadv => ?_
  rw [← FileTree.subtree_view hsource] at hadv
  have hview := congrFun hadv.view request.destination.parts
  rw [View.graft, if_pos (List.prefix_refl _), List.drop_length, View.subtree, List.append_nil]
    at hview
  have hpresent : w.view request.source.parts = some clonedSource.entry :=
    Option.map_eq_some_iff.mpr ⟨_, hsource, rfl⟩
  refine returns_destination hadv.consistent (hview.trans hpresent) fun hash => ?_
  refine ⟨by simp [hpresent], ?_, hsd, hds, ensureParent_ready hdroot hensure, hadv⟩
  refine hoverwrite.imp_left fun hnone => ?_
  rw [hnone] at hat
  exact FileTree.view_eq_none_iff.mpr hat.symm

theorem move_outcome (hw : Consistent w.limits w.state) (request : MovePathRequest) :
    Call.Outcome (move request) w fun _ w' =>
      w.view request.source.parts ≠ none ∧
        (w.view request.destination.parts = none ∨ request.overwrite = true) ∧
        ¬ request.source.parts <+: request.destination.parts ∧
        ¬ request.destination.parts <+: request.source.parts ∧
        ParentsReady request.createParents request.destination.parts w.view ∧
        Advanced w w' (View.graft request.destination.parts
          (View.subtree request.source.parts w.view)
          (View.without request.source.parts
            (withParents request.createParents request.destination.parts w.view))) := by
  unfold move
  rw [Call.outcome_get_bind]
  refine Call.outcome_lift_bind fun _ hsvalid => ?_
  obtain ⟨hsvalue, -⟩ := validatePath_eq_ok.mp hsvalid
  refine Call.outcome_lift_bind fun _ hdvalid => ?_
  obtain ⟨hdvalue, -⟩ := validatePath_eq_ok.mp hdvalid
  refine Call.outcome_lift_bind fun _ htransfer => ?_
  obtain ⟨hsroot, hdroot, hsd, hds⟩ := validateTransferPaths_ok hsvalue hdvalue htransfer
  refine Call.outcome_lift_bind fun _ _ => ?_
  refine Call.outcome_lift_bind fun existing hexisting => ?_
  have hat := tryGetNode_eq_ok hexisting
  refine Call.outcome_lift_bind fun _ hoverwrite => ?_
  have hoverwrite := require_eq_ok.mp hoverwrite
  refine Call.outcome_lift_bind fun hash _ => ?_
  refine Call.outcome_lift_bind fun cloned hclone => ?_
  rw [hw.cloneDirectory, Except.ok.injEq] at hclone
  subst hclone
  refine Call.outcome_lift_bind fun source hsource => ?_
  rw [getNode_eq_ok_iff] at hsource
  refine Call.outcome_lift_bind fun root hensure => ?_
  refine Call.outcome_lift_bind fun sourceParent hsourceParent => ?_
  rw [getParent_eq_ok_iff hsroot] at hsourceParent
  have hdparts := (SandboxPath.value_eq_render hdvalue).2
  have hrootWell := ensureParent_wellFormed hdparts hw.wellFormed hensure
  have hdeletedWell : (FileTree.directory (deleteChild request.source root)).WellFormed
      SandboxPath.ValidSegment := deleteChild_wellFormed hrootWell
  have hdeletedView := deleteChild_view hsroot hrootWell hsourceParent
  rw [ensureParent_view hdroot hensure] at hdeletedView
  -- the destination's parent is not below the source, so it is still there
  obtain ⟨inner, hparent⟩ : ∃ inner, (FileTree.directory (deleteChild request.source root)).at?
      request.destination.parts.dropLast = some (.directory inner) := by
    obtain ⟨inner, hinner⟩ := ensureParent_parent hensure
    rw [← FileTree.view_eq_directory_iff, hdeletedView, View.without, if_neg,
      ← ensureParent_view hdroot hensure]
    · exact FileTree.view_eq_directory_iff.mpr ⟨inner, hinner⟩
    · intro hpre
      have hparent := List.dropLast_prefix request.destination.parts
      exact hsd (hpre.trans hparent)
  refine outcome_commit (looseName_of_valid
    (assignChild_wellFormed hdroot hdparts hdeletedWell (hw.wellFormed.at? hsource))) ?_
  intro state hr hrev hcons
  have hstate : (FileTree.directory state.root).view =
      View.graft request.destination.parts (View.subtree request.source.parts w.view)
        (View.without request.source.parts
          (withParents request.createParents request.destination.parts w.view)) := by
    rw [hr, assignChild_view hdroot hparent, hdeletedView, ← FileTree.subtree_view hsource]
    rfl
  have hview := congrFun hstate request.destination.parts
  rw [View.graft, if_pos (List.prefix_refl _), List.drop_length, View.subtree, List.append_nil]
    at hview
  have hpresent : w.view request.source.parts = some source.entry :=
    Option.map_eq_some_iff.mpr ⟨_, hsource, rfl⟩
  refine returns_destination hcons (hview.trans hpresent) fun hash => ?_
  refine ⟨by simp [hpresent], ?_, hsd, hds, ensureParent_ready hdroot hensure, rfl, hcons, hrev,
    hstate⟩
  refine hoverwrite.imp_left fun hnone => ?_
  rw [hnone] at hat
  exact FileTree.view_eq_none_iff.mpr hat.symm

/-! ## Section 5: Patches -/

/-- The bytes that a file's hunks make of its content. -/
def patchContent (filePatch : FilePatch) (content : Bytes) : Option Bytes := do
  let text ← decodeUtf8 content
  let patchedText ← (applyFilePatch text filePatch).toOption
  encodeUtf8 patchedText

/-- What an update was computed from. -/
structure UpdateOf (root : DirectoryNode) (filePatch : FilePatch) (update : PatchUpdate) (old : Bytes) :
    Prop where
  path : update.path = filePatch.path
  old_content : (FileTree.directory root).at? filePatch.path.parts = some (.file old)
  new_content : patchContent filePatch old = some update.content

omit [Sha256] in
theorem decodeContent_eq_ok {path : SandboxPath} {content : Bytes} {text : Text} :
    decodeContent path content = .ok text ↔ decodeUtf8 content = some text := by
  unfold decodeContent
  cases decodeUtf8 content <;> simp

omit [Sha256] in
theorem encode_eq_ok {text : Text} {content : Bytes} :
    encode text = .ok content ↔ encodeUtf8 text = some content := by
  unfold encode
  cases encodeUtf8 text <;> simp

/-- Every section of a patch has its update, and no update comes from elsewhere;
    the expected hashes are those of the old contents. -/
theorem patchUpdates_ok {limits : WorkspaceLimits} {root : DirectoryNode}
    {expectedHashes : List ExpectedFileHash} {filePatches : List FilePatch}
    {updates : List PatchUpdate}
    (h : patchUpdates limits root expectedHashes filePatches = .ok updates) :
    updates.map PatchUpdate.path = filePatches.map FilePatch.path ∧
      (∀ f ∈ filePatches, ∃ u ∈ updates, ∃ old, UpdateOf root f u old ∧
        (expectedHashes.find? (·.path = f.path)).all (·.contentHash = ContentHash.fromBytes old)) ∧
      ∀ u ∈ updates, ∃ f ∈ filePatches, ∃ old, UpdateOf root f u old := by
  induction filePatches generalizing updates with
  | nil =>
    simp only [patchUpdates, Except.ok.injEq] at h
    subst h
    simp
  | cons f filePatches ih =>
    simp only [patchUpdates, Except.bind_eq_ok_iff, require_eq_ok, getNode_eq_ok_iff,
      requireFile_eq_ok, decodeContent_eq_ok, encode_eq_ok, Except.ok.injEq] at h
    obtain ⟨node, hnode, old, rfl, _, hexpected, text, htext, patched, hpatched, content, hcontent,
      _, _, tail, htail, rfl⟩ := h
    obtain ⟨hpaths, hall, hback⟩ := ih htail
    have hupdate : UpdateOf root f ⟨f.path, content, .fromBytes old, .fromBytes content⟩ old := by
      refine ⟨rfl, hnode, ?_⟩
      simp [patchContent, htext, hpatched, hcontent, Except.toOption]
    refine ⟨by simp [hpaths], ?_, ?_⟩
    · refine List.forall_mem_cons.mpr ⟨⟨_, List.mem_cons_self, old, hupdate, hexpected⟩, ?_⟩
      intro g hg
      obtain ⟨u, hu, hrest⟩ := hall g hg
      exact ⟨u, List.mem_cons_of_mem _ hu, hrest⟩
    · refine List.forall_mem_cons.mpr ⟨⟨f, List.mem_cons_self, old, hupdate⟩, ?_⟩
      intro u hu
      obtain ⟨g, hg, hrest⟩ := hback u hu
      exact ⟨g, List.mem_cons_of_mem _ hg, hrest⟩

omit [Sha256] in
/-- Assigning files in place of files assigns the map path by path. -/
theorem assignUpdates_ok {P : Text → Prop} {updates : List PatchUpdate}
    {root root' : DirectoryNode} (hwell : (FileTree.directory root).WellFormed P)
    (hfiles : ∀ u ∈ updates, u.path.isRoot = false ∧ (∀ s ∈ u.path.parts, P s) ∧
      ∃ c, (FileTree.directory root).view u.path.parts = some (.file c))
    (hnodup : (updates.map fun u => u.path.parts).Nodup)
    (h : assignUpdates updates root = .ok root') :
    (FileTree.directory root').WellFormed P ∧
      (∀ u ∈ updates, (FileTree.directory root').view u.path.parts = some (.file u.content)) ∧
      ∀ q, q ∉ updates.map (fun u => u.path.parts) →
        (FileTree.directory root').view q = (FileTree.directory root).view q := by
  induction updates generalizing root with
  | nil =>
    simp only [assignUpdates, Except.ok.injEq] at h
    subst h
    exact ⟨hwell, by simp, by simp⟩
  | cons u updates ih =>
    simp only [assignUpdates, Except.bind_eq_ok_iff] at h
    obtain ⟨parent, hparent, h⟩ := h
    obtain ⟨⟨hroot, hparts, c, hc⟩, hfiles⟩ := List.forall_mem_cons.mp hfiles
    rw [List.map_cons, List.nodup_cons] at hnodup
    have hwell' := assignChild_wellFormed hroot hparts hwell (FileTree.WellFormed.file u.content)
    have hview : (FileTree.directory (assignChild u.path (.file u.content) root)).view =
        View.assign u.path.parts (.file u.content) (FileTree.directory root).view := by
      rw [assignChild_view hroot ((getParent_eq_ok_iff hroot).mp hparent), FileTree.view_file]
      refine View.graft_single _ ?_
      rintro q ⟨r, rfl⟩ hne
      rw [FileTree.view_append (FileTree.view_eq_file_iff.mp hc)]
      cases r with
      | nil => simp at hne
      | cons => rfl
    have hother : ∀ q, q ≠ u.path.parts →
        (FileTree.directory (assignChild u.path (.file u.content) root)).view q =
          (FileTree.directory root).view q := by
      intro q hq
      rw [hview, View.assign_of_ne hq]
    have hne : ∀ v ∈ updates, v.path.parts ≠ u.path.parts := by
      intro v hv heq
      exact hnodup.1 (heq ▸ List.mem_map_of_mem hv)
    obtain ⟨hwell'', hin, hout⟩ := ih hwell' (fun v hv => by
      obtain ⟨hvroot, hvparts, d, hd⟩ := hfiles v hv
      exact ⟨hvroot, hvparts, d, by rw [hother _ (hne v hv), hd]⟩) hnodup.2 h
    refine ⟨hwell'', List.forall_mem_cons.mpr ⟨?_, hin⟩, ?_⟩
    · rw [hout _ hnodup.1, hview, View.assign_self]
    · intro q hq
      rw [List.map_cons, List.mem_cons, not_or] at hq
      rw [hout q hq.2, hother q hq.1]

/-- What an accepted patch makes of the map: every file it names is rewritten
    by its hunks, and nothing else moves. -/
structure PatchApplied (limits : WorkspaceLimits) [UnicodeData] (request : WorkspacePatchRequest)
    (m m' : View Text Bytes) : Prop where
  files : ∃ filePatches : List FilePatch,
    parseUnifiedDiff request.patch (fun value => resolvePath limits value (some .root)) =
      .ok filePatches ∧
    (∀ f ∈ filePatches, ∃ old new, m f.path.parts = some (.file old) ∧
      patchContent f old = some new ∧ m' f.path.parts = some (.file new)) ∧
    ∀ q, (∀ f ∈ filePatches, f.path.parts ≠ q) → m' q = m q
  expected : ∀ item ∈ request.expectedHashes, ∃ old,
    m item.path.parts = some (.file old) ∧ ContentHash.fromBytes old = item.contentHash

theorem patch_outcome [UnicodeData] {w : MemoryWorkspace} (hw : Consistent w.limits w.state)
    (request : WorkspacePatchRequest) :
    Call.Outcome (patch request) w fun _ w' =>
      PatchApplied w.limits request w.view w'.view ∧ Advanced w w' w'.view := by
  unfold patch
  rw [Call.outcome_get_bind]
  cases utf8Length request.patch with
  | none => exact Call.outcome_throw
  | some patchBytes =>
    refine Call.outcome_lift_bind fun _ _ => ?_
    refine Call.outcome_lift_bind fun filePatches hparse => ?_
    obtain ⟨hnodup, hresolved⟩ := parseUnifiedDiff_paths hparse
    have hvalue : ∀ f ∈ filePatches, f.path.value ≠ [] := by
      intro f hf
      obtain ⟨value, hvalue⟩ := hresolved f hf
      exact (SandboxPath.resolve_fits hvalue).1
    refine Call.outcome_lift_bind fun _ hknown => ?_
    have hknown := require_eq_ok.mp hknown
    refine Call.outcome_lift_bind fun updates hupdates => ?_
    obtain ⟨hpaths, hall, hback⟩ := patchUpdates_ok hupdates
    refine Call.outcome_lift_bind fun cloned hclone => ?_
    rw [hw.cloneDirectory, Except.ok.injEq] at hclone
    subst hclone
    refine Call.outcome_lift_bind fun root hroot => ?_
    have hfiles : ∀ u ∈ updates, u.path.isRoot = false ∧
        (∀ s ∈ u.path.parts, SandboxPath.ValidSegment s) ∧
        ∃ c, w.view u.path.parts = some (.file c) := by
      intro u hu
      obtain ⟨f, hf, old, hupdate⟩ := hback u hu
      have hview := FileTree.view_eq_file_iff.mpr hupdate.old_content
      rw [hupdate.path]
      refine ⟨?_, (SandboxPath.value_eq_render (hvalue f hf)).2, old, hview⟩
      rw [Bool.eq_false_iff, ne_eq, SandboxPath.isRoot_iff (hvalue f hf)]
      intro hnil
      rw [hnil] at hview
      simp at hview
    have hdistinct : (updates.map fun u => u.path.parts).Nodup := by
      rw [← hpaths] at hnodup
      have : updates.map (fun u => u.path.parts) =
          (updates.map PatchUpdate.path).map SandboxPath.parts := by
        rw [List.map_map]
        rfl
      rw [this]
      refine hnodup.map_on ?_
      intro p hp q hq heq
      have hne : ∀ p ∈ updates.map PatchUpdate.path, p.value ≠ [] := by
        intro p hp
        rw [hpaths] at hp
        obtain ⟨f, hf, rfl⟩ := List.mem_map.mp hp
        exact hvalue f hf
      exact SandboxPath.ext_parts (hne p hp) (hne q hq) heq
    obtain ⟨hwell, hin, hout⟩ := assignUpdates_ok hw.wellFormed hfiles hdistinct hroot
    refine outcome_commit (looseName_of_valid hwell) ?_
    intro state hr hrev hcons
    have hview : view { w with state } = (FileTree.directory root).view := by rw [← hr]; rfl
    refine ⟨⟨⟨filePatches, hparse, ?_, ?_⟩, ?_⟩, rfl, hcons, hrev, rfl⟩
    · intro f hf
      obtain ⟨u, hu, old, hupdate, -⟩ := hall f hf
      refine ⟨old, u.content, FileTree.view_eq_file_iff.mpr hupdate.old_content,
        hupdate.new_content, ?_⟩
      rw [hview, ← hupdate.path]
      exact hin u hu
    · intro q hq
      rw [hview]
      refine hout q ?_
      rw [List.mem_map]
      rintro ⟨u, hu, rfl⟩
      obtain ⟨f, hf, old, hupdate⟩ := hback u hu
      exact hq f hf (by rw [hupdate.path])
    · intro item hitem
      obtain ⟨f, hf, hpath⟩ := List.mem_map.mp (hknown item hitem)
      obtain ⟨u, hu, old, hupdate, hexpected⟩ := hall f hf
      refine ⟨old, ?_, ?_⟩
      · rw [← hpath]
        exact FileTree.view_eq_file_iff.mpr hupdate.old_content
      · -- at most one expectation names a path, so the one found is this one
        cases hfind : request.expectedHashes.find? (·.path = f.path) with
        | none =>
          have := List.find?_eq_none.mp hfind item hitem
          simp [hpath] at this
        | some found =>
          have hfound := List.find?_some hfind
          have hmem := List.mem_of_find?_eq_some hfind
          simp only [decide_eq_true_eq] at hfound
          have hitems : found = item :=
            List.inj_on_of_nodup_map request.distinct hmem hitem (hfound.trans hpath)
          rw [hfind, hitems] at hexpected
          simpa [eq_comm] using hexpected

end MemoryWorkspace
