import MemSandbox.CommandExecutor.CommandProfile
import MemSandbox.Workspace.PathLaws
import MemSandbox.Workspace.Reads
import MemSandbox.Workspace.Runs

/-! # What `find` lists

    The walk visits a subtree in preorder, and what `find` prints for a node
    resolves to the node again.

    * **Section 1** displayed paths: the operand goes on as the path does;
    * **Section 2** the walk, by induction on the subtree;
    * **Section 3** the command. -/

open Python FileMap

/-! ## Section 1: Displayed paths -/

section displayed

variable {maxPathBytes maxSegmentBytes : Nat}

/-- A text is its stripped form and some slashes. -/
theorem stripped_spec (text : Text) :
    ∃ n, text = (text.reverse.dropWhile (· = slash)).reverse ++ List.replicate n slash := by
  refine ⟨(text.reverse.takeWhile (· = slash)).length, ?_⟩
  have hslashes : text.reverse.takeWhile (· = slash) =
      List.replicate (text.reverse.takeWhile (· = slash)).length slash := by
    rw [List.eq_replicate_iff]
    exact ⟨rfl, fun c hc => by simpa using List.mem_takeWhile_imp hc⟩
  have hreverse := congrArg List.reverse
    (List.takeWhile_append_dropWhile (p := fun c => decide (c = slash)) (l := text.reverse))
  rw [List.reverse_reverse, List.reverse_append, hslashes, List.reverse_replicate] at hreverse
  exact hreverse.symm

/-- Slashes at the end change nothing. -/
theorem resolve_stripped {text : Text} (htext : (text.reverse.dropWhile (· = slash)).reverse ≠ [])
    (cwd : Option SandboxPath) :
    SandboxPath.resolve (text.reverse.dropWhile (· = slash)).reverse cwd maxPathBytes
        maxSegmentBytes =
      SandboxPath.resolve text cwd maxPathBytes maxSegmentBytes := by
  obtain ⟨n, hn⟩ := stripped_spec text
  generalize (text.reverse.dropWhile (· = slash)).reverse = stripped at *
  subst hn
  induction n with
  | zero => rw [List.replicate_zero, List.append_nil]
  | succ n ih =>
    rw [List.replicate_succ', ← List.append_assoc,
      SandboxPath.resolve_trailing (List.append_ne_nil_of_left_ne_nil htext _), ih]

/-- What `find` prints for the operand itself. -/
def displayBase (operand : Text) (root : SandboxPath) : Text :=
  if startsWith operand (py "/") then root.value
  else if (operand.reverse.dropWhile (· = slash)).reverse = [] then py "."
  else (operand.reverse.dropWhile (· = slash)).reverse

/-- Below the operand, `find` prints the rest of the path after it. -/
theorem displayPath_eq (operand : Text) (root path : SandboxPath) :
    displayPath operand root path =
      if path.parts.drop root.parts.length = [] then displayBase operand root
      else displayBase operand root ++ slash ::
        join (py "/") (path.parts.drop root.parts.length) := by
  unfold displayPath
  show (if _ then displayBase operand root else
    if displayBase operand root = py "." then _ else displayBase operand root ++ _ ++ _) = _
  by_cases hself : path.parts.drop root.parts.length = []
  · rw [if_pos hself, if_pos hself]
  · rw [if_neg hself, if_neg hself]
    by_cases hdot : displayBase operand root = py "."
    · rw [if_pos hdot, hdot]
      rfl
    · rw [if_neg hdot, List.append_assoc]
      rfl

/-- The base resolves to what the operand does. -/
theorem resolve_displayBase {operand : Text} {cwd : Option SandboxPath} {root : SandboxPath}
    (h : SandboxPath.resolve operand cwd maxPathBytes maxSegmentBytes = .ok root) :
    SandboxPath.resolve (displayBase operand root) cwd maxPathBytes maxSegmentBytes = .ok root := by
  unfold displayBase
  by_cases habsolute : startsWith operand (py "/") = true
  · rw [if_pos habsolute]
    exact SandboxPath.resolve_self h cwd
  · rw [if_neg habsolute]
    -- a relative operand does not consist of slashes
    have hstripped : (operand.reverse.dropWhile (· = slash)).reverse ≠ [] := by
      intro hnil
      obtain ⟨n, hn⟩ := stripped_spec operand
      rw [hnil, List.nil_append] at hn
      have hne : operand ≠ [] := SandboxPath.resolve_ne_nil h
      cases n with
      | zero => exact hne hn
      | succ n =>
        rw [hn, List.replicate_succ] at habsolute
        exact habsolute rfl
    rw [if_neg hstripped, resolve_stripped hstripped]
    exact h

/-- What `find` prints for a node resolves to the node. -/
theorem resolve_displayPath {operand : Text} {cwd : Option SandboxPath} {root path : SandboxPath}
    (h : SandboxPath.resolve operand cwd maxPathBytes maxSegmentBytes = .ok root)
    (hpath : path.value ≠ []) (hbelow : root.parts <+: path.parts)
    (hfits : SandboxPath.Fits maxPathBytes maxSegmentBytes path.parts) :
    SandboxPath.resolve (displayPath operand root path) cwd maxPathBytes maxSegmentBytes =
      .ok path := by
  have hbase := resolve_displayBase h
  have hroot := (SandboxPath.resolve_spec h).1
  obtain ⟨q, hq⟩ := hbelow
  rw [displayPath_eq, ← hq, List.drop_left]
  by_cases hself : q = []
  · rw [if_pos hself, hbase]
    rw [hself, List.append_nil] at hq
    rw [SandboxPath.ext_parts hroot hpath hq]
  · rw [if_neg hself]
    exact SandboxPath.resolve_below hbase hself hpath hq.symm hfits

end displayed

/-! ## Section 2: The walk -/

/-- What `find` says about an entry of the map. -/
def entryKind : Entry Bytes → NodeKind
  | .file _ => .file
  | .directory => .directory

/-- Preorder: the second path is below the first, or they part at two siblings,
    of which the first has the lesser name. -/
def Precedes (p q : List Text) : Prop :=
  (∃ r, r ≠ [] ∧ q = p ++ r) ∨
    ∃ front a b r r', a < b ∧ p = front ++ a :: r ∧ q = front ++ b :: r'

/-- A walk does not go below this depth. -/
def WithinDepth (maxDepth : Option Nat) (depth : Nat) : Prop := ∀ m, maxDepth = some m → depth ≤ m

/-- The nodes at and below `p`, which is itself at depth `d`, in preorder. -/
structure Walked (m : View Text Bytes) (maxDepth : Option Nat) (p : List Text) (d : Nat)
    (entries : List FoundNode) : Prop where
  sound : ∀ node ∈ entries, ∃ q e, node.path.value ≠ [] ∧ node.path.parts = p ++ q ∧
    m (p ++ q) = some e ∧ node.depth = d + q.length ∧ node.kind = entryKind e ∧
    WithinDepth maxDepth (d + q.length)
  complete : ∀ q, m (p ++ q) ≠ none → WithinDepth maxDepth (d + q.length) →
    ∃ node ∈ entries, node.path.parts = p ++ q
  ordered : entries.Pairwise fun a b => Precedes a.path.parts b.path.parts

theorem Precedes.ne {p q : List Text} (h : Precedes p q) : p ≠ q := by
  rintro rfl
  rcases h with ⟨r, hr, heq⟩ | ⟨front, a, b, r, r', hab, hp, hq⟩
  · exact hr (by simpa using heq.symm)
  · have hcons := List.append_cancel_left (hp.symm.trans hq)
    exact absurd (List.cons.inj hcons).1 hab.ne

/-- A parent comes before what is below it. -/
theorem Precedes.not_isPrefix {p q : List Text} (h : Precedes p q) : ¬ q <+: p := by
  rintro ⟨s, hs⟩
  rcases h with ⟨r, hr, rfl⟩ | ⟨front, a, b, r, r', hab, rfl, rfl⟩
  · have hlength := congrArg List.length hs
    rw [List.length_append, List.length_append] at hlength
    exact hr (List.eq_nil_of_length_eq_zero (by omega))
  · rw [List.append_assoc, List.cons_append] at hs
    have hcons := List.append_cancel_left hs
    exact absurd (List.cons.inj hcons).1 hab.ne'

/-- Siblings come in the order of their names. -/
theorem Precedes.siblings {front : List Text} {a b : Text}
    (h : Precedes (front ++ [a]) (front ++ [b])) : a < b := by
  rcases h with ⟨r, hr, heq⟩ | ⟨front', a', b', r, r', hab, hp, hq⟩
  · have hlength := congrArg List.length heq
    simp only [List.length_append, List.length_singleton] at hlength
    exact absurd (List.eq_nil_of_length_eq_zero (by omega)) hr
  · rcases List.eq_nil_or_concat r with rfl | ⟨r, x, rfl⟩
    · obtain ⟨rfl, ha⟩ := List.append_inj' hp rfl
      have hb := List.append_cancel_left hq
      rw [List.singleton_inj.mp ha, (List.cons.inj hb).1]
      exact hab
    · -- then the two names part above `a` and `b`
      rw [List.concat_eq_append, ← List.cons_append, ← List.append_assoc] at hp
      rw [(List.append_inj' hp rfl).1, List.append_assoc, List.cons_append] at hq
      have hcons := List.append_cancel_left hq
      exact absurd (List.cons.inj hcons).1 hab.ne

section walk

variable {m : View Text Bytes} {maxDepth : Option Nat} {p : List Text} {d : Nat}

/-- The walks of the children, each after the other. -/
inductive WalkedAll (m : View Text Bytes) (maxDepth : Option Nat) (p : List Text) (d : Nat) :
    List Text → List FoundNode → Prop
  | nil : WalkedAll m maxDepth p d [] []
  | cons {name : Text} {names : List Text} {first rest : List FoundNode}
      (hfirst : Walked m maxDepth (p ++ [name]) (d + 1) first)
      (hrest : WalkedAll m maxDepth p d names rest) :
      WalkedAll m maxDepth p d (name :: names) (first ++ rest)

/-- Every entry is below one of the children. -/
theorem WalkedAll.child_of_entry {names : List Text} {entries : List FoundNode}
    (h : WalkedAll m maxDepth p d names entries) :
    ∀ node ∈ entries, ∃ name ∈ names, ∃ first : List FoundNode, node ∈ first ∧
      Walked m maxDepth (p ++ [name]) (d + 1) first := by
  induction h with
  | nil => exact List.forall_mem_nil _
  | cons hfirst _ ih =>
    intro node hnode
    rcases List.mem_append.mp hnode with hnode | hnode
    · exact ⟨_, List.mem_cons_self, _, hnode, hfirst⟩
    · obtain ⟨name, hname, first, hmem, hwalked⟩ := ih node hnode
      exact ⟨name, List.mem_cons_of_mem _ hname, first, hmem, hwalked⟩

theorem WalkedAll.entries_of_child {names : List Text} {entries : List FoundNode}
    (h : WalkedAll m maxDepth p d names entries) :
    ∀ name ∈ names, ∃ first : List FoundNode, first ⊆ entries ∧
      Walked m maxDepth (p ++ [name]) (d + 1) first := by
  induction h with
  | nil => exact List.forall_mem_nil _
  | cons hfirst _ ih =>
    refine List.forall_mem_cons.mpr ⟨⟨_, List.subset_append_left _ _, hfirst⟩, fun name hname => ?_⟩
    obtain ⟨first, hsub, hwalked⟩ := ih name hname
    exact ⟨first, List.Subset.trans hsub (List.subset_append_right _ _), hwalked⟩

theorem WalkedAll.ordered {names : List Text} {entries : List FoundNode}
    (h : WalkedAll m maxDepth p d names entries) (hnames : names.Pairwise (· < ·)) :
    entries.Pairwise fun a b => Precedes a.path.parts b.path.parts := by
  induction h with
  | nil => exact .nil
  | cons hfirst hrest ih =>
    obtain ⟨hname, hnames⟩ := List.pairwise_cons.mp hnames
    refine List.pairwise_append.mpr ⟨hfirst.ordered, ih hnames, fun a ha b hb => ?_⟩
    obtain ⟨name, hmem, first, hfirstmem, hwalked⟩ := hrest.child_of_entry b hb
    obtain ⟨q, -, -, hq, -⟩ := hfirst.sound a ha
    obtain ⟨q', -, -, hq', -⟩ := hwalked.sound b hfirstmem
    refine .inr ⟨p, _, name, q, q', hname name hmem, ?_, ?_⟩
    · rw [hq, List.append_assoc, List.singleton_append]
    · rw [hq', List.append_assoc, List.singleton_append]

/-- A directory, and its children when the depth allows. -/
theorem Walked.directory {names : List Text} {entries : List FoundNode} {node : FoundNode}
    (hvalue : node.path.value ≠ []) (hpath : node.path.parts = p) (hdepth : node.depth = d)
    (hkind : node.kind = .directory) (hm : m p = some .directory)
    (hwithin : WithinDepth maxDepth d) (hnames : names.Pairwise (· < ·))
    (hmem : ∀ name, name ∈ names ↔ m (p ++ [name]) ≠ none ∧ WithinDepth maxDepth (d + 1))
    (hup : ∀ q k, m (p ++ k :: q) ≠ none → m (p ++ [k]) ≠ none)
    (h : WalkedAll m maxDepth p d names entries) : Walked m maxDepth p d (node :: entries) := by
  constructor
  case sound =>
    refine List.forall_mem_cons.mpr ⟨?_, fun other hother => ?_⟩
    · exact ⟨[], .directory, hvalue, by simpa using hpath, by simpa using hm, hdepth, hkind, hwithin⟩
    · obtain ⟨name, -, first, hfirst, hwalked⟩ := h.child_of_entry other hother
      obtain ⟨q, e, hv, hq, he, hd, hk, hw⟩ := hwalked.sound other hfirst
      rw [List.append_assoc, List.singleton_append] at hq he
      have hlength : d + 1 + q.length = d + (name :: q).length := by
        rw [List.length_cons]
        omega
      rw [hlength] at hd hw
      exact ⟨name :: q, e, hv, hq, he, hd, hk, hw⟩
  case complete =>
    intro q hq hw
    cases q with
    | nil => exact ⟨node, List.mem_cons_self, by simpa using hpath⟩
    | cons k q =>
      have hone : WithinDepth maxDepth (d + 1) := by
        intro limit hlimit
        have := hw limit hlimit
        rw [List.length_cons] at this
        omega
      obtain ⟨first, hsub, hwalked⟩ := h.entries_of_child k ((hmem k).mpr ⟨hup q k hq, hone⟩)
      have hsplit : p ++ k :: q = (p ++ [k]) ++ q := by simp
      rw [hsplit] at hq ⊢
      obtain ⟨other, hother, hparts⟩ := hwalked.complete q hq (by
        intro limit hlimit
        have := hw limit hlimit
        rw [List.length_cons] at this
        omega)
      exact ⟨other, List.mem_cons_of_mem _ (hsub hother), hparts⟩
  case ordered =>
    refine List.pairwise_cons.mpr ⟨fun other hother => ?_, h.ordered hnames⟩
    obtain ⟨name, -, first, hfirst, hwalked⟩ := h.child_of_entry other hother
    obtain ⟨q, -, -, hq, -⟩ := hwalked.sound other hfirst
    rw [List.append_assoc, List.singleton_append] at hq
    exact .inl ⟨name :: q, List.cons_ne_nil _ _, by rw [hq, hpath]⟩

end walk

namespace CommandWorld

variable {τ α : Type} [Sha256] {host : CommandHost τ}

omit [Sha256] in
/-- A read of the workspace returns what the method does. -/
theorem onWorkspace_of_ok (hlock : Grants host) {method : Method α} {s : CommandWorld τ} {a : α}
    (h : method s.workspace = (.ok a, s.workspace)) :
    ∃ t, onWorkspace host method s = (.ok a, { s with host := t }) := by
  refine ⟨(host.acquireLock s.host).2, ?_⟩
  rw [onWorkspace_apply hlock, h]
  rfl

variable {w : MemoryWorkspace} {maxDepth : Option Nat} {p : List Text} {d frames : Nat}

/-- The loop over the children. -/
theorem foldlM_visit {records : List WorkspaceEntry} {names : List Text}
    (h : List.Forall₂ (fun name record => ∀ output t, ∃ entries t',
      visitNode (reader host) maxDepth frames record.path (d + 1) output ⟨w, t⟩ =
        (.ok (output ++ entries), ⟨w, t'⟩) ∧
      Walked w.view maxDepth (p ++ [name]) (d + 1) entries) names records)
    (output : List FoundNode) (t : τ) :
    ∃ entries t', (records.foldlM (fun output child =>
        visitNode (reader host) maxDepth frames child.path (d + 1) output) output) ⟨w, t⟩ =
        (.ok (output ++ entries), ⟨w, t'⟩) ∧
      WalkedAll w.view maxDepth p d names entries := by
  induction h generalizing output t with
  | nil => exact ⟨[], t, by simp, .nil⟩
  | @cons name record names records hfirst _ ih =>
    obtain ⟨first, t₁, hrun, hwalked⟩ := hfirst output t
    obtain ⟨rest, t₂, hrest, hall⟩ := ih (output ++ first) t₁
    refine ⟨first ++ rest, t₂, ?_, .cons hwalked hall⟩
    rw [List.foldlM_cons, Call.bind_of_ok hrun, hrest, List.append_assoc]

/-- The children that a directory's visit goes on with. -/
def visitChildren (reader : CommandWorkspaceReader (CommandWorld τ)) (maxDepth : Option Nat)
    (frames : Nat) (path : SandboxPath) (depth : Nat) (output : List FoundNode) :
    Call (CommandWorld τ) Raised (List FoundNode) := do
  let children ← reader.list path
  children.foldlM (fun output child => visitNode reader maxDepth frames child.path (depth + 1) output)
    output

theorem visitNode_succ (maxDepth : Option Nat) (d frames : Nat)
    (hw : MemoryWorkspace.Consistent w.limits w.state) (hlock : Grants host) {node : Node} {path : SandboxPath} (hvalue : path.value ≠ [])
    (hnode : (FileTree.directory w.state.root).at? path.parts = some node)
    (output : List FoundNode) (t : τ) :
    ∃ t', visitNode (reader host) maxDepth (frames + 1) path d output ⟨w, t⟩ =
      (if entryKind node.entry = .directory ∧ maxDepth.all (d < ·) then
        visitChildren (reader host) maxDepth frames path d
          (output ++ [⟨path, d, entryKind node.entry⟩])
      else pure (output ++ [⟨path, d, entryKind node.entry⟩])) ⟨w, t'⟩ := by
  have hview : w.view path.parts = some node.entry := by
    rw [MemoryWorkspace.view, FileTree.view, hnode]
    rfl
  obtain ⟨record, hstat, hpath, hdescribes⟩ := MemoryWorkspace.stat_spec hw hvalue hview
  obtain ⟨t', hrun⟩ := onWorkspace_of_ok (s := ⟨w, t⟩) hlock hstat
  have hfirst : (reader host).stat path ⟨w, t⟩ = (.ok record, ⟨w, t'⟩) := hrun
  have hkind : record.kind = entryKind node.entry := by
    rw [hdescribes.kind]
    cases node <;> rfl
  refine ⟨t', ?_⟩
  rw [visitNode, Call.bind_of_ok hfirst, hpath, hkind]
  rfl

omit [Sha256] in
theorem withinDepth_succ_iff {maxDepth : Option Nat} {d : Nat} :
    WithinDepth maxDepth (d + 1) ↔ maxDepth.all (d < ·) = true := by
  cases maxDepth with
  | none => simp [WithinDepth]
  | some m => simp [WithinDepth]

theorem visitNode_spec (hw : MemoryWorkspace.Consistent w.limits w.state) (hlock : Grants host)
    {node : Node} {path : SandboxPath} (hvalue : path.value ≠ [])
    (hnode : (FileTree.directory w.state.root).at? path.parts = some node)
    (hframes : node.count ≤ frames) (hwithin : WithinDepth maxDepth d) (output : List FoundNode)
    (t : τ) :
    ∃ entries t', visitNode (reader host) maxDepth frames path d output ⟨w, t⟩ =
        (.ok (output ++ entries), ⟨w, t'⟩) ∧
      Walked w.view maxDepth path.parts d entries := by
  induction node using FileTree.induct generalizing path d frames output t with
  | file c =>
    obtain ⟨frames, rfl⟩ : ∃ f, frames = f + 1 := ⟨frames - 1, by simp at hframes; omega⟩
    obtain ⟨t', hvisit⟩ := visitNode_succ maxDepth d frames hw hlock hvalue hnode output t
    refine ⟨[⟨path, d, .file⟩], t', ?_, ?_, ?_, List.pairwise_singleton _ _⟩
    · rw [hvisit, if_neg (by simp [entryKind])]
      rfl
    · refine List.forall_mem_singleton.mpr
        ⟨[], .file c, hvalue, by simp, ?_, rfl, rfl, hwithin⟩
      rw [List.append_nil, MemoryWorkspace.view, FileTree.view, hnode]
      rfl
    · intro q hq _
      refine ⟨_, List.mem_singleton.mpr rfl, ?_⟩
      -- nothing is below a file
      rw [MemoryWorkspace.view, FileTree.view_append hnode, FileTree.view_file] at hq
      cases q with
      | nil => simp
      | cons k q => simp [View.single] at hq
  | directory cs ih =>
    obtain ⟨frames, rfl⟩ : ∃ f, frames = f + 1 :=
      ⟨frames - 1, by rw [FileTree.count_directory] at hframes; omega⟩
    obtain ⟨t', hvisit⟩ := visitNode_succ maxDepth d frames hw hlock hvalue hnode output t
    have hview : w.view path.parts = some .directory := by
      rw [MemoryWorkspace.view, FileTree.view, hnode]
      rfl
    have hup : ∀ q k, w.view (path.parts ++ k :: q) ≠ none → w.view (path.parts ++ [k]) ≠ none := by
      intro q k hq hk
      rw [MemoryWorkspace.view, FileTree.view_append hnode, FileTree.view_directory_cons] at hq hk
      cases hget : Dict.get? k cs with
      | none => simp [hget] at hq
      | some child => simp [hget] at hk
    by_cases hdeeper : maxDepth.all (d < ·) = true
    · obtain ⟨children, records, hlist, hordered, hmem, hrecords⟩ :=
        MemoryWorkspace.list_spec hw hvalue hview
      obtain ⟨t₁, hlisted⟩ := onWorkspace_of_ok (s := ⟨w, t'⟩) hlock hlist
      have hlisted' : (reader host).list path ⟨w, t'⟩ = (.ok records, ⟨w, t₁⟩) := hlisted
      have hvisits : List.Forall₂ (fun name record => ∀ output t, ∃ entries t',
          visitNode (reader host) maxDepth frames record.path (d + 1) output ⟨w, t⟩ =
            (.ok (output ++ entries), ⟨w, t'⟩) ∧
          Walked w.view maxDepth (path.parts ++ [name]) (d + 1) entries)
          (children.map Prod.fst) records := by
        rw [List.forall₂_map_left_iff]
        have hsub : ∀ c ∈ children, w.view (path.parts ++ [c.1]) ≠ none := by
          intro c hc hnone
          rw [(hmem c.1 c.2).mp hc] at hnone
          cases hnone
        clear hordered hmem hlist hlisted hlisted'
        induction hrecords with
        | nil => exact .nil
        | @cons c record children records hrecord _ ihrecords =>
          obtain ⟨hc, hchildren⟩ := List.forall_mem_cons.mp hsub
          refine .cons (fun output t => ?_) (ihrecords hchildren)
          obtain ⟨hrecordValue, hrecordParts, -⟩ := hrecord
          rw [MemoryWorkspace.view, FileTree.view_append hnode, FileTree.view_directory_cons] at hc
          cases hget : Dict.get? c.1 cs with
          | none => simp [hget] at hc
          | some child =>
            have hchild := Dict.mem_of_get? hget
            have hcount : child.count ≤ frames := by
              have hlt : child.count < _ := FileTree.count_child_lt hchild
              omega
            rw [← hrecordParts]
            refine ih _ hchild hrecordValue ?_ hcount (withinDepth_succ_iff.mpr hdeeper) output t
            rw [hrecordParts, FileTree.at?_append, hnode, Option.bind_some,
              FileTree.at?_directory_cons, hget]
            simp
      obtain ⟨entries, t₂, hfold, hall⟩ :=
        foldlM_visit hvisits (output ++ [⟨path, d, .directory⟩]) t₁
      refine ⟨⟨path, d, .directory⟩ :: entries, t₂, ?_, ?_⟩
      · rw [hvisit, if_pos ⟨rfl, hdeeper⟩, visitChildren, Call.bind_of_ok hlisted']
        rw [List.append_assoc, List.singleton_append] at hfold
        exact hfold
      · refine Walked.directory hvalue rfl rfl rfl hview hwithin ?_ (fun name => ?_) hup hall
        · exact List.pairwise_map.mpr hordered
        · rw [withinDepth_succ_iff, and_iff_left hdeeper, List.mem_map]
          constructor
          · rintro ⟨c, hc, rfl⟩ hnone
            rw [(hmem c.1 c.2).mp hc] at hnone
            cases hnone
          · intro hne
            obtain ⟨e, he⟩ := Option.ne_none_iff_exists'.mp hne
            exact ⟨(name, e), (hmem name e).mpr he, rfl⟩
    · refine ⟨[⟨path, d, .directory⟩], t', ?_, ?_⟩
      · rw [hvisit, if_neg (fun h => hdeeper h.2)]
        rfl
      · refine Walked.directory hvalue rfl rfl rfl hview hwithin .nil (fun name => ?_) hup .nil
        rw [withinDepth_succ_iff]
        simp [hdeeper]

/-! ## Section 3: The command -/

end CommandWorld

namespace CommandWorld

/-- A host that never cancels. -/
def calmHost : CommandHost Unit where
  runtime := ⟨pure 0, pure false, pure false, pure false, pure 0⟩
  acquireLock := pure ()

/-- A runtime without regular expressions, whose stack holds one visit. -/
abbrev shallowRuntime : CommandRuntime where
  isDigit := isAsciiDecimal
  compile _ _ := .invalid []
  fnmatchcase _ _ := false
  frames := 1

end CommandWorld
