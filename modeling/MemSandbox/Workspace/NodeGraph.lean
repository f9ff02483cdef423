import MemSandbox.Workspace.Nodes
import MemSandbox.Lib.ObjectGraph

/-! # Copies of object graphs

    `_clone_node` on objects with identities: what it is given need not be a
    tree, since a restore candidate is an object that its holder can reach.

    The loop is bounded by the set of directory identities seen and by the
    counter.  Its invariant lists the nodes copied so far, each with the path
    it was copied at: the copy of the `i`-th node is the `i`-th object that the
    loop allocates. -/

open Python

/-- The objects a workspace refers to. -/
abbrev NodeHeap : Type := Heap Text Bytes

namespace NodeGraph

/-- A new object: its identity and the heap with it. -/
def allocate (heap : NodeHeap) (object : Object Text Bytes) : Nat × NodeHeap :=
  (heap.next, ⟨Function.update heap.cells heap.next object, heap.next + 1⟩)

/-- `directory.children[name] = child`. -/
def setChild (heap : NodeHeap) (directory : Nat) (name : Text) (child : Nat) : NodeHeap :=
  { heap with
    cells := Function.update heap.cells directory
      (.directory (Dict.set name child (heap.children directory))) }

/-- The local variables of the loop of `_clone_node`; `pending` has its end first. -/
structure Cloning where
  heap : NodeHeap
  clonedNodes : Nat
  seenDirectories : List Nat
  pending : List (Nat × Nat)

/-- One turn of the inner loop. -/
def cloneChild (maxNodes destination : Nat) (name : Text) (child : Nat) (s : Cloning) :
    Except PyError Cloning :=
  if s.clonedNodes + 1 > maxNodes then
    raise .nodeLimitExceededError
      (py "workspace clone contains more than " ++ Text.ofNat maxNodes ++ py " nodes")
  else
    match s.heap.cells child with
    | .file content =>
      let (copy, heap) := allocate s.heap (.file content)
      .ok { s with heap := setChild heap destination name copy, clonedNodes := s.clonedNodes + 1 }
    | .directory _ =>
      if child ∈ s.seenDirectories then
        raise .valueError (py "workspace directory graph contains a cycle or alias")
      else
        let (copy, heap) := allocate s.heap (.directory [])
        .ok {
          heap := setChild heap destination name copy
          clonedNodes := s.clonedNodes + 1
          seenDirectories := child :: s.seenDirectories
          pending := (child, copy) :: s.pending }

/-- The inner loop. -/
def cloneChildren (maxNodes destination : Nat) : List (Text × Nat) → Cloning →
    Except PyError Cloning
  | [], s => .ok s
  | (name, child) :: rest, s => do
    let s ← cloneChild maxNodes destination name child s
    cloneChildren maxNodes destination rest s

/-- The outer loop; `none` when the fuel runs out before the worklist does. -/
def cloneLoop (maxNodes : Nat) : Nat → Cloning → Option (Except PyError Cloning)
  | 0, s => if s.pending.isEmpty then some (.ok s) else none
  | fuel + 1, s =>
    match s.pending with
    | [] => some (.ok s)
    | (source, destination) :: pending =>
      match cloneChildren maxNodes destination (s.heap.children source) { s with pending } with
      | .error e => some (.error e)
      | .ok s => cloneLoop maxNodes fuel s

/-- `_clone_node`: the copy's identity, and the heap with it. -/
def cloneNode (fuel : Nat) (heap : NodeHeap) (node maxNodes : Nat) :
    Option (Except PyError (Nat × NodeHeap)) :=
  match heap.cells node with
  | .file content => some (.ok (allocate heap (.file content)))
  | .directory _ =>
    let (cloned, heap) := allocate heap (.directory [])
    (cloneLoop maxNodes fuel ⟨heap, 1, [node], [(node, cloned)]⟩).map fun outcome =>
      outcome.map fun s => (cloned, s.heap)

/-! ## Section 1: One child -/

/-- What a turn of the inner loop does when it does not raise. -/
theorem cloneChild_eq_ok {maxNodes destination child : Nat} {name : Text} {s s' : Cloning}
    (h : cloneChild maxNodes destination name child s = .ok s') :
    s.clonedNodes + 1 ≤ maxNodes ∧ s'.clonedNodes = s.clonedNodes + 1 ∧
      ∃ object, s'.heap = setChild (allocate s.heap object).2 destination name s.heap.next ∧
        ((∃ content, s.heap.cells child = .file content ∧ object = .file content ∧
            s'.seenDirectories = s.seenDirectories ∧ s'.pending = s.pending) ∨
          (s.heap.IsDirectory child ∧ object = .directory [] ∧ child ∉ s.seenDirectories ∧
            s'.seenDirectories = child :: s.seenDirectories ∧
            s'.pending = (child, s.heap.next) :: s.pending)) := by
  unfold cloneChild at h
  by_cases hlimit : s.clonedNodes + 1 > maxNodes
  · simp [hlimit] at h
  · rw [if_neg hlimit] at h
    refine ⟨by omega, ?_⟩
    cases hcell : s.heap.cells child with
    | file content =>
      simp only [hcell, Except.ok.injEq] at h
      subst h
      exact ⟨rfl, _, rfl, .inl ⟨content, rfl, rfl, rfl, rfl⟩⟩
    | directory refs =>
      simp only [hcell] at h
      by_cases hseen : child ∈ s.seenDirectories
      · simp [hseen] at h
      · rw [if_neg hseen, Except.ok.injEq] at h
        subst h
        exact ⟨rfl, _, rfl, .inr ⟨Heap.isDirectory_iff.mpr ⟨refs, hcell⟩, rfl, hseen, rfl, rfl⟩⟩

/-- A turn of the inner loop raises at the limit or at a directory seen before. -/
theorem cloneChild_eq_error {maxNodes destination child : Nat} {name : Text} {s : Cloning}
    {e : PyError} (h : cloneChild maxNodes destination name child s = .error e) :
    s.clonedNodes + 1 > maxNodes ∨ s.heap.IsDirectory child ∧ child ∈ s.seenDirectories := by
  unfold cloneChild at h
  by_cases hlimit : s.clonedNodes + 1 > maxNodes
  · exact .inl hlimit
  · rw [if_neg hlimit] at h
    cases hcell : s.heap.cells child with
    | file content => simp [hcell] at h
    | directory refs =>
      simp only [hcell] at h
      by_cases hseen : child ∈ s.seenDirectories
      · exact .inr ⟨Heap.isDirectory_iff.mpr ⟨refs, hcell⟩, hseen⟩
      · simp [hseen] at h

/-! ## Section 2: The invariant -/

/-- The reference `r'` of the `i`-th copy, made at path `p`, is the copy of `r`. -/
def Copied (base : Nat) (copies : List (List Text × Nat)) (i : Nat) (p : List Text)
    (r r' : Text × Nat) : Prop :=
  r'.1 = r.1 ∧ ∃ j, i < j ∧ copies[j]? = some (p ++ [r.1], r.2) ∧ r'.2 = base + j

/-- What holds between two turns.  `copies` lists the nodes copied so far with
    the paths they were reached at, and `rest i` the references of the `i`-th
    that are still to copy. -/
structure Invariant (heap : NodeHeap) (node maxNodes : Nat) (copies : List (List Text × Nat))
    (rest : Nat → List (Text × Nat)) (s : Cloning) : Prop where
  count : s.clonedNodes = copies.length
  bound : copies.length ≤ maxNodes
  next : s.heap.next = heap.next + copies.length
  frame : ∀ a < heap.next, s.heap.cells a = heap.cells a
  root : copies[0]? = some ([], node)
  paths : (copies.map Prod.fst).Nodup
  follow : ∀ c ∈ copies, heap.follow node c.1 = some c.2
  closed : ∀ p k, p ++ [k] ∈ copies.map Prod.fst → p ∈ copies.map Prod.fst
  seen : ∀ a, a ∈ s.seenDirectories ↔ heap.IsDirectory a ∧ a ∈ copies.map Prod.snd
  once : ∀ (i j : Nat) p q a, copies[i]? = some (p, a) → copies[j]? = some (q, a) → heap.IsDirectory a →
    i = j
  file : ∀ (i : Nat) p a c, copies[i]? = some (p, a) → heap.cells a = .file c →
    s.heap.cells (heap.next + i) = .file c
  directory : ∀ (i : Nat) p a, copies[i]? = some (p, a) → heap.IsDirectory a →
    s.heap.IsDirectory (heap.next + i) ∧ ∃ front, heap.children a = front ++ rest i ∧
      List.Forall₂ (Copied heap.next copies i p) front (s.heap.children (heap.next + i))
  fresh : ∀ (i : Nat) p a, copies[i]? = some (p, a) → ∀ r ∈ rest i, p ++ [r.1] ∉ copies.map Prod.fst

theorem getElem?_concat_iff {α : Type} {xs : List α} {x y : α} {i : Nat} :
    (xs ++ [x])[i]? = some y ↔ xs[i]? = some y ∨ i = xs.length ∧ y = x := by
  rcases Nat.lt_trichotomy i xs.length with h | rfl | h
  · rw [List.getElem?_append_left h]
    simp [h.ne]
  · simp [eq_comm]
  · rw [List.getElem?_eq_none (by simp; omega), List.getElem?_eq_none (by omega)]
    simp [h.ne']

section step

variable {heap : NodeHeap} {node maxNodes : Nat} {copies : List (List Text × Nat)}
  {rest : Nat → List (Text × Nat)} {s : Cloning}

theorem Invariant.index_eq (h : Invariant heap node maxNodes copies rest s) {i j a b : Nat}
    {p : List Text} (hi : copies[i]? = some (p, a)) (hj : copies[j]? = some (p, b)) : i = j := by
  refine (List.getElem?_inj ?_ h.paths).mp ?_
  · rw [List.length_map]
    exact (List.getElem?_eq_some_iff.mp hi).1
  · rw [List.getElem?_map, List.getElem?_map, hi, hj]
    rfl

/-- The references left after the `i`-th copy lost its first, for the new copy of `b`. -/
def restAfter (heap : NodeHeap) (rest : Nat → List (Text × Nat)) (n i : Nat)
    (remaining : List (Text × Nat)) (b : Nat) : Nat → List (Text × Nat) :=
  Function.update (Function.update rest i remaining) n (heap.children b)

theorem Copied.mono {base i : Nat} {p : List Text} {r r' : Text × Nat} {x : List Text × Nat}
    (h : Copied base copies i p r r') : Copied base (copies ++ [x]) i p r r' := by
  obtain ⟨hname, j, hij, hj, hr⟩ := h
  exact ⟨hname, j, hij, getElem?_concat_iff.mpr (.inl hj), hr⟩

/-- A partial copy has the names of what it copies. -/
theorem Copied.keys_eq {base i : Nat} {p : List Text} {refs refs' : List (Text × Nat)}
    (h : List.Forall₂ (Copied base copies i p) refs refs') : Dict.keys refs' = Dict.keys refs := by
  induction h with
  | nil => rfl
  | cons hr _ ih =>
    rw [Dict.keys, List.map_cons, hr.1, ← Dict.keys, ih]
    rfl

/-- The cells after a turn: the new object, the new reference, and the others. -/
theorem cells_setChild (heap : NodeHeap) (object : Object Text Bytes) {d : Nat}
    (hd : d < heap.next) (name : Text) (a : Nat) :
    (setChild (allocate heap object).2 d name heap.next).cells a =
      if a = d then .directory (Dict.set name heap.next (heap.children d))
      else if a = heap.next then object else heap.cells a := by
  have hchildren : (allocate heap object).2.children d = heap.children d := by
    simp [allocate, Heap.children, hd.ne]
  simp only [setChild, hchildren, Function.update_apply]
  simp only [allocate, Function.update_apply]

/-- A turn of the inner loop at the `i`-th copy, in terms of the source. -/
structure Turn (heap : NodeHeap) (n i : Nat) (k : Text) (b : Nat) (s s' : Cloning) : Prop where
  count : s'.clonedNodes = s.clonedNodes + 1
  next : s'.heap.next = s.heap.next + 1
  copied : ∀ c, heap.cells b = .file c → s'.heap.cells (heap.next + n) = .file c
  created : heap.IsDirectory b → s'.heap.cells (heap.next + n) = .directory []
  linked : s'.heap.cells (heap.next + i) =
    .directory (Dict.set k (heap.next + n) (s.heap.children (heap.next + i)))
  others : ∀ c, c ≠ heap.next + i → c ≠ heap.next + n → s'.heap.cells c = s.heap.cells c
  unseen : heap.IsDirectory b → b ∉ s.seenDirectories
  seen : ∀ c, c ∈ s'.seenDirectories ↔ c ∈ s.seenDirectories ∨ heap.IsDirectory b ∧ c = b
  pending : ¬ heap.IsDirectory b ∧ s'.pending = s.pending ∨
    heap.IsDirectory b ∧ s'.pending = (b, heap.next + n) :: s.pending

theorem Invariant.turn (h : Invariant heap node maxNodes copies rest s) {i b : Nat} {k : Text}
    (hi : i < copies.length) (hb : b < heap.next) {s' : Cloning}
    (hstep : cloneChild maxNodes (heap.next + i) k b s = .ok s') :
    Turn heap copies.length i k b s s' := by
  obtain ⟨-, hcount, object, hs', hobject⟩ := cloneChild_eq_ok hstep
  have hcells := cells_setChild s.heap object (d := heap.next + i) (by rw [h.next]; omega) k
  rw [← hs', h.next] at hcells
  have hnew : s'.heap.cells (heap.next + copies.length) = object := by
    rw [hcells, if_neg (by omega), if_pos rfl]
  have hbase : s.heap.cells b = heap.cells b := h.frame b hb
  have hothers : ∀ c, c ≠ heap.next + i → c ≠ heap.next + copies.length →
      s'.heap.cells c = s.heap.cells c := by
    intro c hci hcn
    rw [hcells, if_neg hci, if_neg hcn]
  have hnext : s'.heap.next = s.heap.next + 1 := by
    rw [hs']
    rfl
  have hlinked := hcells (heap.next + i)
  rw [if_pos rfl] at hlinked
  rw [Heap.isDirectory_iff, hbase] at hobject
  rcases hobject with ⟨c, hc, rfl, hseen, hpending⟩ | ⟨⟨refs, hdir⟩, rfl, hunseen, hseen, hpending⟩
  · have hfile := Heap.not_isDirectory_of_file hc
    refine ⟨hcount, hnext, ?_, fun hdir => absurd hdir hfile, hlinked, hothers,
      fun hdir => absurd hdir hfile, ?_, .inl ⟨hfile, hpending⟩⟩
    · intro c' hc'
      rw [hnew, ← hc, hc']
    · simp [hseen, hfile]
  · have hdir' : heap.IsDirectory b := Heap.isDirectory_iff.mpr ⟨refs, hdir⟩
    refine ⟨hcount, hnext, ?_, fun _ => hnew, hlinked, hothers, fun _ => hunseen, ?_,
      .inr ⟨hdir', by rw [hpending, h.next]⟩⟩
    · intro c hc
      rw [hdir] at hc
      cases hc
    · simp [hseen, hdir', or_comm]

/-- A turn copies one more node. -/
theorem Invariant.step (hheap : heap.WellFormed) (hnode : node < heap.next)
    (h : Invariant heap node maxNodes copies rest s) {i a b : Nat} {p : List Text} {k : Text}
    {remaining : List (Text × Nat)} (hi : copies[i]? = some (p, a)) (ha : heap.IsDirectory a)
    (hrest : rest i = (k, b) :: remaining) (hbound : copies.length + 1 ≤ maxNodes) {s' : Cloning}
    (hturn : Turn heap copies.length i k b s s') :
    Invariant heap node maxNodes (copies ++ [(p ++ [k], b)])
      (restAfter heap rest copies.length i remaining b) s' := by
  have hilt : i < copies.length := (List.getElem?_eq_some_iff.mp hi).1
  have hpa : heap.follow node p = some a := h.follow _ (List.mem_of_getElem? hi)
  obtain ⟨hdir, front, hchildren, hfront⟩ := h.directory i p a hi ha
  rw [hrest] at hchildren
  have hunique := hheap.unique a (hheap.follow_lt hnode hpa)
  have hnames : k ∉ Dict.keys front ∧ k ∉ Dict.keys remaining := by
    rw [hchildren, Dict.UniqueKeys, Dict.keys, List.map_append, List.map_cons,
      List.nodup_middle, List.nodup_cons, List.mem_append] at hunique
    exact not_or.mp hunique.1
  have hkb : (k, b) ∈ heap.children a := by simp [hchildren]
  have hnew : p ++ [k] ∉ copies.map Prod.fst := h.fresh i p a hi (k, b) (by simp [hrest])
  have hrestNew : restAfter heap rest copies.length i remaining b copies.length =
      heap.children b := by simp [restAfter]
  have hrestSelf : restAfter heap rest copies.length i remaining b i = remaining := by
    simp [restAfter, hilt.ne]
  have hrestOther : ∀ j < copies.length, j ≠ i →
      restAfter heap rest copies.length i remaining b j = rest j := by
    intro j hj hji
    simp [restAfter, hj.ne, hji]
  constructor
  case count => rw [hturn.count, h.count, List.length_append, List.length_singleton]
  case bound => rwa [List.length_append, List.length_singleton]
  case next => rw [hturn.next, h.next, List.length_append, List.length_singleton]; omega
  case frame =>
    intro c hc
    rw [hturn.others c (by omega) (by omega), h.frame c hc]
  case root => exact getElem?_concat_iff.mpr (.inl h.root)
  case paths =>
    rw [List.map_append, List.map_singleton]
    exact h.paths.append (List.nodup_singleton _) (List.disjoint_singleton.mpr hnew)
  case follow =>
    intro c hc
    rcases List.mem_append.mp hc with hc | hc
    · exact h.follow c hc
    · obtain rfl := List.mem_singleton.mp hc
      exact Heap.follow_concat_iff.mpr ⟨a, hpa, Dict.get?_of_mem hunique hkb⟩
  case closed =>
    intro q j hq
    rw [List.map_append, List.map_singleton, List.mem_append, List.mem_singleton] at hq ⊢
    rcases hq with hq | hq
    · exact .inl (h.closed q j hq)
    · obtain ⟨rfl, -⟩ := List.append_inj' hq rfl
      exact .inl (List.mem_map.mpr ⟨_, List.mem_of_getElem? hi, rfl⟩)
  case seen =>
    intro c
    rw [hturn.seen, h.seen, List.map_append, List.map_singleton, List.mem_append,
      List.mem_singleton]
    constructor
    · rintro (⟨hc, hmem⟩ | ⟨hc, rfl⟩)
      · exact ⟨hc, .inl hmem⟩
      · exact ⟨hc, .inr rfl⟩
    · rintro ⟨hc, hmem | rfl⟩
      · exact .inl ⟨hc, hmem⟩
      · exact .inr ⟨hc, rfl⟩
  case once =>
    -- a second copy of a directory would have been seen
    have hfirst : heap.IsDirectory b → ∀ (j : Nat) q, copies[j]? ≠ some (q, b) := by
      intro hb j q hj
      exact hturn.unseen hb ((h.seen b).mpr ⟨hb, List.mem_map.mpr ⟨_, List.mem_of_getElem? hj, rfl⟩⟩)
    intro j j' q q' c hj hj' hc
    rw [getElem?_concat_iff] at hj hj'
    rcases hj with hj | ⟨rfl, hj⟩ <;> rcases hj' with hj' | ⟨rfl, hj'⟩
    · exact h.once j j' q q' c hj hj' hc
    · cases hj'
      exact absurd hj (hfirst hc j q)
    · cases hj
      exact absurd hj' (hfirst hc j' q')
    · rfl
  case file =>
    intro j q c content hj hc
    rw [getElem?_concat_iff] at hj
    rcases hj with hj | ⟨rfl, hj⟩
    · have hjlt : j < copies.length := (List.getElem?_eq_some_iff.mp hj).1
      have hji : j ≠ i := by
        rintro rfl
        rw [hi] at hj
        cases hj
        exact Heap.not_isDirectory_of_file hc ha
      rw [hturn.others _ (by omega) (by omega)]
      exact h.file j q c content hj hc
    · cases hj
      exact hturn.copied content hc
  case directory =>
    intro j q c hj hc
    rw [getElem?_concat_iff] at hj
    rcases hj with hj | ⟨rfl, hj⟩
    · have hjlt : j < copies.length := (List.getElem?_eq_some_iff.mp hj).1
      by_cases hji : j = i
      · subst hji
        rw [hi] at hj
        cases hj
        -- the dictionary of the copy gains its next name at the end
        have hkeys : k ∉ Dict.keys (s.heap.children (heap.next + j)) := by
          rw [Copied.keys_eq hfront]
          exact hnames.1
        rw [hrestSelf, Heap.isDirectory_iff, Heap.children_of_directory hturn.linked,
          Dict.set_of_not_mem hkeys]
        refine ⟨⟨_, hturn.linked⟩, front ++ [(k, b)], by simp [hchildren], ?_⟩
        refine List.rel_append (hfront.imp fun _ _ => Copied.mono) (.cons ?_ .nil)
        exact ⟨rfl, copies.length, hjlt, getElem?_concat_iff.mpr (.inr ⟨rfl, rfl⟩), rfl⟩
      · have hsame : s'.heap.cells (heap.next + j) = s.heap.cells (heap.next + j) :=
          hturn.others _ (by omega) (by omega)
        have hsameChildren : s'.heap.children (heap.next + j) = s.heap.children (heap.next + j) := by
          rw [Heap.children, hsame, ← Heap.children]
        obtain ⟨hjdir, jfront, hjchildren, hjfront⟩ := h.directory j q c hj hc
        rw [hrestOther j hjlt hji, Heap.IsDirectory, hsame, hsameChildren]
        exact ⟨hjdir, jfront, hjchildren, hjfront.imp fun _ _ => Copied.mono⟩
    · cases hj
      rw [hrestNew]
      refine ⟨Heap.isDirectory_iff.mpr ⟨[], hturn.created hc⟩, [], rfl, ?_⟩
      rw [Heap.children_of_directory (hturn.created hc)]
      exact .nil
  case fresh =>
    intro j q c hj r hr
    rw [List.map_append, List.map_singleton, List.mem_append, List.mem_singleton, not_or]
    rw [getElem?_concat_iff] at hj
    rcases hj with hj | ⟨rfl, hj⟩
    · have hjlt : j < copies.length := (List.getElem?_eq_some_iff.mp hj).1
      by_cases hji : j = i
      · subst hji
        rw [hi] at hj
        cases hj
        rw [hrestSelf] at hr
        refine ⟨h.fresh j p a hi r (by simp [hrest, hr]), fun heq => ?_⟩
        obtain ⟨-, heq⟩ := List.append_inj' heq rfl
        obtain rfl := List.singleton_inj.mp heq
        exact hnames.2 (List.mem_map.mpr ⟨r, hr, rfl⟩)
      · rw [hrestOther j hjlt hji] at hr
        refine ⟨h.fresh j q c hj r hr, fun heq => ?_⟩
        obtain ⟨rfl, -⟩ := List.append_inj' heq rfl
        exact hji (h.index_eq hj hi)
    · cases hj
      constructor
      · exact fun hmem => hnew (h.closed _ _ hmem)
      · exact fun heq => by simpa using congrArg List.length heq

/-- A turn raises on no small tree. -/
theorem Invariant.raises (hheap : heap.WellFormed) (hnode : node < heap.next)
    (h : Invariant heap node maxNodes copies rest s) {i a b : Nat} {p : List Text} {k : Text}
    {remaining : List (Text × Nat)} (hi : copies[i]? = some (p, a)) (ha : heap.IsDirectory a)
    (hrest : rest i = (k, b) :: remaining) {d : Nat} {e : PyError}
    (hstep : cloneChild maxNodes d k b s = .error e) :
    heap.ReachesTwice node ∨ heap.Exceeds node maxNodes := by
  have hpa : heap.follow node p = some a := h.follow _ (List.mem_of_getElem? hi)
  have halt : a < heap.next := hheap.follow_lt hnode hpa
  obtain ⟨-, front, hchildren, -⟩ := h.directory i p a hi ha
  have hkb : (k, b) ∈ heap.children a := by simp [hchildren, hrest]
  have hfollow : heap.follow node (p ++ [k]) = some b :=
    Heap.follow_concat_iff.mpr ⟨a, hpa, Dict.get?_of_mem (hheap.unique a halt) hkb⟩
  have hnew : p ++ [k] ∉ copies.map Prod.fst := h.fresh i p a hi (k, b) (by simp [hrest])
  rcases cloneChild_eq_error hstep with hlimit | ⟨-, hseen⟩
  · right
    refine ⟨(p ++ [k]) :: copies.map Prod.fst, List.nodup_cons.mpr ⟨hnew, h.paths⟩, ?_, ?_⟩
    · rw [List.length_cons, List.length_map, ← h.count]
      exact hlimit
    · intro q hq
      rcases List.mem_cons.mp hq with rfl | hq
      · rw [hfollow]
        rfl
      · obtain ⟨c, hc, rfl⟩ := List.mem_map.mp hq
        rw [h.follow c hc]
        rfl
  · left
    obtain ⟨hdir, hmem⟩ := (h.seen b).mp hseen
    obtain ⟨⟨q, b'⟩, hc, rfl⟩ := List.mem_map.mp hmem
    refine ⟨p ++ [k], q, b', ?_, hfollow, h.follow _ hc, hdir⟩
    rintro rfl
    exact hnew (List.mem_map.mpr ⟨_, hc, rfl⟩)

end step

/-! ## Section 3: The loops -/

/-- The worklist holds what is still to copy, but for the `current` copy. -/
structure Queued (heap : NodeHeap) (copies : List (List Text × Nat))
    (rest : Nat → List (Text × Nat)) (pending : List (Nat × Nat)) (current : Option Nat) :
    Prop where
  nodup : (pending.map Prod.snd).Nodup
  entries : ∀ e ∈ pending, heap.IsDirectory e.1 ∧
    ∃ j p, copies[j]? = some (p, e.1) ∧ e.2 = heap.next + j ∧ rest j = heap.children e.1
  complete : ∀ j, rest j ≠ [] → current = some j ∨ heap.next + j ∈ pending.map Prod.snd
  popped : ∀ i, current = some i → heap.next + i ∉ pending.map Prod.snd

section loops

variable {heap : NodeHeap} {node maxNodes : Nat} {copies : List (List Text × Nat)}
  {rest : Nat → List (Text × Nat)} {s : Cloning}

/-- A turn queues what it creates. -/
theorem Queued.step {i b : Nat} {p : List Text} {k : Text} {remaining : List (Text × Nat)}
    (hi : i < copies.length) (hq : Queued heap copies rest s.pending (some i)) {s' : Cloning}
    (hturn : Turn heap copies.length i k b s s') :
    Queued heap (copies ++ [(p ++ [k], b)]) (restAfter heap rest copies.length i remaining b)
      s'.pending (some i) := by
  have hrestNew : restAfter heap rest copies.length i remaining b copies.length =
      heap.children b := by simp [restAfter]
  have hrestOther : ∀ j, j ≠ copies.length → j ≠ i →
      restAfter heap rest copies.length i remaining b j = rest j := by
    intro j hj hji
    simp [restAfter, hj, hji]
  -- an entry that was queued stays as it was
  have hold : ∀ e ∈ s.pending, heap.IsDirectory e.1 ∧ ∃ j q,
      (copies ++ [(p ++ [k], b)])[j]? = some (q, e.1) ∧ e.2 = heap.next + j ∧ j < copies.length ∧
        restAfter heap rest copies.length i remaining b j = heap.children e.1 := by
    intro e he
    obtain ⟨hdir, j, q, hj, hej, hrestj⟩ := hq.entries e he
    have hjlt : j < copies.length := (List.getElem?_eq_some_iff.mp hj).1
    have hji : j ≠ i := by
      rintro rfl
      exact hq.popped j rfl (List.mem_map.mpr ⟨e, he, hej⟩)
    refine ⟨hdir, j, q, getElem?_concat_iff.mpr (.inl hj), hej, hjlt, ?_⟩
    rw [hrestOther j hjlt.ne hji, hrestj]
  have hcomplete : ∀ j, j ≠ copies.length → restAfter heap rest copies.length i remaining b j ≠ [] →
      some i = some j ∨ heap.next + j ∈ s.pending.map Prod.snd := by
    intro j hj hne
    by_cases hji : j = i
    · exact .inl (congrArg some hji.symm)
    · rw [hrestOther j hj hji] at hne
      exact hq.complete j hne
  rcases hturn.pending with ⟨hfile, hpending⟩ | ⟨hdir, hpending⟩
  · rw [hpending]
    refine ⟨hq.nodup, ?_, ?_, hq.popped⟩
    · intro e he
      obtain ⟨hd, j, q, hj, hej, -, hr⟩ := hold e he
      exact ⟨hd, j, q, hj, hej, hr⟩
    · intro j hne
      refine hcomplete j ?_ hne
      rintro rfl
      rw [hrestNew] at hne
      obtain ⟨c, hc⟩ := (heap.file_or_isDirectory b).resolve_right hfile
      exact hne (Heap.children_of_file hc)
  · rw [hpending]
    have hnotMem : heap.next + copies.length ∉ s.pending.map Prod.snd := by
      intro hmem
      obtain ⟨e, he, heq⟩ := List.mem_map.mp hmem
      obtain ⟨-, j, q, -, hej, hjlt, -⟩ := hold e he
      omega
    refine ⟨?_, ?_, ?_, ?_⟩
    · rw [List.map_cons, List.nodup_cons]
      exact ⟨hnotMem, hq.nodup⟩
    · intro e he
      rcases List.mem_cons.mp he with rfl | he
      · exact ⟨hdir, copies.length, _, getElem?_concat_iff.mpr (.inr ⟨rfl, rfl⟩), rfl, hrestNew⟩
      · obtain ⟨hd, j, q, hj, hej, -, hr⟩ := hold e he
        exact ⟨hd, j, q, hj, hej, hr⟩
    · intro j hne
      rw [List.map_cons, List.mem_cons]
      by_cases hj : j = copies.length
      · exact .inr (.inl (by rw [hj]))
      · exact (hcomplete j hj hne).imp_right .inr
    · intro i' hi'
      obtain rfl := Option.some.inj hi'
      rw [List.map_cons, List.mem_cons, not_or]
      exact ⟨by show heap.next + i ≠ heap.next + copies.length; omega, hq.popped i rfl⟩

/-- A state between two turns of the outer loop. -/
def Sound (heap : NodeHeap) (node maxNodes : Nat) (s : Cloning) : Prop :=
  ∃ copies rest, Invariant heap node maxNodes copies rest s ∧
    Queued heap copies rest s.pending none

/-- The turns that the outer loop may still take. -/
def Cloning.cost (maxNodes : Nat) (s : Cloning) : Nat := s.pending.length + (maxNodes - s.clonedNodes)

/-- `raised` when the outcome is an error, and `good` of what it returns. -/
def Settles {α : Type} (raised : Prop) (good : α → Prop) : Except PyError α → Prop
  | .error _ => raised
  | .ok a => good a

theorem Settles.mono {α : Type} {raised : Prop} {good good' : α → Prop}
    {outcome : Except PyError α} (h : Settles raised good outcome) (hmono : ∀ a, good a → good' a) :
    Settles raised good' outcome := by
  cases outcome with
  | error e => exact h
  | ok a => exact hmono a h

theorem cloneChildren_spec (hheap : heap.WellFormed) (hnode : node < heap.next)
    {refs : List (Text × Nat)} {i a : Nat} {p : List Text}
    (h : Invariant heap node maxNodes copies rest s)
    (hq : Queued heap copies rest s.pending (some i)) (hi : copies[i]? = some (p, a))
    (ha : heap.IsDirectory a) (hrest : rest i = refs) :
    Settles (heap.ReachesTwice node ∨ heap.Exceeds node maxNodes)
      (fun s' => Sound heap node maxNodes s' ∧ s'.cost maxNodes ≤ s.cost maxNodes)
      (cloneChildren maxNodes (heap.next + i) refs s) := by
  induction refs generalizing copies rest s with
  | nil =>
    refine ⟨⟨copies, rest, h, hq.nodup, hq.entries, ?_, ?_⟩, le_rfl⟩
    · intro j hj
      refine (hq.complete j hj).imp_left fun hcurrent => ?_
      exact absurd (Option.some.inj hcurrent ▸ hrest) hj
    · exact fun _ hcurrent => nomatch hcurrent
  | cons r refs ih =>
    obtain ⟨k, b⟩ := r
    rw [cloneChildren]
    cases hstep : cloneChild maxNodes (heap.next + i) k b s with
    | error e => exact h.raises hheap hnode hi ha hrest hstep
    | ok t =>
      have hilt : i < copies.length := (List.getElem?_eq_some_iff.mp hi).1
      obtain ⟨-, front, hchildren, -⟩ := h.directory i p a hi ha
      have halt : a < heap.next := hheap.follow_lt hnode (h.follow _ (List.mem_of_getElem? hi))
      have hblt : b < heap.next := hheap.closed a halt (k, b) (by simp [hchildren, hrest])
      have hturn := h.turn hilt hblt hstep
      have hbound : s.clonedNodes + 1 ≤ maxNodes := (cloneChild_eq_ok hstep).1
      have hinv := h.step hheap hnode hi ha hrest (h.count ▸ hbound) hturn
      have hspec := ih hinv (hq.step hilt hturn) (getElem?_concat_iff.mpr (.inl hi))
        (by simp [restAfter, hilt.ne])
      have hcost : t.cost maxNodes ≤ s.cost maxNodes := by
        have hcount := hturn.count
        rcases hturn.pending with ⟨-, hpending⟩ | ⟨-, hpending⟩ <;>
          · simp only [Cloning.cost, hpending, List.length_cons]
            omega
      exact hspec.mono fun s' hs' => ⟨hs'.1, hs'.2.trans hcost⟩

/-- Nothing is left to copy once the worklist is empty. -/
theorem Sound.finished (hs : Sound heap node maxNodes s) (hempty : s.pending = []) :
    ∃ copies, Invariant heap node maxNodes copies (fun _ => []) s := by
  obtain ⟨copies, rest, h, hq⟩ := hs
  have hrest : rest = fun _ => [] := by
    funext j
    by_contra hne
    rcases hq.complete j hne with hcurrent | hmem
    · cases hcurrent
    · simp [hempty] at hmem
  exact ⟨copies, hrest ▸ h⟩

theorem cloneLoop_of_empty (hempty : s.pending = []) (fuel : Nat) :
    cloneLoop maxNodes fuel s = some (.ok s) := by
  cases fuel <;> simp [cloneLoop, hempty]

/-- The outer loop ends within its cost. -/
theorem cloneLoop_spec (hheap : heap.WellFormed) (hnode : node < heap.next) {n : Nat}
    (hs : Sound heap node maxNodes s) (hcost : s.cost maxNodes ≤ n) :
    ∃ outcome, (∀ fuel, n ≤ fuel → cloneLoop maxNodes fuel s = some outcome) ∧
      Settles (heap.ReachesTwice node ∨ heap.Exceeds node maxNodes)
        (fun s' => ∃ copies, Invariant heap node maxNodes copies (fun _ => []) s') outcome := by
  induction n generalizing s with
  | zero =>
    have hempty : s.pending = [] := by
      rw [Cloning.cost] at hcost
      exact List.eq_nil_of_length_eq_zero (by omega)
    exact ⟨.ok s, fun fuel _ => cloneLoop_of_empty hempty fuel, hs.finished hempty⟩
  | succ n ih =>
    cases hpending : s.pending with
    | nil =>
      exact ⟨.ok s, fun fuel _ => cloneLoop_of_empty hpending fuel, hs.finished hpending⟩
    | cons top pending =>
      obtain ⟨source, destination⟩ := top
      obtain ⟨copies, rest, h, hq⟩ := hs
      rw [hpending] at hq
      obtain ⟨hdir, j, p, hj, hdest, hrest⟩ := hq.entries _ (List.mem_cons_self ..)
      have hsource : source < heap.next :=
        hheap.follow_lt hnode (h.follow _ (List.mem_of_getElem? hj))
      have hchildren : s.heap.children source = heap.children source := by
        rw [Heap.children, h.frame source hsource, ← Heap.children]
      have hnodup := hq.nodup
      rw [List.map_cons, List.nodup_cons] at hnodup
      -- the popped copy is the current one of the inner loop
      have hpopped : Queued heap copies rest pending (some j) := by
        refine ⟨hnodup.2, fun e he => hq.entries e (List.mem_cons_of_mem _ he), ?_, ?_⟩
        · intro i hi
          rcases hq.complete i hi with hcurrent | hmem
          · cases hcurrent
          · rw [List.map_cons, List.mem_cons] at hmem
            refine hmem.imp_left fun heq => congrArg some ?_
            rw [hdest] at heq
            omega
        · intro i hi
          obtain rfl := Option.some.inj hi
          exact hdest ▸ hnodup.1
      have hinv : Invariant heap node maxNodes copies rest { s with pending } :=
        ⟨h.count, h.bound, h.next, h.frame, h.root, h.paths, h.follow, h.closed, h.seen, h.once,
          h.file, h.directory, h.fresh⟩
      have hspec := cloneChildren_spec hheap hnode hinv hpopped hj hdir hrest
      rw [← hdest, ← hchildren] at hspec
      have hone : Cloning.cost maxNodes { s with pending } + 1 = s.cost maxNodes := by
        simp only [Cloning.cost, hpending, List.length_cons]
        omega
      cases hrun : cloneChildren maxNodes destination (s.heap.children source) { s with pending } with
      | error e =>
        rw [hrun] at hspec
        refine ⟨.error e, fun fuel hfuel => ?_, hspec⟩
        obtain ⟨fuel, rfl⟩ : ∃ m, fuel = m + 1 := ⟨fuel - 1, by omega⟩
        simp only [cloneLoop, hpending, hrun]
      | ok t =>
        rw [hrun] at hspec
        obtain ⟨ht, htcost⟩ := hspec
        obtain ⟨outcome, hout, hsettles⟩ := ih ht (by omega)
        refine ⟨outcome, fun fuel hfuel => ?_, hsettles⟩
        obtain ⟨fuel, rfl⟩ : ∃ m, fuel = m + 1 := ⟨fuel - 1, by omega⟩
        simp only [cloneLoop, hpending, hrun]
        exact hout fuel (by omega)

end loops

/-! ## Section 4: The finished copy -/

section finished

variable {heap : NodeHeap} {node maxNodes : Nat} {copies : List (List Text × Nat)} {s : Cloning}

/-- Every reference of a copied directory has its copy. -/
theorem Invariant.children (h : Invariant heap node maxNodes copies (fun _ => []) s) {i a : Nat}
    {p : List Text} (hi : copies[i]? = some (p, a)) (ha : heap.IsDirectory a) :
    List.Forall₂ (Copied heap.next copies i p) (heap.children a)
      (s.heap.children (heap.next + i)) := by
  obtain ⟨-, front, hchildren, hfront⟩ := h.directory i p a hi ha
  rw [List.append_nil] at hchildren
  exact hchildren ▸ hfront

/-- Every path of the source was copied. -/
theorem Invariant.found (h : Invariant heap node maxNodes copies (fun _ => []) s) {a : Nat}
    {p : List Text} (hp : heap.follow node p = some a) : ∃ i : Nat, copies[i]? = some (p, a) := by
  induction p using List.reverseRecOn generalizing a with
  | nil => exact ⟨0, Option.some.inj hp ▸ h.root⟩
  | append_singleton p k ih =>
    obtain ⟨b, hb, hk⟩ := Heap.follow_concat_iff.mp hp
    obtain ⟨i, hi⟩ := ih hb
    have hmem := Dict.mem_of_get? hk
    have hdir : heap.IsDirectory b := by
      refine (heap.file_or_isDirectory b).resolve_left fun ⟨c, hc⟩ => ?_
      simp [Heap.children_of_file hc] at hmem
    obtain ⟨-, -, -, j, -, hj, -⟩ := Heap.exists_of_forall₂ (h.children hi hdir) _ hmem
    exact ⟨j, hj⟩

/-- The `i`-th copy is what the copied path leads to, and nothing else is reached. -/
theorem Invariant.follow_copy (h : Invariant heap node maxNodes copies (fun _ => []) s) {b : Nat}
    {p : List Text} (hp : s.heap.follow heap.next p = some b) :
    ∃ (i : Nat) (a : Nat), copies[i]? = some (p, a) ∧ b = heap.next + i := by
  induction p using List.reverseRecOn generalizing b with
  | nil => exact ⟨0, node, h.root, (Option.some.inj hp).symm⟩
  | append_singleton p k ih =>
    obtain ⟨b', hb', hk⟩ := Heap.follow_concat_iff.mp hp
    obtain ⟨i, a, hi, rfl⟩ := ih hb'
    have hmem := Dict.mem_of_get? hk
    rcases heap.file_or_isDirectory a with ⟨c, hc⟩ | hdir
    · rw [Heap.children_of_file (h.file i p a c hi hc)] at hmem
      cases hmem
    · obtain ⟨r, -, hname, j, -, hj, hr⟩ :=
        Heap.exists_of_forall₂ (h.children hi hdir).flip _ hmem
      have hk' : k = r.1 := hname
      exact ⟨j, r.2, hk' ▸ hj, hr⟩

/-- A finished loop has met no directory twice. -/
theorem Invariant.not_reachesTwice (h : Invariant heap node maxNodes copies (fun _ => []) s) :
    ¬ heap.ReachesTwice node := by
  rintro ⟨p, q, d, hne, hp, hq, hd⟩
  obtain ⟨i, hi⟩ := h.found hp
  obtain ⟨j, hj⟩ := h.found hq
  obtain rfl := h.once i j p q d hi hj hd
  rw [hi] at hj
  cases hj
  exact hne rfl

/-- A finished loop has copied every path. -/
theorem Invariant.not_exceeds (h : Invariant heap node maxNodes copies (fun _ => []) s) :
    ¬ heap.Exceeds node maxNodes := by
  rintro ⟨paths, hnodup, hlt, hall⟩
  have hsub : paths ⊆ copies.map Prod.fst := by
    intro p hp
    obtain ⟨a, ha⟩ := Option.isSome_iff_exists.mp (hall p hp)
    obtain ⟨i, hi⟩ := h.found ha
    exact List.mem_map.mpr ⟨_, List.mem_of_getElem? hi, rfl⟩
  have hle := (hnodup.subperm hsub).length_le
  have hbound := h.bound
  rw [List.length_map] at hle
  omega

/-- A copy and what it was made of unfold to the same tree. -/
theorem Invariant.exists_unfolds (h : Invariant heap node maxNodes copies (fun _ => []) s)
    (n : Nat) : ∀ (i : Nat) p a, copies.length - i ≤ n → copies[i]? = some (p, a) →
      ∃ t, heap.Unfolds t a ∧ s.heap.Unfolds t (heap.next + i) := by
  -- children are copied after their parent, so the induction is on the copies left
  induction n with
  | zero =>
    intro i p a hn hi
    have := (List.getElem?_eq_some_iff.mp hi).1
    omega
  | succ n ih =>
    intro i p a hn hi
    rcases heap.file_or_isDirectory a with ⟨c, hc⟩ | hdir
    · exact ⟨.file c, by simpa [Heap.Unfolds] using hc,
        by simpa [Heap.Unfolds] using h.file i p a c hi hc⟩
    · have hcopies := (h.children hi hdir).imp fun r r' hr => by
        obtain ⟨hname, j, hij, hj, hr⟩ := hr
        exact (⟨hname, hr ▸ ih j _ _ (by omega) hj⟩ :
          r'.1 = r.1 ∧ ∃ t, heap.Unfolds t r.2 ∧ s.heap.Unfolds t r'.2)
      obtain ⟨cs, hcs, hcs'⟩ := Heap.exists_unfolds_forall₂ hcopies
      exact ⟨.directory cs, Heap.unfolds_directory.mpr ⟨hdir, hcs⟩,
        Heap.unfolds_directory.mpr ⟨(h.directory i p a hi hdir).1, hcs'⟩⟩

end finished

/-- What a copy of the graph below `node` is: the tree that the graph unfolds
    to, of bounded size, in new objects, each of them at one path. -/
structure IsCopy (heap : NodeHeap) (node maxNodes : Nat) (result : Nat × NodeHeap) : Prop where
  equal : ∃ t, heap.Unfolds t node ∧ result.2.Unfolds t result.1 ∧ t.count ≤ maxNodes
  unchanged : ∀ a < heap.next, result.2.cells a = heap.cells a
  disjoint : ∀ p q b, heap.follow node p = some b → result.2.follow result.1 q ≠ some b
  tree : ∀ p q b, result.2.follow result.1 p = some b → result.2.follow result.1 q = some b → p = q

section copies

variable {heap : NodeHeap} {node maxNodes : Nat}

/-- What the finished loop returns is a copy. -/
theorem Invariant.isCopy (hheap : heap.WellFormed) (hnode : node < heap.next)
    {copies : List (List Text × Nat)} {s : Cloning}
    (h : Invariant heap node maxNodes copies (fun _ => []) s) :
    IsCopy heap node maxNodes (heap.next, s.heap) := by
  refine ⟨?_, h.frame, ?_, ?_⟩
  · obtain ⟨t, ht, ht'⟩ := h.exists_unfolds copies.length 0 [] node (by omega) h.root
    refine ⟨t, ht, ht', ?_⟩
    by_contra hlt
    exact h.not_exceeds ((ht.exceeds_iff hheap hnode).mpr (by omega))
  · intro p q b hp hq
    obtain ⟨i, -, -, rfl⟩ := h.follow_copy hq
    have := hheap.follow_lt hnode hp
    omega
  · intro p q b hp hq
    obtain ⟨i, a, hi, rfl⟩ := h.follow_copy hp
    obtain ⟨j, a', hj, hij⟩ := h.follow_copy hq
    obtain rfl : i = j := by omega
    rw [hi] at hj
    cases hj
    rfl

/-- The state before the first turn. -/
def initial (heap : NodeHeap) (node : Nat) : Cloning :=
  ⟨(allocate heap (.directory [])).2, 1, [node], [(node, heap.next)]⟩

theorem initial_sound (hnode : node < heap.next) (hdir : heap.IsDirectory node)
    (hmax : 0 < maxNodes) : Sound heap node maxNodes (initial heap node) := by
  have hroot : ∀ (i : Nat) p a, [(([] : List Text), node)][i]? = some (p, a) →
      i = 0 ∧ p = [] ∧ a = node := by
    intro i p a hi
    rw [List.getElem?_singleton] at hi
    by_cases hzero : i = 0
    · rw [if_pos hzero] at hi
      cases hi
      exact ⟨hzero, rfl, rfl⟩
    · simp [hzero] at hi
  have hcells : ∀ a, (initial heap node).heap.cells a =
      if a = heap.next then .directory [] else heap.cells a := by
    intro a
    simp [initial, allocate, Function.update_apply]
  refine ⟨[([], node)], Function.update (fun _ => []) 0 (heap.children node), ?_, ?_⟩
  · constructor
    case count => rfl
    case bound => exact hmax
    case next => rfl
    case frame =>
      intro a ha
      rw [hcells, if_neg ha.ne]
    case root => rfl
    case paths => simp
    case follow => simp
    case closed => simp
    case seen =>
      intro a
      rw [initial, List.mem_singleton, List.map_singleton, List.mem_singleton]
      constructor
      · rintro rfl
        exact ⟨hdir, rfl⟩
      · exact fun h => h.2
    case once =>
      intro i j p q a hi hj _
      rw [(hroot i p a hi).1, (hroot j q a hj).1]
    case file =>
      intro i p a c hi hc
      rw [(hroot i p a hi).2.2] at hc
      exact absurd hdir (Heap.not_isDirectory_of_file hc)
    case directory =>
      intro i p a hi _
      obtain ⟨rfl, rfl, rfl⟩ := hroot i p a hi
      have hempty : (initial heap a).heap.cells (heap.next + 0) = .directory [] := by
        rw [hcells, if_pos (by omega)]
      refine ⟨Heap.isDirectory_iff.mpr ⟨[], hempty⟩, [], by simp, ?_⟩
      rw [Heap.children_of_directory hempty]
      exact .nil
    case fresh =>
      intro i p a hi r _
      simp
  · refine ⟨by simp [initial], ?_, ?_, by simp⟩
    · intro e he
      obtain rfl := List.mem_singleton.mp he
      exact ⟨hdir, 0, [], rfl, rfl, by simp⟩
    · intro j hj
      by_cases hzero : j = 0
      · right
        simp [initial, hzero]
      · simp [hzero] at hj

/-- A file is always copied. -/
theorem isCopy_file {c : Bytes} (hheap : heap.WellFormed) (hnode : node < heap.next)
    (hfile : heap.cells node = .file c) (hmax : 0 < maxNodes) :
    IsCopy heap node maxNodes (allocate heap (.file c)) := by
  have hcells : ∀ a, (allocate heap (.file c)).2.cells a =
      if a = heap.next then .file c else heap.cells a := by
    intro a
    simp [allocate, Function.update_apply]
  have hnew : (allocate heap (.file c)).2.cells heap.next = .file c := by
    rw [hcells, if_pos rfl]
  have hpaths : ∀ p b, (allocate heap (.file c)).2.follow heap.next p = some b →
      p = [] ∧ b = heap.next := by
    intro p b hp
    cases p with
    | nil => exact ⟨rfl, (Option.some.inj hp).symm⟩
    | cons k p => simp [Heap.follow, Heap.children_of_file hnew] at hp
  refine ⟨⟨.file c, hfile, hnew, ?_⟩, ?_, ?_, ?_⟩
  · rw [FileTree.count]
    exact hmax
  · intro a ha
    rw [hcells, if_neg ha.ne]
  · intro p q b hp hq
    have hlt := hheap.follow_lt hnode hp
    have hb := (hpaths q b hq).2
    omega
  · intro p q b hp hq
    rw [(hpaths p b hp).1, (hpaths q b hq).1]

theorem not_reachesTwice_file {c : Bytes} (hfile : heap.cells node = .file c) :
    ¬ heap.ReachesTwice node := by
  rintro ⟨p, q, d, hne, hp, hq, -⟩
  have hnil : ∀ r, heap.follow node r = some d → r = [] := by
    intro r hr
    cases r with
    | nil => rfl
    | cons k r => simp [Heap.follow, Heap.children_of_file hfile] at hr
  exact hne ((hnil p hp).trans (hnil q hq).symm)

/-- A copy ends, and raises on no small tree. -/
theorem cloneNode_outcome (hheap : heap.WellFormed) (hnode : node < heap.next)
    (hmax : 0 < maxNodes) :
    ∃ outcome, (∀ fuel, maxNodes ≤ fuel → cloneNode fuel heap node maxNodes = some outcome) ∧
      Settles (heap.ReachesTwice node ∨ heap.Exceeds node maxNodes)
        (fun result => IsCopy heap node maxNodes result ∧ ¬ heap.ReachesTwice node ∧
          ¬ heap.Exceeds node maxNodes) outcome := by
  rcases heap.file_or_isDirectory node with ⟨c, hc⟩ | hdir
  · have hcopy := isCopy_file hheap hnode hc hmax
    obtain ⟨t, ht, -, hcount⟩ := hcopy.equal
    refine ⟨.ok (allocate heap (.file c)), fun fuel _ => by rw [cloneNode, hc], hcopy,
      not_reachesTwice_file hc, fun hexceeds => ?_⟩
    have hlt := (ht.exceeds_iff hheap hnode).mp hexceeds
    omega
  · have hcost : (initial heap node).cost maxNodes ≤ maxNodes := by
      simp only [Cloning.cost, initial, List.length_singleton]
      omega
    obtain ⟨outcome, hout, hsettles⟩ :=
      cloneLoop_spec hheap hnode (initial_sound hnode hdir hmax) hcost
    refine ⟨outcome.map fun s => (heap.next, s.heap), fun fuel hfuel => ?_, ?_⟩
    · have hrun := hout fuel hfuel
      rw [cloneNode, hdir]
      show (cloneLoop maxNodes fuel (initial heap node)).map _ = _
      rw [hrun]
      rfl
    · cases outcome with
      | error e => exact hsettles
      | ok s =>
        obtain ⟨copies, h⟩ := hsettles
        exact ⟨h.isCopy hheap hnode, h.not_reachesTwice, h.not_exceeds⟩

/-- On any graph the copy ends, with a tree of new objects or an error, and it
    raises exactly on the graphs that reach a directory twice or are too large. -/
theorem cloneNode_safe (hheap : heap.WellFormed) (hnode : node < heap.next) (hmax : 0 < maxNodes) :
    ∃ outcome, (∀ fuel, maxNodes ≤ fuel → cloneNode fuel heap node maxNodes = some outcome) ∧
      (∀ result, outcome = .ok result → IsCopy heap node maxNodes result) ∧
      ((∃ e, outcome = .error e) ↔ heap.ReachesTwice node ∨ heap.Exceeds node maxNodes) := by
  obtain ⟨outcome, hout, hsettles⟩ := cloneNode_outcome hheap hnode hmax
  refine ⟨outcome, hout, ?_⟩
  cases outcome with
  | error e => exact ⟨fun _ hresult => (nomatch hresult), fun _ => hsettles, fun _ => ⟨e, rfl⟩⟩
  | ok result =>
    obtain ⟨hcopy, honce, hsmall⟩ := hsettles
    refine ⟨?_, ?_, ?_⟩
    · rintro _ ⟨rfl⟩
      exact hcopy
    · rintro ⟨e, he⟩
      cases he
    · rintro (htwice | hexceeds)
      · exact absurd htwice honce
      · exact absurd hexceeds hsmall

/-- A directory with a file that its subdirectory shares. -/
def sharedFile : NodeHeap where
  cells
    | 0 => .directory [(py "a", 1), (py "d", 2)]
    | 2 => .directory [(py "b", 1)]
    | _ => .file []
  next := 3

theorem sharedFile_wellFormed : sharedFile.WellFormed where
  closed := by decide
  unique := by
    unfold Dict.UniqueKeys
    decide

theorem cloneNode_safe_shared :
    ∃ outcome, (∀ fuel, 4 ≤ fuel → cloneNode fuel sharedFile 0 4 = some outcome) ∧
      (∀ result, outcome = .ok result → IsCopy sharedFile 0 4 result) ∧
      ((∃ e, outcome = .error e) ↔ sharedFile.ReachesTwice 0 ∨ sharedFile.Exceeds 0 4) :=
  cloneNode_safe sharedFile_wellFormed (by decide) (by decide)

/-- On a tree, the copy of the graph is the copy of the tree. -/
theorem cloneNode_refines (hheap : heap.WellFormed) (hnode : node < heap.next)
    (hmax : 0 < maxNodes) {t : Node} (ht : heap.Unfolds t node) (honce : ¬ heap.ReachesTwice node)
    {fuel : Nat} (hfuel : maxNodes ≤ fuel) :
    (∃ result, cloneNode fuel heap node maxNodes = some (.ok result) ∧
      result.2.Unfolds t result.1) ↔ Node.cloneNode t maxNodes = .ok t := by
  obtain ⟨outcome, hout, hsettles⟩ := cloneNode_outcome hheap hnode hmax
  rw [hout fuel hfuel, Node.cloneNode_eq_ok]
  cases outcome with
  | error e =>
    have hlt := (ht.exceeds_iff hheap hnode).mp (hsettles.resolve_left honce)
    simp only [Option.some.injEq, reduceCtorEq, false_and, exists_false, false_iff, and_true]
    omega
  | ok result =>
    obtain ⟨hcopy, -, -⟩ := hsettles
    obtain ⟨t', ht', hresult, hcount⟩ := hcopy.equal
    obtain rfl := ht.eq ht'
    exact ⟨fun _ => ⟨.inl hcount, rfl⟩, fun _ => ⟨result, rfl, hresult⟩⟩

end copies

end NodeGraph
