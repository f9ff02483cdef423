import MemSandbox.Workspace.Paths
import MemSandbox.Lib.Sorted
import MemSandbox.Lib.FileMap

/-! # Workspace values

    `workspace/models.py` and `workspace/hashing.py`: content hashes, limits,
    requests, results.  The validity that a constructor of the source checks
    is a field here, so that an ill-formed value cannot be built; checks that
    a field has the declared type are what typing gives.

    SHA-256 is an arbitrary function from bytes to 32 bytes. -/

open Python

/-! ## Section 1: Content hashes -/

/-- The digest function. -/
class Sha256 where
  digest : Bytes → Fin 32 → Byte

/-- A lowercase SHA-256 digest. -/
structure ContentHash where
  value : Text
  length_eq : value.length = 64
  digits : ∀ c ∈ value, c ∈ py "0123456789abcdef"
  deriving DecidableEq

namespace ContentHash

/-- `ContentHash(value)`. -/
def new (value : Text) : Except PyError ContentHash :=
  if h : value.length = 64 ∧ ∀ c ∈ value, c ∈ py "0123456789abcdef" then
    .ok ⟨value, h.1, h.2⟩
  else
    raise .valueError (py "content hash must be a lowercase SHA-256 digest")

@[simp] theorem new_value (hash : ContentHash) : new hash.value = .ok hash := by
  simp only [new, hash.length_eq, true_and]
  rw [dif_pos hash.digits]

/-- `ContentHash.from_bytes`. -/
def fromBytes [Sha256] (content : Bytes) : ContentHash where
  value := hex (List.ofFn (Sha256.digest content))
  length_eq := by simp [length_hex]
  digits := hex_digits _

theorem length_bytes (hash : ContentHash) : (fromHex hash.value).length = 32 := by
  have hlength := length_fromHex (by rw [hash.length_eq]; decide) hash.digits
  rw [hash.length_eq] at hlength
  omega

/-- A content hash is determined by the bytes it denotes. -/
theorem eq_of_bytes {hash hash' : ContentHash} (h : fromHex hash.value = fromHex hash'.value) :
    hash = hash' := by
  have hvalue := congrArg hex h
  rw [hex_fromHex (by rw [hash.length_eq]; decide) hash.digits,
    hex_fromHex (by rw [hash'.length_eq]; decide) hash'.digits] at hvalue
  cases hash
  cases hash'
  simp only at hvalue
  subst hvalue
  rfl

/-- Equal content hashes are equal digests. -/
theorem digest_eq_of_fromBytes [Sha256] {a b : Bytes} (h : fromBytes a = fromBytes b) :
    Sha256.digest a = Sha256.digest b := by
  have hhex : hex (List.ofFn (Sha256.digest a)) = hex (List.ofFn (Sha256.digest b)) :=
    congrArg value h
  exact List.ofFn_injective (hex_injective hhex)

end ContentHash

/-- Supported workspace node types. -/
inductive NodeKind where
  | file
  | directory
  deriving DecidableEq, Repr

/-- The text of a `StrEnum` member, by which members are ordered. -/
def NodeKind.value : NodeKind → Text
  | .file => py "file"
  | .directory => py "directory"

theorem NodeKind.value_injective : Function.Injective NodeKind.value := by
  intro a b
  cases a <;> cases b <;> decide

/-! ## Section 2: Directory hashes -/

/-- A child as `hash_directory` receives it. -/
abbrev ChildHash : Type := Text × NodeKind × ContentHash

/-- The key of the tuple order on children. -/
def ChildHash.key (child : ChildHash) : Text ×ₗ Text ×ₗ Text :=
  toLex (child.1, toLex (child.2.1.value, child.2.2.value))

theorem ChildHash.key_injective : Function.Injective ChildHash.key := by
  rintro ⟨n, k, h⟩ ⟨n', k', h'⟩ heq
  have hlex := toLex.injective heq
  simp only [Prod.mk.injEq, EmbeddingLike.apply_eq_iff_eq] at hlex
  obtain ⟨rfl, hkind, hhash⟩ := hlex
  obtain rfl := NodeKind.value_injective hkind
  obtain rfl : h = h' := by
    cases h
    cases h'
    simp_all
  rfl

/-- `(n).to_bytes(4, "big")`. -/
def toBytes4 (n : Nat) : Except PyError Bytes :=
  if n < 2 ^ 32 then
    .ok [Fin.ofNat 256 (n / 2 ^ 24), Fin.ofNat 256 (n / 2 ^ 16), Fin.ofNat 256 (n / 2 ^ 8),
      Fin.ofNat 256 n]
  else
    raise .overflowError (py "int too big to convert")

theorem toBytes4_of_lt {n : Nat} (h : n < 2 ^ 32) : ∃ b, toBytes4 n = .ok b := by
  rw [toBytes4, if_pos h]
  exact ⟨_, rfl⟩

theorem lt_of_toBytes4 {n : Nat} {b : Bytes} (h : toBytes4 n = .ok b) : n < 2 ^ 32 := by
  unfold toBytes4 at h
  by_cases hlt : n < 2 ^ 32
  · exact hlt
  · rw [if_neg hlt] at h
    exact absurd h raise_ne_ok

theorem toBytes4_raises {P : ErrorClass → Prop} (h : P .overflowError) {n : Nat} :
    Raises P (toBytes4 n) := by
  unfold toBytes4
  split
  · exact .ok
  · exact Raises.raise_iff.mpr h

theorem length_toBytes4 {n : Nat} {b : Bytes} (h : toBytes4 n = .ok b) : b.length = 4 := by
  unfold toBytes4 at h
  split at h
  · rw [← Except.ok.inj h]
    rfl
  · cases h

theorem toBytes4_injective {n m : Nat} {b : Bytes} (hn : toBytes4 n = .ok b)
    (hm : toBytes4 m = .ok b) : n = m := by
  unfold toBytes4 at hn hm
  split at hn
  · next hlt =>
    split at hm
    · next hlt' =>
      rw [← Except.ok.inj hn] at hm
      simp only [Except.ok.injEq, List.cons.injEq, and_true, Fin.ext_iff, Fin.ofNat] at hm
      omega
    · cases hm
  · cases hn

/-- `value.encode("utf-8")`. -/
def encode (value : Text) : Except PyError Bytes :=
  match encodeUtf8 value with
  | some bytes => .ok bytes
  | none => raise .unicodeEncodeError (py "surrogates not allowed")

theorem encode_eq_ok {value : Text} {bytes : Bytes} :
    encode value = .ok bytes ↔ encodeUtf8 value = some bytes := by
  unfold encode
  cases encodeUtf8 value <;> simp [raise]

theorem encode_raises {P : ErrorClass → Prop} (h : P .unicodeEncodeError) {value : Text} :
    Raises P (encode value) := by
  unfold encode
  split
  · exact .ok
  · exact Raises.raise_iff.mpr h

/-- What the digest of a directory is fed for each child, in order. -/
def childBytes : List ChildHash → Except PyError Bytes
  | [] => .ok []
  | (name, kind, contentHash) :: rest => do
    let nameBytes ← encode name
    let length ← toBytes4 nameBytes.length
    let tail ← childBytes rest
    .ok ((if kind = .file then ascii "F" else ascii "D") ++ length ++ nameBytes ++
      fromHex contentHash.value ++ tail)

theorem childBytes_cons_eq_ok {child : ChildHash} {rest : List ChildHash} {bytes : Bytes} :
    childBytes (child :: rest) = .ok bytes ↔
      ∃ nameBytes length tail, encodeUtf8 child.1 = some nameBytes ∧
        toBytes4 nameBytes.length = .ok length ∧ childBytes rest = .ok tail ∧
        bytes = (if child.2.1 = .file then ascii "F" else ascii "D") ++ length ++ nameBytes ++
          fromHex child.2.2.value ++ tail := by
  simp only [childBytes, Except.bind_eq_ok_iff, encode_eq_ok, Except.ok.injEq]
  constructor
  · intro h
    obtain ⟨nameBytes, hname, length, hlength, tail, htail, hbytes⟩ := h
    exact ⟨nameBytes, length, tail, hname, hlength, htail, hbytes.symm⟩
  · intro h
    obtain ⟨nameBytes, length, tail, hname, hlength, htail, hbytes⟩ := h
    exact ⟨nameBytes, hname, length, hlength, tail, htail, hbytes.symm⟩

/-- A name is refused when it is not UTF-8, or when its length takes more than
    four bytes. -/
def IsNameError (cls : ErrorClass) : Prop := cls = .unicodeEncodeError ∨ cls = .overflowError

theorem childBytes_raises {children : List ChildHash} : Raises IsNameError (childBytes children) := by
  induction children with
  | nil => exact .ok
  | cons child rest ih =>
    obtain ⟨name, kind, contentHash⟩ := child
    unfold childBytes
    apply Raises.bind (encode_raises (.inl rfl))
    intro nameBytes _
    apply Raises.bind (toBytes4_raises (.inr rfl))
    intro length _
    exact ih.bind fun tail _ => .ok

/-- The records of the children can be read back: the kind is one byte, the
    length four, the digest thirty-two, and the length tells where the name ends. -/
theorem childBytes_injective {children children' : List ChildHash} {bytes : Bytes}
    (h : childBytes children = .ok bytes) (h' : childBytes children' = .ok bytes) :
    children = children' := by
  induction children generalizing children' bytes with
  | nil =>
    cases children' with
    | nil => rfl
    | cons child' rest' =>
      obtain ⟨nameBytes, length, tail, -, -, -, hbytes⟩ := childBytes_cons_eq_ok.mp h'
      have hnil : bytes = [] := (Except.ok.inj h).symm
      rw [hnil] at hbytes
      split at hbytes <;> simp [ascii] at hbytes
  | cons child rest ih =>
    obtain ⟨name, length, tail, hname, hlength, htail, hbytes⟩ := childBytes_cons_eq_ok.mp h
    cases children' with
    | nil =>
      have hnil : bytes = [] := (Except.ok.inj h').symm
      rw [hnil] at hbytes
      split at hbytes <;> simp [ascii] at hbytes
    | cons child' rest' =>
      obtain ⟨name', length', tail', hname', hlength', htail', hbytes'⟩ :=
        childBytes_cons_eq_ok.mp h'
      rw [hbytes] at hbytes'
      simp only [List.append_assoc] at hbytes'
      obtain ⟨hkind, hbytes'⟩ := List.append_inj hbytes' (by split <;> split <;> rfl)
      obtain ⟨hlen, hbytes'⟩ := List.append_inj hbytes'
        (by rw [length_toBytes4 hlength, length_toBytes4 hlength'])
      have hnameLength : name.length = name'.length := toBytes4_injective hlength (hlen ▸ hlength')
      obtain ⟨hnames, hbytes'⟩ := List.append_inj hbytes' hnameLength
      obtain ⟨hhash, htails⟩ := List.append_inj hbytes'
        (by rw [ContentHash.length_bytes, ContentHash.length_bytes])
      have hrest := ih htail (htails ▸ htail')
      obtain ⟨text, kind, hash⟩ := child
      obtain ⟨text', kind', hash'⟩ := child'
      have htags : ascii "F" ≠ ascii "D" := by decide
      obtain rfl : kind = kind' := by
        cases kind <;> cases kind' <;> simp_all
      have htext : text = text' := by
        have hdecoded := decodeUtf8_encodeUtf8 hname'
        rw [← hnames, decodeUtf8_encodeUtf8 hname, Option.some.injEq] at hdecoded
        exact hdecoded
      have hhashes : hash = hash' := ContentHash.eq_of_bytes hhash
      rw [htext, hhashes, hrest]

/-- `hash_directory`. -/
def hashDirectory [Sha256] (children : List ChildHash) : Except PyError ContentHash := do
  let bytes ← childBytes (sorted ChildHash.key children)
  .ok (.fromBytes (ascii "mem-sandbox-directory-v1" ++ [0] ++ bytes))

theorem hashDirectory_raises [Sha256] {children : List ChildHash} :
    Raises IsNameError (hashDirectory children) :=
  childBytes_raises.bind fun _ _ => .ok

/-- The order in which the children are given does not matter. -/
theorem hashDirectory_perm [Sha256] {children children' : List ChildHash}
    (h : children.Perm children') : hashDirectory children = hashDirectory children' := by
  rw [hashDirectory, hashDirectory,
    sorted_eq_of_perm (fun _ _ _ _ heq => ChildHash.key_injective heq) h]

/-! ## Section 3: Limits -/

/-- Configurable authoritative workspace limits. -/
structure WorkspaceLimits where
  maxFileBytes : Nat := 4 * 1024 * 1024
  maxTotalBytes : Nat := 16 * 1024 * 1024
  maxNodes : Nat := 10000
  maxPathBytes : Nat := 4096
  maxSegmentBytes : Nat := 255
  maxReadBytes : Nat := 256 * 1024
  maxReadLines : Nat := 2000
  maxPatchBytes : Nat := 1024 * 1024
  maxSnapshotBytes : Nat := 32 * 1024 * 1024
  positive : 0 < maxFileBytes ∧ 0 < maxTotalBytes ∧ 0 < maxNodes ∧ 0 < maxPathBytes ∧
    0 < maxSegmentBytes ∧ 0 < maxReadBytes ∧ 0 < maxReadLines ∧ 0 < maxPatchBytes ∧
    0 < maxSnapshotBytes := by decide
  file_le_total : maxFileBytes ≤ maxTotalBytes := by decide
  segment_le_path : maxSegmentBytes ≤ maxPathBytes := by decide
  root_path : SandboxPath.ROOT.length ≤ maxPathBytes := by decide
  root_segment : (py "workspace").length ≤ maxSegmentBytes := by decide

/-- `WorkspaceLimits()`. -/
def WorkspaceLimits.default : WorkspaceLimits := {}

/-- A path that the workspace accepts: `resolve` returns it within the limits. -/
def WorkspaceLimits.Allows (limits : WorkspaceLimits) (p : List Text) : Prop :=
  SandboxPath.Fits limits.maxPathBytes limits.maxSegmentBytes p

theorem WorkspaceLimits.allows_root (limits : WorkspaceLimits) : limits.Allows [] := by
  refine ⟨?_, ?_⟩
  · intro s hs
    rw [List.mem_singleton] at hs
    subst hs
    exact ⟨9, by decide, limits.root_segment⟩
  · exact ⟨10, by decide, limits.root_path⟩

/-! ## Section 4: Requests and results -/

/-- `Revision`, a non-negative integer. -/
abbrev Revision : Type := Nat

/-- What a write requires of the current state. -/
inductive WritePrecondition where
  | anyCurrentState
  | pathMustNotExist
  | contentHashMustEqual (expectedHash : ContentHash)
  deriving DecidableEq

/-- Committed workspace counters and root identity. -/
structure WorkspaceStats where
  totalBytes : Nat
  nodeCount : Nat
  revision : Revision
  rootHash : ContentHash
  deriving DecidableEq

/-- Measured tree counters and root identity without revision history. -/
structure WorkspaceTreeStats where
  totalBytes : Nat
  nodeCount : Nat
  rootHash : ContentHash
  deriving DecidableEq

/-- A snapshot record: a path other than the root, with the content of a file. -/
structure WorkspaceSnapshotEntry where
  path : SandboxPath
  entry : FileMap.Entry Bytes
  not_root : path.isRoot = false
  deriving DecidableEq

/-- Validated versioned snapshot state ready to restore. -/
structure DecodedWorkspaceSnapshot where
  entries : List WorkspaceSnapshotEntry
  stats : WorkspaceStats

/-- Metadata of a file or directory. -/
structure WorkspaceEntry where
  path : SandboxPath
  kind : NodeKind
  sizeBytes : Nat
  contentHash : ContentHash
  revision : Revision
  deriving DecidableEq

/-- A complete binary file read. -/
structure WorkspaceBinaryResult where
  path : SandboxPath
  content : Bytes
  contentHash : ContentHash
  revision : Revision
  deriving DecidableEq

structure WorkspaceTextResult where
  path : SandboxPath
  content : Text
  contentHash : ContentHash
  revision : Revision
  deriving DecidableEq

structure MakeDirectoryRequest where
  path : SandboxPath
  createParents : Bool := false
  existOk : Bool := false

structure WorkspaceWriteRequest where
  path : SandboxPath
  content : Bytes
  precondition : WritePrecondition
  createParents : Bool := false

structure WorkspaceAppendRequest where
  path : SandboxPath
  content : Bytes
  precondition : WritePrecondition
  createParents : Bool := false

structure RemovePathRequest where
  path : SandboxPath
  recursive : Bool := false
  missingOk : Bool := false

structure CopyPathRequest where
  source : SandboxPath
  destination : SandboxPath
  overwrite : Bool := false
  createParents : Bool := false

structure MovePathRequest where
  source : SandboxPath
  destination : SandboxPath
  overwrite : Bool := false
  createParents : Bool := false

/-- The committed outcome of one path mutation. -/
structure WorkspaceMutation where
  path : SandboxPath
  created : Bool
  changed : Bool
  previousHash : Option ContentHash
  currentHash : Option ContentHash
  stats : WorkspaceStats
  deriving DecidableEq

/-- A file-specific stale-content precondition for a patch. -/
structure ExpectedFileHash where
  path : SandboxPath
  contentHash : ContentHash
  deriving DecidableEq

/-- A patch and its preconditions, at most one for each path. -/
structure WorkspacePatchRequest where
  patch : Text
  expectedHashes : List ExpectedFileHash
  distinct : (expectedHashes.map ExpectedFileHash.path).Nodup

/-- Hash transition for one file in an atomic patch. -/
structure PatchedFile where
  path : SandboxPath
  previousHash : ContentHash
  currentHash : ContentHash
  deriving DecidableEq

/-- The committed outcome of a multi-file patch. -/
structure WorkspacePatchResult where
  files : List PatchedFile
  stats : WorkspaceStats
  deriving DecidableEq

/-- Opaque deterministic workspace snapshot bytes and verified metadata. -/
structure WorkspaceSnapshotData where
  encoded : Bytes
  schemaVersion : Int
  integrityHash : ContentHash
  workspaceRevision : Revision
  rootHash : ContentHash
