import MemSandbox.Workspace.PaxCursor
import MemSandbox.Workspace.ArchiveErrors
import MemSandbox.Lib.Utf8

/-! # What a PAX payload is

    Every record of a payload states its own length.  A payload is accepted
    exactly when it is a row of records whose lengths are true, so that each
    begins where the one before it ends and the last ends with the payload. -/

open Python Tar Reading

namespace PortableWorkspaceArchiveCodec

/-! ## Section 1: Records -/

/-- A record `LEN SP KEY=VALUE LF`. -/
structure Assignment where
  digits : Bytes
  key : Bytes
  value : Bytes

namespace Assignment

/-- The record as it stands in the payload. -/
def bytes (r : Assignment) : Bytes :=
  r.digits ++ 32 :: (r.key ++ 61 :: (r.value ++ [10]))

/-- The number that `LEN` spells. -/
def declared (r : Assignment) : Nat := r.digits.foldl (fun n b => 10 * n + (b.val - 48)) 0

/-- `LEN` is the record's own length, and the key ends at the first `=`. -/
structure Framed (r : Assignment) : Prop where
  digits_ne : r.digits ≠ []
  digits : ∀ b ∈ r.digits, 48 ≤ b.val ∧ b.val ≤ 57
  short : r.digits.length ≤ maxDigits
  true_length : r.declared = r.bytes.length
  key_ne : r.key ≠ []
  no_equals : (61 : Byte) ∉ r.key

/-- A value that a `path` record may have: a canonical member name in UTF-8,
    the root marker or a path within the limits. -/
def PathValue (limits : WorkspaceLimits) (value : Bytes) : Prop :=
  ∃ text, decodeUtf8 value = some text ∧ ∃ found, canonicalMemberName text true = .ok found ∧
    ∀ name ∈ found, limits.Allows (split slash name)

/-- A record that the reader takes. -/
structure Accepted (limits : WorkspaceLimits) (r : Assignment) : Prop where
  framed : r.Framed
  key : ∃ key, decodeUtf8 r.key = some key ∧ key ≠ py "size" ∧ ¬ py "GNU.sparse" <+: key ∧
    (key = py "path" → PathValue limits r.value)

/-- The path that a record sets. -/
def path (r : Assignment) : Option Text :=
  if decodeUtf8 r.key = some (py "path") then decodeUtf8 r.value else none

/-- The value of the last `path` record. -/
def lastPath (records : List Assignment) : Option Text := (records.filterMap path).getLast?

theorem bytes_eq (r : Assignment) :
    r.bytes = r.digits ++ [32] ++ (r.key ++ 61 :: r.value) ++ [10] := by
  simp [bytes]

theorem length_bytes (r : Assignment) :
    r.bytes.length = r.digits.length + r.key.length + r.value.length + 3 := by
  simp only [bytes, List.length_append, List.length_cons, List.length_nil]
  omega

theorem lastPath_cons (r : Assignment) (records : List Assignment) (path : Option Text) :
    (lastPath (r :: records) <|> path) = (lastPath records <|> (r.path <|> path)) := by
  unfold lastPath
  cases hr : r.path with
  | none => rw [List.filterMap_cons_none hr]; rfl
  | some text =>
    rw [List.filterMap_cons_some hr, List.getLast?_cons]
    cases (records.filterMap Assignment.path).getLast? <;> rfl

end Assignment

/-! ## Section 2: One record -/

theorem not_mem_take_idxOf (b : Byte) (body : Bytes) : b ∉ body.take (body.idxOf b) := by
  by_cases h : b ∈ body
  · rw [List.mem_take_iff_idxOf_lt h]
    exact lt_irrefl _
  · exact fun hmem => h (List.mem_of_mem_take hmem)

/-- A list at the first place of an element. -/
theorem eq_take_idxOf {b : Byte} {body : Bytes} (h : body.idxOf b < body.length) :
    body = body.take (body.idxOf b) ++ b :: body.drop (body.idxOf b + 1) := by
  have hdrop := List.drop_eq_getElem_cons h
  rw [List.getElem_idxOf h] at hdrop
  rw [← hdrop, List.take_append_drop]

theorem idxOf_append_cons {b : Byte} {front back : Bytes} (h : b ∉ front) :
    (front ++ b :: back).idxOf b = front.length := by
  rw [List.idxOf_append_of_notMem h, List.idxOf_cons_self, Nat.add_zero]

theorem paxLength_eq_ok {digits : Bytes} {n : Nat} :
    paxLength digits = .ok n ↔ (digits ≠ [] ∧ ∀ b ∈ digits, 48 ≤ b.val ∧ b.val ≤ 57) ∧
      digits.length ≤ maxDigits ∧ digits.foldl (fun n b => 10 * n + (b.val - 48)) 0 = n := by
  simp only [paxLength, Except.bind_eq_ok_iff, requireSound_eq_ok, Except.ok.injEq]
  constructor
  · intro h
    obtain ⟨-, hdigits, -, hshort, hvalue⟩ := h
    exact ⟨hdigits, hshort, hvalue⟩
  · intro h
    exact ⟨(), h.1, (), h.2⟩

/-- What a round finds: a length `n`, and between the separator and the line
    feed a `body` with an `=` behind its first byte. -/
structure Found (payload : Bytes) (record : PaxRecord) (n : Nat) (body : Bytes) : Prop where
  separator : payload.idxOf 32 < payload.length
  length : paxLength (payload.take (payload.idxOf 32)) = .ok n
  lower : payload.idxOf 32 + 1 < n
  upper : n ≤ payload.length
  last : payload[n - 1]? = some 10
  between_eq : Tar.slice payload (payload.idxOf 32 + 1) (n - 1) = body
  positive : 0 < body.idxOf 61
  equals : body.idxOf 61 < body.length
  record_eq : PaxRecord.mk (body.take (body.idxOf 61)) (body.drop (body.idxOf 61 + 1))
    (payload.drop n) = record

theorem paxRecordOf_eq_ok_iff_found {payload : Bytes} {record : PaxRecord} :
    paxRecordOf payload = .ok record ↔ ∃ n body, Found payload record n body := by
  simp only [paxRecordOf, Except.bind_eq_ok_iff, requireSound_eq_ok, Except.ok.injEq]
  constructor
  · intro h
    obtain ⟨-, h₁, n, h₂, -, ⟨h₃, h₄⟩, -, h₅, -, ⟨h₆, h₇⟩, h₈⟩ := h
    exact ⟨n, _, h₁, h₂, h₃, h₄, h₅, rfl, h₆, h₇, h₈⟩
  · intro h
    obtain ⟨n, _, h₁, h₂, h₃, h₄, h₅, rfl, h₆, h₇, h₈⟩ := h
    exact ⟨(), h₁, n, h₂, (), ⟨h₃, h₄⟩, (), h₅, (), ⟨h₆, h₇⟩, h₈⟩

/-- What a round finds is a record whose length is true. -/
theorem Found.tiles {payload : Bytes} {record : PaxRecord} {n : Nat} {body : Bytes}
    (h : Found payload record n body) : ∃ r : Assignment, r.Framed ∧ r.key = record.key ∧
      r.value = record.value ∧ payload = r.bytes ++ record.rest := by
  obtain ⟨hseparator, hlength, hlower, hupper, hlast, hbody, hpositive, hequals, rfl⟩ := h
  obtain ⟨⟨hne, hdigits⟩, hshort, hvalue⟩ := paxLength_eq_ok.mp hlength
  have hfront := eq_take_idxOf hseparator
  generalize payload.idxOf 32 = separator at *
  have hassign := eq_take_idxOf hequals
  have hno := not_mem_take_idxOf 61 body
  generalize body.idxOf 61 = equals at *
  -- behind the separator stand the body, the line feed and the rest
  have hbehind : payload.drop (separator + 1) = body ++ 10 :: payload.drop n := by
    have hcut := List.take_append_drop (n - 1 - (separator + 1)) (payload.drop (separator + 1))
    rw [← hbody, Tar.slice]
    rw [List.drop_drop, Nat.add_sub_cancel' (by omega)] at hcut
    obtain ⟨hlt, hten⟩ := List.getElem?_eq_some_iff.mp hlast
    rw [List.drop_eq_getElem_cons hlt, hten, Nat.sub_add_cancel (by omega)] at hcut
    exact hcut.symm
  let r : Assignment := ⟨payload.take separator, body.take equals, body.drop (equals + 1)⟩
  have htiles : payload = r.bytes ++ payload.drop n := by
    rw [hbehind, hassign] at hfront
    simpa [r, Assignment.bytes] using hfront
  have htrue : r.bytes.length = n := by
    have htotal := congrArg List.length htiles
    rw [List.length_append, List.length_drop] at htotal
    omega
  have hkey : r.key ≠ [] := by
    intro hnil
    have hzero : (body.take equals).length = 0 := congrArg List.length hnil
    rw [List.length_take] at hzero
    omega
  exact ⟨r, ⟨hne, hdigits, hshort, hvalue.trans htrue.symm, hkey, hno⟩, rfl, rfl, htiles⟩

/-- A record whose length is true is found where a payload starts with it. -/
theorem Assignment.Framed.found {r : Assignment} (h : r.Framed) (rest : Bytes) :
    Found (r.bytes ++ rest) ⟨r.key, r.value, rest⟩ r.bytes.length (r.key ++ 61 :: r.value) := by
  have hspace : (32 : Byte) ∉ r.digits := by
    intro hmem
    exact absurd (h.digits 32 hmem).1 (by decide)
  have hseparator : (r.bytes ++ rest).idxOf 32 = r.digits.length := by
    rw [Assignment.bytes, List.append_assoc, List.cons_append, idxOf_append_cons hspace]
  have htext : (r.bytes ++ rest).take r.digits.length = r.digits := by
    rw [Assignment.bytes, List.append_assoc, List.take_left' rfl]
  have hlength := r.length_bytes
  have htotal : (r.bytes ++ rest).length = r.bytes.length + rest.length := List.length_append
  have hequals : (r.key ++ 61 :: r.value).idxOf 61 = r.key.length :=
    idxOf_append_cons h.no_equals
  constructor
  · omega
  · rw [hseparator, htext]
    exact paxLength_eq_ok.mpr ⟨⟨h.digits_ne, h.digits⟩, h.short, h.true_length⟩
  · omega
  · omega
  · rw [List.getElem?_append_left (by omega), r.bytes_eq, List.length_append,
      List.length_singleton, Nat.add_sub_cancel, List.getElem?_concat_length]
  · rw [hseparator, Tar.slice, hlength, r.bytes_eq, List.append_assoc,
      List.append_assoc (r.digits ++ [32]), List.drop_left' (by simp), List.take_left']
    rw [List.length_append, List.length_cons]
    omega
  · rw [hequals]
    exact List.length_pos_of_ne_nil h.key_ne
  · rw [hequals, List.length_append, List.length_cons]
    omega
  · rw [hequals, List.take_left' rfl, ← List.drop_drop, List.drop_left' rfl, List.drop_one,
      List.tail_cons, List.drop_left' rfl]

/-- The reader finds the record that a payload starts with, and no other. -/
theorem paxRecordOf_eq_ok {payload : Bytes} {record : PaxRecord} :
    paxRecordOf payload = .ok record ↔ ∃ r : Assignment, r.Framed ∧ r.key = record.key ∧
      r.value = record.value ∧ payload = r.bytes ++ record.rest := by
  rw [paxRecordOf_eq_ok_iff_found]
  constructor
  · intro h
    obtain ⟨n, body, hfound⟩ := h
    exact hfound.tiles
  · intro h
    obtain ⟨key, value, rest⟩ := record
    obtain ⟨r, hframed, rfl, rfl, rfl⟩ := h
    exact ⟨_, _, hframed.found rest⟩

/-! ## Section 3: The value of a path -/

theorem canonicalMemberName_eq_none {rawName : Text} :
    canonicalMemberName rawName true = .ok none ↔ rawName = py "." ∨ rawName = py "./" := by
  unfold canonicalMemberName
  by_cases hmarker : rawName = py "." ∨ rawName = py "./"
  · simp [hmarker]
  · simp [hmarker, Except.bind_eq_ok_iff]

theorem encoded_eq_iff {text text' : Text} {value value' : Bytes}
    (h : encodeUtf8 text = some value) (h' : encodeUtf8 text' = some value') :
    value = value' ↔ text = text' := by
  constructor
  · intro heq
    subst heq
    exact Option.some.inj ((decodeUtf8_encodeUtf8 h).symm.trans (decodeUtf8_encodeUtf8 h'))
  · intro heq
    subst heq
    exact Option.some.inj (h.symm.trans h')

/-- The bytes without the marker in front are those of the text without it. -/
theorem encode_withoutMarker {text : Text} {value : Bytes} (h : encodeUtf8 text = some value) :
    encodeUtf8 (withoutMarker text) =
      some (if startsWith value (ascii "./") then value.drop 2 else value) := by
  have hmarker : encodeUtf8 (py "./") = some (ascii "./") := by decide
  unfold withoutMarker
  by_cases hstarts : startsWith text (py "./") = true
  · obtain ⟨rest, rfl⟩ := startsWith_iff.mp hstarts
    obtain ⟨front, bytes, hfront, hbytes, rfl⟩ := encodeUtf8_append_eq_some.mp h
    obtain rfl := Option.some.inj (hmarker.symm.trans hfront)
    have hprefix : startsWith (ascii "./" ++ bytes) (ascii "./") = true :=
      startsWith_iff.mpr (List.prefix_append _ _)
    rw [if_pos hstarts, if_pos hprefix]
    exact hbytes
  · have hprefix : ¬ startsWith value (ascii "./") = true := by
      intro hvalue
      exact hstarts (startsWith_iff.mpr (prefix_of_encodeUtf8 h hmarker (startsWith_iff.mp hvalue)))
    rw [if_neg hstarts, if_neg hprefix]
    exact h

/-- Related lists satisfy related predicates throughout. -/
theorem forall_iff_of_forall₂ {R : α → β → Prop} {p : α → Prop} {q : β → Prop} {xs : List α}
    {ys : List β} (h : List.Forall₂ R xs ys) (hpq : ∀ x y, R x y → (p x ↔ q y)) :
    (∀ x ∈ xs, p x) ↔ ∀ y ∈ ys, q y := by
  induction h with
  | nil => simp
  | cons hxy _ ih => rw [List.forall_mem_cons, List.forall_mem_cons, ih, hpq _ _ hxy]

/-- The pieces of a name's bytes are its segments'. -/
theorem encode_pieces {name : Text} {bytes : Bytes} (h : encodeUtf8 name = some bytes) :
    List.Forall₂ (fun part piece => encodeUtf8 part = some piece) (split slash name)
      (bytes.splitOn 47) :=
  splitOn_encodeUtf8 (by decide) (by decide) h

theorem fitsBytes_of_encode {text : Text} {bytes : Bytes} {limit : Nat}
    (h : encodeUtf8 text = some bytes) : FitsBytes limit text ↔ bytes.length ≤ limit := by
  simp [FitsBytes, utf8Length, h]

/-- The checks on the bytes of a canonical name are those on its path. -/
theorem allows_iff_bytes {limits : WorkspaceLimits} {name : Text} {bytes : Bytes}
    (h : encodeUtf8 name = some bytes) :
    limits.Allows (split slash name) ↔
      SandboxPath.ROOT.length + 1 + bytes.length ≤ limits.maxPathBytes ∧
        ∀ piece ∈ bytes.splitOn 47, piece.length ≤ limits.maxSegmentBytes := by
  have hroot : encodeUtf8 (SandboxPath.ROOT ++ py "/") = some (ascii "/workspace/") := by decide
  have hpath : encodeUtf8 (SandboxPath.ROOT ++ py "/" ++ name) =
      some (ascii "/workspace/" ++ bytes) := encodeUtf8_append_eq_some.mpr ⟨_, _, hroot, h, rfl⟩
  have hlength : (ascii "/workspace/" ++ bytes).length =
      SandboxPath.ROOT.length + 1 + bytes.length := List.length_append
  have hsegments : (∀ part ∈ split slash name, FitsBytes limits.maxSegmentBytes part) ↔
      ∀ piece ∈ bytes.splitOn 47, piece.length ≤ limits.maxSegmentBytes :=
    forall_iff_of_forall₂ (encode_pieces h) fun _ _ hpiece => fitsBytes_of_encode hpiece
  rw [allows_iff, ← render_split, fitsBytes_of_encode hpath, hlength, hsegments, and_comm]

/-- The bytes of a canonical name do not end with a separator. -/
theorem not_endsWith_slash {name : Text} {bytes : Bytes} (h : encodeUtf8 name = some bytes)
    (hportable : PortableParts (split slash name)) : ¬ endsWith bytes (ascii "/") = true := by
  intro hends
  have hempty : [] ∈ bytes.splitOn 47 := by
    obtain ⟨front, rfl⟩ := endsWith_iff.mp hends
    show [] ∈ (front ++ 47 :: []).splitOn 47
    rw [List.splitOn_append_cons_self]
    simp
  -- the piece behind the separator is empty, and no segment is
  have hne : ∀ piece ∈ bytes.splitOn 47, piece ≠ [] := by
    rw [← forall_iff_of_forall₂ (p := fun part => part ≠ []) (encode_pieces h)]
    · exact fun part hpart => (hportable.segments part hpart).valid.ne_nil
    · intro part piece hpiece
      rw [ne_eq, ne_eq, encoded_eq_iff hpiece encodeUtf8_nil]
  exact hne [] hempty rfl

/-- For a canonical name in UTF-8, the check on the bytes is the one on the path. -/
theorem precheck_iff {limits : WorkspaceLimits} {value : Bytes} {text : Text}
    {found : Option Text} {u : Unit} (hvalue : encodeUtf8 text = some value)
    (hfound : canonicalMemberName text true = .ok found) :
    precheckEncodedMemberPath value limits = .ok u ↔
      ∀ name ∈ found, limits.Allows (split slash name) := by
  have hroot : (value = ascii "." ∨ value = ascii "./") ↔ (text = py "." ∨ text = py "./") :=
    or_congr (encoded_eq_iff hvalue (by decide)) (encoded_eq_iff hvalue (by decide))
  unfold precheckEncodedMemberPath
  cases found with
  | none =>
    rw [if_pos (hroot.mpr (canonicalMemberName_eq_none.mp hfound))]
    simp
  | some name =>
    obtain ⟨hmarkers, hname⟩ := canonicalMemberName_eq_some.mp hfound
    obtain ⟨hportable, hgiven⟩ := canonicalName_eq_ok.mp hname
    have hencode := encode_withoutMarker hvalue
    rw [if_neg (by rw [hroot, not_or]; exact hmarkers)]
    dsimp only
    generalize (if startsWith value (ascii "./") = true then value.drop 2 else value) = given
      at hencode ⊢
    -- without the separator that may end a directory's name, the bytes of the name are left
    obtain ⟨bytes, hbytes, hcut⟩ : ∃ bytes, encodeUtf8 name = some bytes ∧
        (if endsWith given (ascii "/") = true ∧ ¬ endsWith given (ascii "//") = true then
          given.dropLast else given) = bytes := by
      rcases hgiven with hplain | ⟨-, hseparator⟩
      · rw [hplain] at hencode
        exact ⟨given, hencode, if_neg fun h => not_endsWith_slash hencode hportable h.1⟩
      · rw [hseparator] at hencode
        obtain ⟨bytes, last, hbytes, hlast, rfl⟩ := encodeUtf8_append_eq_some.mp hencode
        obtain rfl : ascii "/" = last := (encoded_eq_iff (by decide) hlast).mpr rfl
        have hsingle : ¬ endsWith (bytes ++ ascii "/") (ascii "//") = true := by
          intro hdouble
          obtain ⟨front, hfront⟩ := endsWith_iff.mp hdouble
          have hpair : (front ++ ascii "/") ++ ascii "/" = bytes ++ ascii "/" := by
            rw [← hfront, List.append_assoc]
            rfl
          exact not_endsWith_slash hbytes hportable
            (endsWith_iff.mpr ⟨front, List.append_cancel_right hpair⟩)
        refine ⟨bytes, hbytes, ?_⟩
        rw [if_pos ⟨endsWith_iff.mpr (List.suffix_append _ _), hsingle⟩]
        exact List.dropLast_concat
    rw [hcut]
    have hname : (∀ name' ∈ some name, limits.Allows (split slash name')) ↔
        limits.Allows (split slash name) := by simp
    rw [hname, allows_iff_bytes hbytes]
    simp only [Except.bind_eq_ok_iff, requireBounded_eq_ok, List.all_eq_true, decide_eq_true_eq]
    exact exists_const _

/-! ## Section 4: The whole payload -/

namespace Assignment

/-- What a framed record sets, when the reader takes it. -/
theorem paxPathOf_eq_ok {limits : WorkspaceLimits} {r : Assignment} {rest : Bytes}
    {found : Option Text} (hframed : r.Framed) :
    paxPathOf ⟨r.key, r.value, rest⟩ limits = .ok found ↔ r.Accepted limits ∧ found = r.path := by
  have haccepted : r.Accepted limits ↔ ∃ key, decodeUtf8 r.key = some key ∧ key ≠ py "size" ∧
      ¬ py "GNU.sparse" <+: key ∧ (key = py "path" → PathValue limits r.value) :=
    ⟨fun h => h.key, fun h => ⟨hframed, h⟩⟩
  rw [haccepted]
  unfold paxPathOf path
  cases hkey : decodeUtf8 r.key with
  | none => simp [corrupt_ne_ok]
  | some key =>
    simp only [Except.bind_eq_ok_iff, requireSound_eq_ok, Option.some.injEq, exists_eq_left',
      ← startsWith_iff, Bool.not_eq_true, exists_const]
    by_cases hpath : key = py "path"
    · -- the value counts: its bytes are checked, then it is decoded, then it has to be a name
      rw [if_pos hpath, if_pos hpath, Except.bind_eq_ok_iff]
      unfold PathValue
      cases hvalue : decodeUtf8 r.value with
      | none => simp [corrupt_ne_ok, hpath]
      | some text =>
        have hencode := encodeUtf8_of_decodeUtf8 hvalue
        simp only [Except.bind_eq_ok_iff, Except.ok.injEq, Option.some.injEq, exists_eq_left', hpath,
          forall_const]
        constructor
        · intro h
          obtain ⟨hkeys, _, hprecheck, name, hname, hfound⟩ := h
          exact ⟨⟨hkeys.1, hkeys.2, name, hname, (precheck_iff hencode hname).mp hprecheck⟩,
            hfound.symm⟩
        · intro h
          obtain ⟨⟨hsize, hsparse, name, hname, hallows⟩, hfound⟩ := h
          exact ⟨⟨hsize, hsparse⟩, (), (precheck_iff hencode hname).mpr hallows, name, hname,
            hfound.symm⟩
    · rw [if_neg hpath, if_neg hpath, Except.ok.injEq]
      simp only [hpath, false_implies, and_true, eq_comm]

end Assignment

/-- A round of the loop: one more record, within the budget, off the front. -/
theorem paxLoop_succ_eq_ok {limits : WorkspaceLimits} {maxRecords fuel : Nat} {payload : Bytes}
    {path : Option Text} {recordCount : Nat} {result : Option Text × Nat} (hne : payload ≠ []) :
    paxLoop limits maxRecords (fuel + 1) payload path recordCount = .ok result ↔
      recordCount + 1 ≤ maxRecords ∧ ∃ (r : Assignment) (rest : Bytes), r.Accepted limits ∧
        payload = r.bytes ++ rest ∧
        paxLoop limits maxRecords fuel rest (r.path <|> path) (recordCount + 1) = .ok result := by
  rw [paxLoop.eq_3 _ _ _ _ _ _ hne]
  simp only [Except.bind_eq_ok_iff, requireBounded_eq_ok, exists_const]
  constructor
  · intro h
    obtain ⟨hbudget, ⟨key, value, rest⟩, hrecord, found, hfound, hloop⟩ := h
    obtain ⟨r, hframed, rfl, rfl, htiles⟩ := paxRecordOf_eq_ok.mp hrecord
    obtain ⟨haccepted, rfl⟩ := (Assignment.paxPathOf_eq_ok hframed).mp hfound
    exact ⟨hbudget, r, rest, haccepted, htiles, hloop⟩
  · intro h
    obtain ⟨hbudget, r, rest, haccepted, htiles, hloop⟩ := h
    exact ⟨hbudget, ⟨r.key, r.value, rest⟩,
      paxRecordOf_eq_ok.mpr ⟨r, haccepted.framed, rfl, rfl, htiles⟩, r.path,
      (Assignment.paxPathOf_eq_ok haccepted.framed).mpr ⟨haccepted, rfl⟩, hloop⟩

theorem flatMap_bytes_eq_nil {records : List Assignment} (h : records.flatMap (·.bytes) = []) :
    records = [] := by
  cases records with
  | nil => rfl
  | cons r records =>
    have hlength := congrArg List.length h
    rw [List.flatMap_cons, List.length_append, r.length_bytes, List.length_nil] at hlength
    omega

/-- At the end of the payload there are no more records. -/
theorem paxLoop_nil_eq_ok {limits : WorkspaceLimits} {maxRecords fuel : Nat}
    {path path' : Option Text} {recordCount recordCount' : Nat} (hcount : recordCount ≤ maxRecords) :
    paxLoop limits maxRecords fuel [] path recordCount = .ok (path', recordCount') ↔
      ∃ records : List Assignment, [] = records.flatMap (·.bytes) ∧
        recordCount + records.length ≤ maxRecords ∧ (∀ r ∈ records, r.Accepted limits) ∧
        path' = (Assignment.lastPath records <|> path) ∧
        recordCount' = recordCount + records.length := by
  have hend : paxLoop limits maxRecords fuel [] path recordCount = .ok (path, recordCount) := by
    cases fuel <;> rfl
  rw [hend, Except.ok.injEq, Prod.mk.injEq]
  constructor
  · intro h
    obtain ⟨rfl, rfl⟩ := h
    exact ⟨[], rfl, hcount, List.forall_mem_nil _, rfl, rfl⟩
  · intro h
    obtain ⟨records, hnil, -, -, rfl, rfl⟩ := h
    obtain rfl := flatMap_bytes_eq_nil hnil.symm
    exact ⟨rfl, rfl⟩

/-- The loop takes the payloads that are a row of records, and no others. -/
theorem paxLoop_eq_ok {limits : WorkspaceLimits} {maxRecords fuel : Nat} {payload : Bytes}
    {path path' : Option Text} {recordCount recordCount' : Nat} (hfuel : payload.length ≤ fuel)
    (hcount : recordCount ≤ maxRecords) :
    paxLoop limits maxRecords fuel payload path recordCount = .ok (path', recordCount') ↔
      ∃ records : List Assignment, payload = records.flatMap (·.bytes) ∧
        recordCount + records.length ≤ maxRecords ∧ (∀ r ∈ records, r.Accepted limits) ∧
        path' = (Assignment.lastPath records <|> path) ∧
        recordCount' = recordCount + records.length := by
  -- on the fuel, of which every record takes at least one
  induction fuel generalizing payload path recordCount with
  | zero =>
    obtain rfl := List.eq_nil_of_length_eq_zero (Nat.le_zero.mp hfuel)
    exact paxLoop_nil_eq_ok hcount
  | succ fuel ih =>
    by_cases hne : payload = []
    · subst hne
      exact paxLoop_nil_eq_ok hcount
    rw [paxLoop_succ_eq_ok hne]
    constructor
    · intro h
      obtain ⟨hbudget, r, rest, haccepted, rfl, hloop⟩ := h
      have hlength := r.length_bytes
      rw [List.length_append] at hfuel
      obtain ⟨records, rfl, hbudget', haccepted', rfl, rfl⟩ := (ih (by omega) hbudget).mp hloop
      refine ⟨r :: records, rfl, ?_, List.forall_mem_cons.mpr ⟨haccepted, haccepted'⟩,
        (Assignment.lastPath_cons r records path).symm, ?_⟩
      · rw [List.length_cons]
        omega
      · rw [List.length_cons]
        omega
    · intro h
      obtain ⟨records, rfl, hbudget, haccepted, rfl, rfl⟩ := h
      cases records with
      | nil => exact absurd rfl hne
      | cons r records =>
        obtain ⟨haccepted, haccepted'⟩ := List.forall_mem_cons.mp haccepted
        have hlength := r.length_bytes
        rw [List.flatMap_cons, List.length_append] at hfuel
        rw [List.length_cons] at hbudget
        refine ⟨by omega, r, records.flatMap (·.bytes), haccepted, rfl, ?_⟩
        rw [ih (by omega) (by omega)]
        refine ⟨records, rfl, by omega, haccepted', Assignment.lastPath_cons r records path, ?_⟩
        rw [List.length_cons]
        omega

theorem paxPathFromPayload_eq_ok {payload : Bytes} {limits : WorkspaceLimits} {maxRecords : Nat}
    {path : Option Text} {recordCount : Nat} :
    paxPathFromPayload payload limits maxRecords = .ok (path, recordCount) ↔
      ∃ records : List Assignment, payload = records.flatMap (·.bytes) ∧
        records.length ≤ maxRecords ∧ (∀ r ∈ records, r.Accepted limits) ∧
        path = Assignment.lastPath records ∧ recordCount = records.length := by
  have hnone : ∀ records, (Assignment.lastPath records <|> none) = Assignment.lastPath records := by
    intro records
    cases Assignment.lastPath records <;> rfl
  unfold paxPathFromPayload
  simp only [paxLoop_eq_ok le_rfl (Nat.zero_le maxRecords), hnone, Nat.zero_add]

/-- The classes of the two errors that the reader raises. -/
def PayloadError (cls : ErrorClass) : Prop :=
  cls = .snapshotCorruptError ∨ cls = .snapshotTooLargeError

theorem admits_payloadError : Admits PayloadError := ⟨.inl rfl, .inr rfl⟩

/-- The reader takes exactly the payloads that are a row of records within the
    budget, reads nothing outside the payload, and reports every other payload
    as corrupt or as too large. -/
theorem paxPathFromPayload_takes_tilings (payload : Bytes) (limits : WorkspaceLimits)
    (maxRecords : Nat) :
    (∀ read ∈ (Cursor.paxPathFromPayload payload limits maxRecords []).2,
      read.Within payload.length) ∧
    (∀ path recordCount,
      (Cursor.paxPathFromPayload payload limits maxRecords []).1 = .ok (path, recordCount) ↔
        ∃ records : List Assignment, payload = records.flatMap (·.bytes) ∧
          records.length ≤ maxRecords ∧ (∀ r ∈ records, r.Accepted limits) ∧
          path = Assignment.lastPath records ∧ recordCount = records.length) ∧
    ∀ e, (Cursor.paxPathFromPayload payload limits maxRecords []).1 = .error e →
      PayloadError e.cls := by
  obtain ⟨hresult, hwithin⟩ := Cursor.reads_paxPathFromPayload payload limits maxRecords []
    (List.forall_mem_nil _)
  rw [hresult]
  refine ⟨hwithin, fun _ _ => paxPathFromPayload_eq_ok, ?_⟩
  exact (raises_paxLoop admits_payloadError le_rfl none 0).of_error

/-- Two records, of which the second sets the path. -/
example : (Cursor.paxPathFromPayload (ascii "6 k=v\n10 path=a\n") .default 2 []).1 =
    .ok (some (py "a"), 2) := by
  decide +kernel

/-! ## Section 5: The budget of the scan -/

/-- The scan counts no more records than there may be nodes, so what it leaves
    to the next payload is never negative. -/
theorem paxRecordCount_le {limits : WorkspaceLimits} {header payload : Bytes} {info : TarInfo}
    {s next : ScanState} (h : s.paxRecordCount ≤ limits.maxNodes)
    (hnext : scanBlock limits header payload info s = .ok next) :
    next.paxRecordCount ≤ limits.maxNodes := by
  have hcount : ∀ path recordCount,
      paxPathFromPayload payload limits (limits.maxNodes - s.paxRecordCount) =
        .ok (path, recordCount) → s.paxRecordCount + recordCount ≤ limits.maxNodes := by
    intro path recordCount hread
    obtain ⟨records, -, hbudget, -, -, rfl⟩ := paxPathFromPayload_eq_ok.mp hread
    omega
  unfold scanBlock at hnext
  split at hnext
  · obtain ⟨-, -, ⟨path, recordCount⟩, hread, hnext⟩ := by
      simpa only [scanLocalPax, Except.bind_eq_ok_iff] using hnext
    obtain rfl := Except.ok.inj hnext
    exact hcount path recordCount hread
  split at hnext
  · obtain ⟨-, -, -, -, ⟨path, recordCount⟩, hread, -, -, hnext⟩ := by
      simpa only [scanGlobalPax, Except.bind_eq_ok_iff] using hnext
    obtain rfl := Except.ok.inj hnext
    exact hcount path recordCount hread
  split at hnext
  · exact absurd hnext corrupt_ne_ok
  · simp only [scanMember, Except.bind_eq_ok_iff, Except.ok.injEq] at hnext
    obtain ⟨-, -, -, -, -, -, -, -, rfl⟩ := hnext
    exact h

end PortableWorkspaceArchiveCodec
