import MemSandbox.Workspace.ArchiveScan
import MemSandbox.Lib.Reading

/-! # The positions of the PAX reader

    `_pax_path_from_payload` and `_precheck_encoded_member_path` of
    `workspace/archive_codec.py` as they are written: with a cursor into the
    payload, and every index and slice a read of the payload.  The reader of
    `ArchiveScan` takes records off the front of what is left; here it is shown
    to be the same reader, and its reads to stay inside the payload. -/

open Python Tar Reading

namespace PortableWorkspaceArchiveCodec

/-! ## Section 1: The reader with its cursor -/

namespace Cursor

/-- `payload[i]`. -/
def byteAt (payload : Bytes) (i : Int) : Reading PyError Byte :=
  item payload ⟨.indexError, py "index out of range"⟩ i

/-- `payload[i] == b`. -/
def byteIs (payload : Bytes) (i : Int) (b : Byte) : Reading PyError Bool := do
  return (← byteAt payload i) = b

/-- `payload[start : start + 2] == pair`. -/
def pairIs (payload : Bytes) (start : Int) (pair : Bytes) : Reading PyError Bool := do
  return (← extract payload start (start + 2)) = pair

/-- The two spellings of the root marker. -/
def isRootMarker (payload : Bytes) (start stop : Int) : Reading PyError Bool := do
  let dot ← andThen (stop - start = 1) (byteIs payload start 46)
  if dot then
    pure true
  else
    andThen (stop - start = 2) (pairIs payload start (ascii "./"))

/-- The marker of the current directory in front. -/
def hasMarker (payload : Bytes) (start stop : Int) : Reading PyError Bool :=
  andThen (2 ≤ stop - start) (pairIs payload start (ascii "./"))

/-- A single separator at the end. -/
def hasSeparator (payload : Bytes) (start stop : Int) : Reading PyError Bool :=
  andThen (start < stop) (do
    let last ← byteIs payload (stop - 1) 47
    andThen last (orElse (stop - start < 2) (do return !(← byteIs payload (stop - 2) 47))))

/-- `for index in range(start, end)`, with `remaining` bytes to go. -/
def segmentLoop (payload : Bytes) (limits : WorkspaceLimits) :
    Nat → Int → Nat → Reading PyError Unit
  | 0, _, segmentBytes =>
    requireBounded (segmentBytes ≤ limits.maxSegmentBytes) (segmentMessage limits)
  | remaining + 1, index, segmentBytes => do
    let b ← byteAt payload index
    if b = 47 then do
      requireBounded (segmentBytes ≤ limits.maxSegmentBytes) (segmentMessage limits)
      segmentLoop payload limits remaining (index + 1) 0
    else
      segmentLoop payload limits remaining (index + 1) (segmentBytes + 1)

/-- What `_precheck_encoded_member_path` does once both ends are cut. -/
def requireLimits (payload : Bytes) (start stop : Int) (limits : WorkspaceLimits) :
    Reading PyError Unit := do
  requireBounded (SandboxPath.ROOT.length + 1 + (stop - start) ≤ limits.maxPathBytes)
    (pathMessage limits)
  segmentLoop payload limits (stop - start).toNat start 0

/-- `_precheck_encoded_member_path`. -/
def precheckEncodedMemberPath (payload : Bytes) (start stop : Int) (limits : WorkspaceLimits) :
    Reading PyError Unit := do
  let root ← isRootMarker payload start stop
  if root then
    pure ()
  else do
    let marker ← hasMarker payload start stop
    let start := if marker then start + 2 else start
    let separator ← hasSeparator payload start stop
    let stop := if separator then stop - 1 else stop
    requireLimits payload start stop limits

/-- The path that a record sets, its value between two positions. -/
def pathOf (payload key : Bytes) (valueStart valueEnd : Int) (limits : WorkspaceLimits) :
    Reading PyError (Option Text) :=
  match decodeUtf8 key with
  | none => liftM (corrupt (α := Option Text) (py "archive PAX key must be valid UTF-8"))
  | some key => do
    requireSound (key ≠ py "size" ∧ startsWith key (py "GNU.sparse") = false)
      (py "archive PAX metadata changes unsupported payload semantics: " ++ key)
    if key = py "path" then do
      precheckEncodedMemberPath payload valueStart valueEnd limits
      let encoded ← extract payload valueStart valueEnd
      match decodeUtf8 encoded with
      | none => liftM (corrupt (α := Option Text) (py "archive PAX path must be valid UTF-8"))
      | some value => do
        let _ ← liftM (canonicalMemberName value true)
        pure (some value)
    else
      pure none

/-- One round of the loop of `_pax_path_from_payload`: where the record ends,
    and the path that it sets. -/
def recordAt (payload : Bytes) (limits : WorkspaceLimits) (cursor : Int) :
    Reading PyError (Int × Option Text) := do
  let separator ← find payload 32 cursor payload.length
  requireSound (0 ≤ separator) (py "archive PAX record is missing its length separator")
  let lengthText ← extract payload cursor separator
  let recordLength ← liftM (paxLength lengthText)
  let recordEnd := cursor + recordLength
  requireSound (separator + 1 < recordEnd ∧ recordEnd ≤ payload.length)
    (py "archive PAX record length exceeds its payload")
  let last ← byteAt payload (recordEnd - 1)
  requireSound (last = 10) (py "archive PAX record is not newline terminated")
  let equals ← find payload 61 (separator + 1) (recordEnd - 1)
  requireSound (separator + 1 < equals) (py "archive PAX record is not a key-value assignment")
  let key ← extract payload (separator + 1) equals
  let found ← pathOf payload key (equals + 1) (recordEnd - 1) limits
  pure (recordEnd, found)

/-- The loop of `_pax_path_from_payload`; it makes at most `len(payload)` rounds. -/
def loop (payload : Bytes) (limits : WorkspaceLimits) (maxRecords : Nat) :
    Nat → Int → Option Text → Nat → Reading PyError (Option Text × Nat)
  | 0, cursor, path, recordCount =>
    if cursor < payload.length then
      liftM (raise (α := Option Text × Nat) .runtimeError (py "unreachable"))
    else
      pure (path, recordCount)
  | rounds + 1, cursor, path, recordCount =>
    if cursor < payload.length then do
      requireBounded (recordCount + 1 ≤ maxRecords)
        (py "archive contains more than " ++ Text.ofNat limits.maxNodes ++ py " PAX records")
      let (recordEnd, found) ← recordAt payload limits cursor
      loop payload limits maxRecords rounds recordEnd (found <|> path) (recordCount + 1)
    else
      pure (path, recordCount)

/-- `_pax_path_from_payload`. -/
def paxPathFromPayload (payload : Bytes) (limits : WorkspaceLimits) (maxRecords : Nat) :
    Reading PyError (Option Text × Nat) :=
  loop payload limits maxRecords payload.length 0 none 0

/-! ## Section 2: A value between two positions -/

section

variable {payload : Bytes} {start stop : Nat}

theorem reads_byteAt {i : Nat} {b : Byte} (h : payload[i]? = some b) :
    Reads payload.length (byteAt payload (i : Int)) (.ok b) := reads_item h

theorem reads_byteIs {i : Nat} {b : Byte} (h : payload[i]? = some b) (c : Byte) :
    Reads payload.length (byteIs payload (i : Int) c) (.ok (decide (b = c))) :=
  (reads_byteAt h).bind (reads_pure _)

theorem reads_pairIs (hlen : start + 2 ≤ stop) (hstop : stop ≤ payload.length) (pair : Bytes) :
    Reads payload.length (pairIs payload (start : Int) pair)
      (.ok (decide ((between payload start stop).take 2 = pair))) := by
  have hread : Reads payload.length
      (extract payload (start : Int) ((start + 2 : Nat) : Int) : Reading PyError Bytes)
      (.ok (between payload start (start + 2))) := reads_extract (by omega) (by omega)
  rw [take_between hlen]
  exact hread.bind (reads_pure _)

theorem exists_byte {i : Nat} (h : i < payload.length) : ∃ b, payload[i]? = some b :=
  ⟨payload[i], List.getElem?_eq_getElem h⟩

theorem reads_isRootMarker (hle : start ≤ stop) (hstop : stop ≤ payload.length) :
    Reads payload.length (isRootMarker payload start stop)
      (.ok (decide (between payload start stop = ascii "." ∨
        between payload start stop = ascii "./"))) := by
  have hlength : (between payload start stop).length = stop - start := length_between hstop
  have hdot : Reads payload.length (andThen ((stop : Int) - start = 1) (byteIs payload start 46))
      (.ok (decide (between payload start stop = ascii "."))) := by
    apply reads_andThen
    · intro hone
      obtain ⟨b, hb⟩ : ∃ b, payload[start]? = some b := exists_byte (by omega)
      have hvalue : between payload start stop = [b] := by
        rw [between_cons hb (by omega), between_of_le (by omega)]
      have hread := reads_byteIs hb 46
      rw [hvalue]
      simpa [ascii] using hread
    · intro hone
      apply decide_eq_false
      intro hvalue
      rw [hvalue] at hlength
      have : (ascii ".").length = 1 := rfl
      omega
  have hpair : Reads payload.length
      (andThen ((stop : Int) - start = 2) (pairIs payload start (ascii "./")))
      (.ok (decide (between payload start stop = ascii "./"))) := by
    apply reads_andThen
    · intro htwo
      have hread : Reads payload.length (pairIs payload start (ascii "./")) _ :=
        reads_pairIs (by omega) hstop _
      rwa [List.take_of_length_le (by omega)] at hread
    · intro htwo
      apply decide_eq_false
      intro hvalue
      rw [hvalue] at hlength
      have : (ascii "./").length = 2 := rfl
      omega
  unfold isRootMarker
  apply hdot.bind
  by_cases hvalue : between payload start stop = ascii "."
  · rw [decide_eq_true hvalue, if_pos rfl, decide_eq_true (Or.inl hvalue)]
    exact reads_pure true
  · simp only [hvalue, decide_false, Bool.false_eq_true, if_false, false_or]
    exact hpair

theorem reads_hasMarker (hle : start ≤ stop) (hstop : stop ≤ payload.length) :
    Reads payload.length (hasMarker payload start stop)
      (.ok (startsWith (between payload start stop) (ascii "./"))) := by
  have hlength : (between payload start stop).length = stop - start := length_between hstop
  have hstarts : startsWith (between payload start stop) (ascii "./") =
      decide ((between payload start stop).take 2 = ascii "./") := by
    rw [Bool.eq_iff_iff, startsWith_iff, decide_eq_true_iff, List.prefix_iff_eq_take, eq_comm]
    rfl
  rw [hstarts]
  apply reads_andThen
  · intro htwo
    exact reads_pairIs (by omega) hstop _
  · intro htwo
    apply decide_eq_false
    intro htake
    have hshort := congrArg List.length htake
    rw [List.length_take, hlength] at hshort
    have : (ascii "./").length = 2 := rfl
    omega

/-- The last byte of a value, and what is before it. -/
theorem between_concat {b : Byte} (h : payload[stop - 1]? = some b) (hlt : start < stop) :
    between payload start stop = between payload start (stop - 1) ++ [b] := by
  have hposition : start + (stop - 1 - start) = stop - 1 := by omega
  have hnil : between payload (stop - 1 + 1) stop = [] := between_of_le (by omega)
  have hlast : (between payload start stop).drop (stop - 1 - start) = [b] := by
    rw [drop_between, hposition, between_cons h (by omega), hnil]
  have hfront : (between payload start stop).take (stop - 1 - start) =
      between payload start (stop - 1) := by
    rw [take_between (by omega), hposition]
  rw [← hlast, ← hfront, List.take_append_drop]

theorem endsWith_concat (front : Bytes) (b : Byte) :
    endsWith (front ++ [b]) (ascii "/") = decide (b = 47) := by
  rw [Bool.eq_iff_iff, endsWith_iff, decide_eq_true_iff]
  constructor
  · intro h
    obtain ⟨front', heq⟩ := h
    exact (List.cons.inj (List.append_inj_right' heq rfl)).1.symm
  · intro h
    exact ⟨front, by rw [h]; rfl⟩

theorem endsWith_concat_concat (front : Bytes) (b c : Byte) :
    endsWith (front ++ [b] ++ [c]) (ascii "//") = (decide (b = 47) && decide (c = 47)) := by
  rw [Bool.eq_iff_iff, endsWith_iff, Bool.and_eq_true, decide_eq_true_iff, decide_eq_true_iff]
  constructor
  · intro h
    obtain ⟨front', heq⟩ := h
    rw [List.append_assoc] at heq
    have hpair := List.append_inj_right' heq rfl
    exact ⟨(List.cons.inj hpair).1.symm, (List.cons.inj (List.cons.inj hpair).2).1.symm⟩
  · intro h
    exact ⟨front, by rw [h.1, h.2, List.append_assoc]; rfl⟩

theorem reads_hasSeparator (hle : start ≤ stop) (hstop : stop ≤ payload.length) :
    Reads payload.length (hasSeparator payload start stop)
      (.ok (decide (endsWith (between payload start stop) (ascii "/") ∧
        ¬ endsWith (between payload start stop) (ascii "//")))) := by
  apply reads_andThen
  · intro hlt
    have hlt : start < stop := by omega
    obtain ⟨last, hlast⟩ : ∃ b, payload[stop - 1]? = some b := exists_byte (by omega)
    have hread := reads_byteIs hlast 47
    rw [Nat.cast_sub (by omega), Nat.cast_one] at hread
    apply hread.bind
    rw [between_concat hlast hlt, endsWith_concat]
    apply reads_andThen
    · intro hslash
      rw [decide_eq_true_iff] at hslash
      subst hslash
      apply reads_orElse
      · intro htwo
        obtain ⟨before, hbefore⟩ : ∃ b, payload[stop - 1 - 1]? = some b := exists_byte (by omega)
        have hread := reads_byteIs hbefore 47
        rw [show ((stop - 1 - 1 : Nat) : Int) = stop - 2 by omega] at hread
        apply hread.bind
        rw [between_concat hbefore (by omega), endsWith_concat_concat]
        simpa using reads_pure (!decide (before = 47))
      · intro hone
        rw [between_of_le (by omega)]
        decide
    · intro hslash
      simp [hslash]
  · intro hlt
    rw [between_of_le (by omega)]
    decide

theorem requireBounded_congr {condition condition' : Prop} [Decidable condition]
    [Decidable condition'] (h : condition ↔ condition') (message : Text) :
    requireBounded condition message = requireBounded condition' message := by
  simp only [requireBounded, require, h]

theorem requireSound_congr {condition condition' : Prop} [Decidable condition]
    [Decidable condition'] (h : condition ↔ condition') (message : Text) :
    requireSound condition message = requireSound condition' message := by
  simp only [requireSound, require, h]

/-- Two bounds with one message are one. -/
theorem requireBounded_and {condition condition' : Prop} [Decidable condition]
    [Decidable condition'] (message : Text) :
    (requireBounded condition message >>= fun _ => requireBounded condition' message) =
      requireBounded (condition ∧ condition') message := by
  by_cases h : condition
  · rw [requireBounded_congr (and_iff_right h)]
    simp only [requireBounded, require, if_pos h]
    rfl
  · simp only [requireBounded, require, if_neg h, if_neg (fun hand : condition ∧ condition' =>
      h hand.1)]
    rfl

/-- The loop adds up the pieces of what is left; the first has `segmentBytes` behind it. -/
theorem reads_segmentLoop {limits : WorkspaceLimits} {remaining segmentBytes : Nat}
    {head : Bytes} {tail : List Bytes} (hstop : start + remaining ≤ payload.length)
    (hpieces : (between payload start (start + remaining)).splitOn 47 = head :: tail) :
    Reads payload.length (segmentLoop payload limits remaining start segmentBytes)
      (requireBounded (segmentBytes + head.length ≤ limits.maxSegmentBytes ∧
        ∀ piece ∈ tail, piece.length ≤ limits.maxSegmentBytes) (segmentMessage limits)) := by
  induction remaining generalizing start segmentBytes head tail with
  | zero =>
    rw [between_of_le (by omega), List.splitOn_nil] at hpieces
    obtain ⟨rfl, rfl⟩ := List.cons.inj hpieces
    have hlast : segmentBytes + (0 : Nat) ≤ limits.maxSegmentBytes ∧
        (∀ piece ∈ ([] : List Bytes), piece.length ≤ limits.maxSegmentBytes) ↔
          segmentBytes ≤ limits.maxSegmentBytes := by
      simp
    rw [List.length_nil, requireBounded_congr hlast]
    exact reads_lift _
  | succ remaining ih =>
    obtain ⟨b, hb⟩ : ∃ b, payload[start]? = some b := exists_byte (by omega)
    obtain ⟨head', tail', hrest⟩ := List.exists_cons_of_ne_nil
      (List.splitOn_ne_nil 47 (between payload (start + 1) (start + (remaining + 1))))
    rw [show start + (remaining + 1) = start + 1 + remaining by omega] at hpieces hrest
    rw [between_cons hb (by omega), List.splitOn_cons_eq_if_modifyHead, hrest] at hpieces
    have hloop : ∀ k, Reads payload.length
        (segmentLoop payload limits remaining ((start : Int) + 1) k)
        (requireBounded (k + head'.length ≤ limits.maxSegmentBytes ∧
          ∀ piece ∈ tail', piece.length ≤ limits.maxSegmentBytes) (segmentMessage limits)) :=
      fun k => @ih (start + 1) k head' tail' (by omega) hrest
    apply (reads_byteAt hb).bind
    by_cases hslash : b = 47
    · -- a separator ends the piece, whose length is known now
      subst hslash
      simp only [beq_self_eq_true, if_true] at hpieces
      obtain ⟨rfl, rfl⟩ := List.cons.inj hpieces
      have hsplit : segmentBytes + (0 : Nat) ≤ limits.maxSegmentBytes ∧
          (∀ piece ∈ head' :: tail', piece.length ≤ limits.maxSegmentBytes) ↔
            segmentBytes ≤ limits.maxSegmentBytes ∧
              0 + head'.length ≤ limits.maxSegmentBytes ∧
                ∀ piece ∈ tail', piece.length ≤ limits.maxSegmentBytes := by
        simp
      rw [List.length_nil, requireBounded_congr hsplit, ← requireBounded_and, if_pos rfl]
      exact (reads_lift _).seq fun _ _ => hloop 0
    · -- the piece goes on
      simp only [beq_iff_eq, hslash, if_false, List.modifyHead_cons] at hpieces
      obtain ⟨rfl, rfl⟩ := List.cons.inj hpieces
      have hlonger : segmentBytes + (b :: head').length = segmentBytes + 1 + head'.length := by
        rw [List.length_cons]
        omega
      rw [if_neg hslash, hlonger]
      exact hloop (segmentBytes + 1)

theorem reads_requireLimits {limits : WorkspaceLimits} (hle : start ≤ stop)
    (hstop : stop ≤ payload.length) :
    Reads payload.length (requireLimits payload start stop limits) (do
      requireBounded (SandboxPath.ROOT.length + 1 + (between payload start stop).length ≤
        limits.maxPathBytes) (pathMessage limits)
      requireBounded (((between payload start stop).splitOn (47 : Byte)).all
        (·.length ≤ limits.maxSegmentBytes)) (segmentMessage limits)) := by
  obtain ⟨remaining, rfl⟩ := Nat.exists_eq_add_of_le hle
  obtain ⟨head, tail, hpieces⟩ := List.exists_cons_of_ne_nil
    (List.splitOn_ne_nil (47 : Byte) (between payload start (start + remaining)))
  have hlength : (between payload start (start + remaining)).length = remaining := by
    rw [length_between hstop, Nat.add_sub_cancel_left]
  have hdiff : ((start + remaining : Nat) : Int) - start = remaining := by omega
  have hpath : ((SandboxPath.ROOT.length : Int) + 1 + remaining ≤ limits.maxPathBytes) ↔
      SandboxPath.ROOT.length + 1 + remaining ≤ limits.maxPathBytes := by omega
  have hall : (head :: tail).all (·.length ≤ limits.maxSegmentBytes) = true ↔
      0 + head.length ≤ limits.maxSegmentBytes ∧
        ∀ piece ∈ tail, piece.length ≤ limits.maxSegmentBytes := by simp
  unfold requireLimits
  rw [hdiff, hlength, hpieces, Int.toNat_natCast, requireBounded_congr hpath,
    requireBounded_congr hall]
  exact (reads_lift _).seq fun _ _ => reads_segmentLoop hstop hpieces

/-- The check of a value is the one on its bytes. -/
theorem reads_precheckEncodedMemberPath (hle : start ≤ stop) (hstop : stop ≤ payload.length)
    (limits : WorkspaceLimits) :
    Reads payload.length (precheckEncodedMemberPath payload start stop limits)
      (PortableWorkspaceArchiveCodec.precheckEncodedMemberPath (between payload start stop)
        limits) := by
  unfold precheckEncodedMemberPath PortableWorkspaceArchiveCodec.precheckEncodedMemberPath
  apply (reads_isRootMarker hle hstop).bind
  by_cases hroot : between payload start stop = ascii "." ∨ between payload start stop = ascii "./"
  · rw [decide_eq_true hroot, if_pos rfl, if_pos hroot]
    exact reads_pure ()
  rw [decide_eq_false hroot, if_neg Bool.false_ne_true, if_neg hroot]
  apply (reads_hasMarker hle hstop).bind
  -- the value without the marker in front is again a value between two positions
  obtain ⟨start', hstart, hle', hvalue⟩ : ∃ start' : Nat,
      (if startsWith (between payload start stop) (ascii "./") = true then (start : Int) + 2
        else start) = (start' : Int) ∧ start' ≤ stop ∧
      (if startsWith (between payload start stop) (ascii "./") = true then
        (between payload start stop).drop 2 else between payload start stop) =
          between payload start' stop := by
    by_cases hmarker : startsWith (between payload start stop) (ascii "./") = true
    · have hlength := (startsWith_iff.mp hmarker).length_le
      rw [length_between hstop] at hlength
      have htwo : (ascii "./").length = 2 := rfl
      refine ⟨start + 2, ?_, by omega, ?_⟩
      · rw [if_pos hmarker]
        rfl
      · rw [if_pos hmarker, drop_between]
    · exact ⟨start, if_neg hmarker, hle, if_neg hmarker⟩
  simp only [hstart, hvalue]
  apply (reads_hasSeparator hle' hstop).bind
  by_cases hseparator : endsWith (between payload start' stop) (ascii "/") = true ∧
      ¬ endsWith (between payload start' stop) (ascii "//") = true
  · have hlt : start' < stop := by
      rcases Nat.eq_or_lt_of_le hle' with heq | hlt
      · rw [between_of_le (by omega)] at hseparator
        exact absurd hseparator.1 (by decide)
      · exact hlt
    obtain ⟨last, hlast⟩ : ∃ b, payload[stop - 1]? = some b := exists_byte (by omega)
    have hdrop : (between payload start' stop).dropLast = between payload start' (stop - 1) := by
      rw [between_concat hlast hlt, List.dropLast_concat]
    have hstop' : (stop : Int) - 1 = ((stop - 1 : Nat) : Int) := by omega
    rw [decide_eq_true hseparator, if_pos rfl, if_pos hseparator, hdrop, hstop']
    exact reads_requireLimits (by omega) (by omega)
  · rw [decide_eq_false hseparator, if_neg Bool.false_ne_true, if_neg hseparator]
    exact reads_requireLimits hle' hstop

theorem reads_pathOf (hle : start ≤ stop) (hstop : stop ≤ payload.length)
    (limits : WorkspaceLimits) (key rest : Bytes) :
    Reads payload.length (pathOf payload key start stop limits)
      (paxPathOf ⟨key, between payload start stop, rest⟩ limits) := by
  unfold pathOf paxPathOf
  cases decodeUtf8 key with
  | none => exact reads_lift _
  | some key =>
    apply (reads_lift _).seq
    intro _ _
    apply reads_ite
    · intro _
      apply (reads_precheckEncodedMemberPath hle hstop limits).seq
      intro _ _
      apply (reads_extract hle hstop).bind
      cases decodeUtf8 (between payload start stop) with
      | none => exact reads_lift _
      | some value => exact (reads_lift _).seq fun _ _ => reads_pure _
    · exact fun _ => reads_pure none

end

/-! ## Section 3: The same reader -/

section

variable {payload : Bytes}

/-- A search that has to succeed, and the position that the rest goes on from. -/
theorem reads_found {b : Byte} {start stop : Nat} {body : Bytes} {p : Int → Prop}
    [DecidablePred p] {condition : Prop} [Decidable condition] {message : Text}
    {f : Int → Reading PyError α} {g : Unit → Except PyError α}
    (hbody : between payload start stop = body) (hle : start ≤ stop) (hstop : stop ≤ payload.length)
    (hno : ¬ p (-1))
    (hcondition : b ∈ body ∧ p ((start + body.idxOf b : Nat) : Int) ↔ condition)
    (hf : condition → Reads payload.length (f ((start + body.idxOf b : Nat) : Int)) (g ())) :
    Reads payload.length
      (find payload b (start : Int) (stop : Int) >>= fun found =>
        liftM (requireSound (p found) message) >>= fun _ => f found)
      (requireSound condition message >>= g) := by
  apply (reads_find hle hstop).bind
  rw [hbody]
  have hfound : p (if b ∈ body then ((start + body.idxOf b : Nat) : Int) else -1) ↔ condition := by
    rw [← hcondition]
    by_cases hmem : b ∈ body
    · rw [if_pos hmem, and_iff_right hmem]
    · rw [if_neg hmem]
      exact ⟨fun h => absurd h hno, fun h => absurd h.1 hmem⟩
  rw [requireSound_congr hfound]
  apply (reads_lift _).seq
  intro _ hok
  have hholds := requireSound_eq_ok.mp hok
  rw [if_pos (hcondition.mpr hholds).1]
  exact hf hholds

/-- A round takes the record that the rest of the payload starts with. -/
theorem reads_recordAt {limits : WorkspaceLimits} {cursor : Nat} (hcursor : cursor ≤ payload.length) :
    Reads payload.length (recordAt payload limits cursor) (do
      let record ← paxRecordOf (payload.drop cursor)
      let found ← paxPathOf record limits
      .ok (((payload.length - record.rest.length : Nat) : Int), found)) := by
  generalize hrest : payload.drop cursor = rest
  have hlength : rest.length = payload.length - cursor := by rw [← hrest, List.length_drop]
  have hall : between payload cursor payload.length = rest := by
    rw [between, hrest, List.take_of_length_le (by omega)]
  have hpart : ∀ i j, between rest i j = between payload (cursor + i) (cursor + j) := by
    intro i j
    rw [← hrest, between_drop]
  unfold recordAt
  simp only [paxRecordOf, bind_assoc]
  -- the digits, up to the separator
  refine reads_found (p := fun found => 0 ≤ found) hall hcursor le_rfl (by omega) ?_ ?_
  · rw [List.idxOf_lt_length_iff]
    exact and_iff_left (by omega)
  intro hseparator
  generalize rest.idxOf 32 = separator at hseparator ⊢
  have htext : between payload cursor (cursor + separator) = rest.take separator := by
    rw [← hrest, between, Nat.add_sub_cancel_left]
  apply (reads_extract (by omega) (by omega)).bind
  rw [htext]
  apply (reads_lift _).seq
  intro recordLength _
  have hextent : ((cursor + separator : Nat) : Int) + 1 < (cursor : Int) + recordLength ∧
      (cursor : Int) + recordLength ≤ payload.length ↔
        separator + 1 < recordLength ∧ recordLength ≤ rest.length := by omega
  rw [requireSound_congr hextent]
  apply (reads_lift _).seq
  intro _ hok
  obtain ⟨hlower, hupper⟩ := requireSound_eq_ok.mp hok
  -- the line feed that ends the record
  obtain ⟨last, hlast⟩ : ∃ b, payload[cursor + recordLength - 1]? = some b :=
    exists_byte (by omega)
  have hlast' : rest[recordLength - 1]? = some last := by
    rw [← hrest, List.getElem?_drop, ← hlast, Nat.add_sub_assoc (by omega)]
  have hend : (cursor : Int) + recordLength - 1 = ((cursor + recordLength - 1 : Nat) : Int) := by
    omega
  rw [hend, hlast', requireSound_congr Option.some_inj]
  apply (reads_byteAt hlast).bind
  apply (reads_lift _).seq
  intro _ _
  -- the assignment between the two
  have hbody : between payload (cursor + separator + 1) (cursor + recordLength - 1) =
      Tar.slice rest (separator + 1) (recordLength - 1) := by
    show _ = between rest (separator + 1) (recordLength - 1)
    rw [hpart, Nat.add_assoc, Nat.add_sub_assoc (by omega)]
  have hbodylength : (between payload (cursor + separator + 1)
      (cursor + recordLength - 1)).length = _ := length_between (by omega)
  rw [hbody] at hbodylength
  generalize Tar.slice rest (separator + 1) (recordLength - 1) = body at hbody hbodylength ⊢
  rw [show ((cursor + separator : Nat) : Int) + 1 = ((cursor + separator + 1 : Nat) : Int) from rfl]
  refine reads_found (p := fun found => ((cursor + separator + 1 : Nat) : Int) < found) hbody
    (by omega) (by omega) (by omega) ?_ ?_
  · rw [← List.idxOf_lt_length_iff]
    omega
  intro hequals
  generalize body.idxOf 61 = equals at hequals ⊢
  have hkey : between payload (cursor + separator + 1) (cursor + separator + 1 + equals) =
      body.take equals := by
    rw [← hbody, take_between (by omega)]
  have hvalue : between payload (cursor + separator + 1 + equals + 1)
      (cursor + recordLength - 1) = body.drop (equals + 1) := by
    rw [← hbody, drop_between, Nat.add_assoc _ equals]
  rw [show ((cursor + separator + 1 + equals : Nat) : Int) + 1 =
    ((cursor + separator + 1 + equals + 1 : Nat) : Int) from rfl]
  apply (reads_extract (by omega) (by omega)).bind
  rw [hkey, ← hvalue]
  apply (reads_pathOf (by omega) (by omega) limits _ _).seq
  intro found _
  have hnext : payload.length - (rest.drop recordLength).length = cursor + recordLength := by
    rw [List.length_drop]
    omega
  rw [hnext]
  exact reads_pure _

theorem rest_suffix {rest : Bytes} {record : PaxRecord} (h : paxRecordOf rest = .ok record) :
    record.rest <:+ rest := by
  simp only [paxRecordOf, Except.bind_eq_ok_iff, requireSound_eq_ok, Except.ok.injEq] at h
  obtain ⟨-, -, recordLength, -, -, -, -, -, -, -, rfl⟩ := h
  exact List.drop_suffix _ _

theorem reads_loop {limits : WorkspaceLimits} {maxRecords : Nat} (rounds : Nat) {cursor : Nat}
    (hcursor : cursor ≤ payload.length) (path : Option Text) (recordCount : Nat) :
    Reads payload.length (loop payload limits maxRecords rounds cursor path recordCount)
      (paxLoop limits maxRecords rounds (payload.drop cursor) path recordCount) := by
  induction rounds generalizing cursor path recordCount with
  | zero =>
    cases hrest : payload.drop cursor with
    | nil =>
      rw [List.drop_eq_nil_iff] at hrest
      rw [loop, if_neg (by omega)]
      exact reads_pure _
    | cons b rest =>
      have hlt := congrArg List.length hrest
      rw [List.length_drop, List.length_cons] at hlt
      rw [loop, if_pos (by omega)]
      exact reads_lift _
  | succ rounds ih =>
    cases hrest : payload.drop cursor with
    | nil =>
      rw [List.drop_eq_nil_iff] at hrest
      rw [loop, if_neg (by omega)]
      exact reads_pure _
    | cons b rest =>
      have hlt := congrArg List.length hrest
      rw [List.length_drop, List.length_cons] at hlt
      have hround : Reads payload.length (recordAt payload limits cursor) _ :=
        reads_recordAt hcursor
      rw [hrest] at hround
      have hsuffix : b :: rest <:+ payload := hrest ▸ List.drop_suffix cursor payload
      rw [loop, if_pos (by omega), paxLoop.eq_3 _ _ _ _ _ _ (List.cons_ne_nil b rest)]
      apply (reads_lift _).seq
      intro _ _
      cases hrecord : paxRecordOf (b :: rest) with
      | error e =>
        rw [hrecord] at hround
        exact hround.seq (g := fun _ => .error e) fun _ hok => nomatch hok
      | ok record =>
        rw [hrecord] at hround
        change Reads _ _ (do
          let found ← paxPathOf record limits
          .ok (((payload.length - record.rest.length : Nat) : Int), found)) at hround
        show Reads _ _ (do
          let found ← paxPathOf record limits
          paxLoop limits maxRecords rounds record.rest (found <|> path) (recordCount + 1))
        cases hfound : paxPathOf record limits with
        | error e =>
          rw [hfound] at hround
          exact hround.seq (g := fun _ => .error e) fun _ hok => nomatch hok
        | ok found =>
          rw [hfound] at hround
          have hdrop := List.suffix_iff_eq_drop.mp ((rest_suffix hrecord).trans hsuffix)
          have hnext := ih (Nat.sub_le payload.length record.rest.length) (found <|> path)
            (recordCount + 1)
          rw [← hdrop] at hnext
          exact Reads.bind hround hnext

/-- The reader with the cursor is the one that takes records off the front, and
    it reads inside the payload only. -/
theorem reads_paxPathFromPayload (payload : Bytes) (limits : WorkspaceLimits) (maxRecords : Nat) :
    Reads payload.length (paxPathFromPayload payload limits maxRecords)
      (PortableWorkspaceArchiveCodec.paxPathFromPayload payload limits maxRecords) :=
  reads_loop payload.length (Nat.zero_le _) none 0

end

end Cursor

end PortableWorkspaceArchiveCodec
