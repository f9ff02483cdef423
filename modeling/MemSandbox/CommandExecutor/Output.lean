import MemSandbox.Core.Errors
import MemSandbox.Lib.Utf8

/-! # Bounded output

    `command_executor/output.py`: the retained prefix of a stream, cut
    between two code points.  `Collected` is what the flags and the counters of
    a collector say about the texts appended so far; the result of a run of
    appends is the bounded form of their concatenation (`appendAll_result`). -/

open Python

/-! ## Section 1: The collector -/

/-- A retained UTF-8 prefix and observable original size. -/
structure BoundedText where
  text : Text
  originalBytes : Nat
  truncated : Bool
  deriving DecidableEq

/-- `error.start` of the `UnicodeDecodeError` of these bytes, or their length
    without one: the end of the longest prefix that decodes. -/
def decodableLength (bytes : Bytes) : Nat :=
  Nat.findGreatest (fun n => (decodeUtf8 (bytes.take n)).isSome) bytes.length

/-- `BoundedOutputCollector`. -/
structure BoundedOutputCollector where
  maxBytes : Nat
  parts : List Text
  retainedBytes : Nat
  originalBytes : Nat
  truncated : Bool
  retentionClosed : Bool
  max_pos : 0 < maxBytes

namespace BoundedOutputCollector

/-- `BoundedOutputCollector(max_bytes)`. -/
def new (maxBytes : Nat) (max_pos : 0 < maxBytes) : BoundedOutputCollector where
  maxBytes
  parts := []
  retainedBytes := 0
  originalBytes := 0
  truncated := false
  retentionClosed := false
  max_pos

/-- `BoundedOutputCollector.append`. -/
def append (collector : BoundedOutputCollector) (text : Text) :
    Except PyError BoundedOutputCollector :=
  match encodeUtf8 text with
  | none => raise .unicodeEncodeError (py "surrogates not allowed")
  | some encoded =>
    let collector := { collector with originalBytes := collector.originalBytes + encoded.length }
    let remaining := collector.maxBytes - collector.retainedBytes
    if collector.retentionClosed then
      .ok { collector with truncated := collector.truncated || !encoded.isEmpty }
    else if remaining = 0 then
      .ok { collector with
        truncated := collector.truncated || !encoded.isEmpty
        retentionClosed := !encoded.isEmpty }
    else if encoded.length ≤ remaining then
      .ok { collector with
        parts := collector.parts ++ [text]
        retainedBytes := collector.retainedBytes + encoded.length }
    else
      -- the loop decodes once more at most: what precedes the error decodes
      let prefixBytes := (encoded.take remaining).take (decodableLength (encoded.take remaining))
      .ok { collector with
        parts := collector.parts ++ [(decodeUtf8 prefixBytes).getD []]
        retainedBytes := collector.retainedBytes + prefixBytes.length
        truncated := true
        retentionClosed := true }

/-- `BoundedOutputCollector.result`. -/
def result (collector : BoundedOutputCollector) : BoundedText where
  text := collector.parts.flatten
  originalBytes := collector.originalBytes
  truncated := collector.truncated

end BoundedOutputCollector

/-- `bound_text`. -/
def boundText (text : Text) (maxBytes : Nat) (max_pos : 0 < maxBytes) :
    Except PyError BoundedText := do
  let collector ← (BoundedOutputCollector.new maxBytes max_pos).append text
  return collector.result

/-! ## Section 2: Cutting between code points -/

theorem decodableLength_le (bytes : Bytes) : decodableLength bytes ≤ bytes.length :=
  Nat.findGreatest_le _

theorem decodableLength_spec (bytes : Bytes) :
    (decodeUtf8 (bytes.take (decodableLength bytes))).isSome := by
  have hzero : (decodeUtf8 (bytes.take 0)).isSome := rfl
  exact @Nat.findGreatest_spec _ (fun n => (decodeUtf8 (bytes.take n)).isSome) _ _
    (Nat.zero_le _) hzero

theorem le_decodableLength {bytes : Bytes} {n : Nat} (hn : n ≤ bytes.length)
    (h : (decodeUtf8 (bytes.take n)).isSome) : n ≤ decodableLength bytes :=
  Nat.le_findGreatest hn h

/-- The text of a cut is a prefix, and no longer prefix fits. -/
theorem cut_spec {t : Text} {bytes : Bytes} (h : encodeUtf8 t = some bytes) {room : Nat}
    (hroom : room ≤ bytes.length) : ∃ kept, decodeUtf8 ((bytes.take room).take
        (decodableLength (bytes.take room))) = some kept ∧
      encodeUtf8 kept = some ((bytes.take room).take (decodableLength (bytes.take room))) ∧
      kept <+: t ∧
      ∀ w encoded, w <+: t → encodeUtf8 w = some encoded → encoded.length ≤ room → w <+: kept := by
  obtain ⟨kept, hkept⟩ := Option.isSome_iff_exists.mp (decodableLength_spec (bytes.take room))
  have hencode := encodeUtf8_of_decodeUtf8 hkept
  refine ⟨kept, hkept, hencode, ?_, ?_⟩
  · exact prefix_of_encodeUtf8 h hencode ((List.take_prefix _ _).trans (List.take_prefix _ _))
  · rintro w encoded ⟨rest, rfl⟩ hw hle
    obtain ⟨first, others, hfirst, -, rfl⟩ := encodeUtf8_append_eq_some.mp h
    rw [hw] at hfirst
    cases hfirst
    -- the bytes of `w` are a decodable cut themselves
    have htake : ((encoded ++ others).take room).take encoded.length = encoded := by
      rw [List.take_take, min_eq_left hle, List.take_left]
    have hlength : encoded.length ≤ ((encoded ++ others).take room).length := by
      rw [List.length_take]
      omega
    have hcut : encoded.length ≤ decodableLength ((encoded ++ others).take room) := by
      refine le_decodableLength hlength ?_
      rw [htake, decodeUtf8_encodeUtf8 hw]
      rfl
    refine prefix_of_encodeUtf8 hencode hw ?_
    conv_lhs => rw [← htake]
    exact List.take_prefix_take_left hcut

theorem decodableLength_lt {bytes : Bytes} (h : decodeUtf8 bytes = none) :
    decodableLength bytes < bytes.length := by
  refine lt_of_le_of_ne (decodableLength_le bytes) fun heq => ?_
  have hspec := decodableLength_spec bytes
  rw [heq, List.take_length, h] at hspec
  cases hspec

theorem decodableLength_of_decodes {bytes : Bytes} {t : Text} (h : decodeUtf8 bytes = some t) :
    decodableLength bytes = bytes.length := by
  refine le_antisymm (decodableLength_le bytes) (le_decodableLength le_rfl ?_)
  rw [List.take_length, h]
  rfl

/-- The loop of `append` over a cut: it decodes what precedes the error, until
    nothing is left. -/
def retainPrefix (bytes : Bytes) : Bytes × Text :=
  if bytes = [] then
    ([], [])
  else
    match _ : decodeUtf8 bytes with
    | some retained => (bytes, retained)
    | none => retainPrefix (bytes.take (decodableLength bytes))
termination_by bytes.length
decreasing_by
  rw [List.length_take]
  have := decodableLength_lt ‹_›
  omega

/-- The loop ends after one retry at most. -/
theorem retainPrefix_eq (bytes : Bytes) :
    retainPrefix bytes = (bytes.take (decodableLength bytes),
      (decodeUtf8 (bytes.take (decodableLength bytes))).getD []) := by
  have hdecodes : ∀ {bytes : Bytes} {t : Text}, decodeUtf8 bytes = some t →
      retainPrefix bytes = (bytes, t) := by
    intro bytes t h
    rw [retainPrefix]
    split
    · next hnil =>
      subst hnil
      cases h
      rfl
    · split
      · next hsome =>
        rw [h] at hsome
        cases hsome
        rfl
      · next hnone =>
        rw [h] at hnone
        cases hnone
  obtain ⟨kept, hkept⟩ := Option.isSome_iff_exists.mp (decodableLength_spec bytes)
  rw [hkept, Option.getD_some]
  cases h : decodeUtf8 bytes with
  | some t =>
    rw [decodableLength_of_decodes h, List.take_length] at hkept ⊢
    exact hdecodes hkept
  | none =>
    have hne : bytes ≠ [] := by
      rintro rfl
      cases h
    rw [retainPrefix, if_neg hne]
    split
    · next hsome =>
      rw [h] at hsome
      cases hsome
    · exact hdecodes hkept

/-! ## Section 3: What is retained -/

/-- The bounded form of a text: its longest prefix of whole code points within
    the limit, its size, and whether it exceeds the limit. -/
structure Bounds (maxBytes : Nat) (whole : Text) (bounded : BoundedText) : Prop where
  isPrefix : bounded.text <+: whole
  fits : ∃ n, utf8Length bounded.text = some n ∧ n ≤ maxBytes
  longest : ∀ w n, w <+: whole → utf8Length w = some n → n ≤ maxBytes → w <+: bounded.text
  size : utf8Length whole = some bounded.originalBytes
  exceeds : bounded.truncated = true ↔ maxBytes < bounded.originalBytes

/-- A text has one bounded form. -/
theorem Bounds.unique {maxBytes : Nat} {whole : Text} {b c : BoundedText}
    (hb : Bounds maxBytes whole b) (hc : Bounds maxBytes whole c) : b = c := by
  obtain ⟨n, hn, hle⟩ := hb.fits
  obtain ⟨m, hm, hle'⟩ := hc.fits
  have htext : b.text = c.text := by
    have hlength : b.text.length = c.text.length :=
      le_antisymm (hc.longest _ n hb.isPrefix hn hle).length_le
        (hb.longest _ m hc.isPrefix hm hle').length_le
    exact (hc.longest _ n hb.isPrefix hn hle).eq_of_length hlength
  have hsize : b.originalBytes = c.originalBytes := by
    have := hb.size.symm.trans hc.size
    simpa using this
  have htruncated : b.truncated = c.truncated := by
    rw [Bool.eq_iff_iff, hb.exceeds, hc.exceeds, hsize]
  cases b
  cases c
  simp_all

namespace BoundedOutputCollector

/-- What a collector holds once `whole` has been appended. -/
structure Collected (whole : Text) (bytes : Bytes) (collector : BoundedOutputCollector) : Prop where
  size : collector.originalBytes = bytes.length
  retained : ∃ kept, encodeUtf8 collector.parts.flatten = some kept ∧
    kept.length = collector.retainedBytes
  within : collector.retainedBytes ≤ collector.maxBytes
  isPrefix : collector.parts.flatten <+: whole
  longest : ∀ w encoded, w <+: whole → encodeUtf8 w = some encoded →
    encoded.length ≤ collector.maxBytes → w <+: collector.parts.flatten
  exceeds : collector.truncated = true ↔ collector.maxBytes < bytes.length
  -- retention closes with the first byte that is lost
  closed : collector.retentionClosed = collector.truncated
  whole_open : collector.retentionClosed = false → collector.parts.flatten = whole

theorem Collected.bounds {whole : Text} {bytes : Bytes} {collector : BoundedOutputCollector}
    (h : Collected whole bytes collector) (hwhole : encodeUtf8 whole = some bytes) :
    Bounds collector.maxBytes whole collector.result where
  isPrefix := h.isPrefix
  fits := by
    obtain ⟨kept, hkept, hlength⟩ := h.retained
    refine ⟨kept.length, ?_, hlength ▸ h.within⟩
    rw [result, utf8Length, hkept, Option.map_some]
  longest := by
    intro w n hw hn hle
    obtain ⟨encoded, hencoded, rfl⟩ := Option.map_eq_some_iff.mp hn
    exact h.longest w encoded hw hencoded hle
  size := by
    rw [utf8Length, hwhole, Option.map_some, result, h.size]
  exceeds := by
    rw [result, h.size]
    exact h.exceeds

theorem collected_new (maxBytes : Nat) (max_pos : 0 < maxBytes) :
    Collected [] [] (new maxBytes max_pos) where
  size := rfl
  retained := ⟨[], rfl, rfl⟩
  within := Nat.zero_le _
  isPrefix := List.prefix_rfl
  longest _ _ hw _ _ := hw
  exceeds := by simp [new]
  closed := rfl
  whole_open _ := rfl

/-- Once more than the limit is there, nothing that follows fits. -/
theorem prefix_of_exceeding {whole text : Text} {bytes encoded : Bytes} {maxBytes : Nat}
    (hwhole : encodeUtf8 whole = some bytes) (htext : encodeUtf8 text = some encoded)
    (hfull : maxBytes ≤ bytes.length) {w : Text} {found : Bytes} (hw : w <+: whole ++ text)
    (hfound : encodeUtf8 w = some found) (hle : found.length ≤ maxBytes) : w <+: whole := by
  have hall := encodeUtf8_append_eq_some.mpr ⟨bytes, encoded, hwhole, htext, rfl⟩
  refine prefix_of_encodeUtf8 hwhole hfound ?_
  obtain ⟨rest, hrest⟩ := hw
  rw [← hrest] at hall
  obtain ⟨first, others, hfirst, -, hbytes⟩ := encodeUtf8_append_eq_some.mp hall
  rw [hfound] at hfirst
  cases hfirst
  exact List.prefix_of_prefix_length_le (hbytes ▸ List.prefix_append found others)
    (List.prefix_append bytes encoded) (hle.trans hfull)

theorem Collected.append {whole text : Text} {bytes encoded : Bytes}
    {collector : BoundedOutputCollector} (h : Collected whole bytes collector)
    (hwhole : encodeUtf8 whole = some bytes) (htext : encodeUtf8 text = some encoded) :
    ∃ next, collector.append text = .ok next ∧ next.maxBytes = collector.maxBytes ∧
      Collected (whole ++ text) (bytes ++ encoded) next := by
  obtain ⟨kept, hkept, hlength⟩ := h.retained
  have hwithin := h.within
  unfold BoundedOutputCollector.append
  rw [htext]
  simp only
  by_cases hclosed : collector.retentionClosed = true
  · -- what was lost stays lost
    have htruncated : collector.truncated = true := by rw [← h.closed, hclosed]
    have hexceeds := h.exceeds.mp htruncated
    rw [if_pos hclosed]
    refine ⟨_, rfl, rfl, ?_, ⟨kept, hkept, hlength⟩, hwithin, h.isPrefix.trans
      (List.prefix_append _ _), ?_, ?_, ?_, ?_⟩
    · simp [h.size]
    · intro w found hw hfound hle
      exact h.longest w found (prefix_of_exceeding hwhole htext hexceeds.le hw hfound hle) hfound hle
    · simp only [htruncated, Bool.true_or, true_iff, List.length_append]
      omega
    · simp [htruncated, hclosed]
    · intro hopen
      rw [hclosed] at hopen
      cases hopen
  rw [if_neg hclosed]
  have hwholeOpen := h.whole_open (by simpa using hclosed)
  have htruncated : collector.truncated = false := by
    rw [← h.closed]
    simpa using hclosed
  have hbytes : bytes.length = collector.retainedBytes := by
    rw [hwholeOpen, hwhole] at hkept
    cases hkept
    exact hlength
  by_cases hroom : collector.maxBytes - collector.retainedBytes = 0
  · rw [if_pos hroom]
    have hnil : encoded = [] → text = [] := by
      rintro rfl
      have := decodeUtf8_encodeUtf8 htext
      cases this
      rfl
    have hfull : collector.maxBytes ≤ bytes.length := by omega
    refine ⟨_, rfl, rfl, ?_, ⟨kept, hkept, hlength⟩, hwithin, h.isPrefix.trans
      (List.prefix_append _ _), ?_, ?_, ?_, ?_⟩
    · simp [h.size]
    · intro w found hw hfound hle
      exact h.longest w found (prefix_of_exceeding hwhole htext hfull hw hfound hle) hfound hle
    · rw [htruncated, List.length_append]
      cases encoded with
      | nil => simp; omega
      | cons b encoded => simp; omega
    · simp [htruncated]
    · intro hopen
      have hempty : encoded = [] := by simpa using hopen
      simp [hwholeOpen, hnil hempty]
  rw [if_neg hroom]
  by_cases hfits : encoded.length ≤ collector.maxBytes - collector.retainedBytes
  · rw [if_pos hfits]
    refine ⟨_, rfl, rfl, ?_, ⟨bytes ++ encoded, ?_, ?_⟩, ?_, ?_, ?_, ?_, ?_, ?_⟩
    · simp [h.size]
    · rw [List.flatten_concat, hwholeOpen]
      exact encodeUtf8_append_eq_some.mpr ⟨bytes, encoded, hwhole, htext, rfl⟩
    · rw [List.length_append, hbytes]
    · show collector.retainedBytes + encoded.length ≤ collector.maxBytes
      omega
    · rw [List.flatten_concat, hwholeOpen]
    · intro w _ hw _ _
      rwa [List.flatten_concat, hwholeOpen]
    · simp only [htruncated, Bool.false_eq_true, List.length_append, false_iff]
      omega
    · exact h.closed
    · intro _
      rw [List.flatten_concat, hwholeOpen]
  · -- the text is cut
    rw [if_neg hfits]
    obtain ⟨cut, hdecode, hencode, hcut, hlongest⟩ := cut_spec htext (by omega :
      collector.maxBytes - collector.retainedBytes ≤ encoded.length)
    have hcutLength : ((encoded.take (collector.maxBytes - collector.retainedBytes)).take
        (decodableLength (encoded.take (collector.maxBytes - collector.retainedBytes)))).length ≤
        collector.maxBytes - collector.retainedBytes := by
      simp only [List.length_take]
      omega
    refine ⟨_, rfl, rfl, ?_, ⟨bytes ++
      (encoded.take (collector.maxBytes - collector.retainedBytes)).take
        (decodableLength (encoded.take (collector.maxBytes - collector.retainedBytes))), ?_, ?_⟩,
      ?_, ?_, ?_, ?_, ?_, ?_⟩
    · simp [h.size]
    · simp only [List.flatten_concat, hwholeOpen, hdecode, Option.getD_some]
      exact encodeUtf8_append_eq_some.mpr ⟨bytes, _, hwhole, hencode, rfl⟩
    · rw [List.length_append, hbytes]
    · simp only
      omega
    · simp only [List.flatten_concat, hwholeOpen, hdecode, Option.getD_some]
      exact (List.prefix_append_right_inj whole).mpr hcut
    · intro w found hw hfound hle
      simp only [List.flatten_concat, hwholeOpen, hdecode, Option.getD_some]
      rcases List.prefix_or_prefix_of_prefix hw (List.prefix_append whole text) with hshort | hlong
      · exact hshort.trans (List.prefix_append _ _)
      · obtain ⟨more, rfl⟩ := hlong
        obtain ⟨first, others, hfirst, hothers, rfl⟩ := encodeUtf8_append_eq_some.mp hfound
        rw [hwhole] at hfirst
        cases hfirst
        rw [List.length_append] at hle
        have hsum : bytes.length + others.length ≤ collector.maxBytes := hle
        rw [List.prefix_append_right_inj] at hw ⊢
        exact hlongest more others hw hothers (by omega)
    · simp only [List.length_append, true_iff]
      omega
    · rfl
    · intro hopen
      cases hopen

/-- A text that does not fit is cut as the loop cuts it. -/
theorem append_cut {text : Text} {encoded : Bytes} {collector : BoundedOutputCollector}
    (htext : encodeUtf8 text = some encoded) (hopen : ¬ collector.retentionClosed = true)
    (hroom : ¬ collector.maxBytes - collector.retainedBytes = 0)
    (hcut : ¬ encoded.length ≤ collector.maxBytes - collector.retainedBytes) :
    collector.append text = .ok { collector with
      originalBytes := collector.originalBytes + encoded.length
      parts := collector.parts ++
        [(retainPrefix (encoded.take (collector.maxBytes - collector.retainedBytes))).2]
      retainedBytes := collector.retainedBytes +
        (retainPrefix (encoded.take (collector.maxBytes - collector.retainedBytes))).1.length
      truncated := true
      retentionClosed := true } := by
  rw [retainPrefix_eq, BoundedOutputCollector.append, htext]
  simp only
  rw [if_neg hopen, if_neg hroom, if_neg hcut]

/-- `append` of each text in turn. -/
def appendAll (collector : BoundedOutputCollector) (texts : List Text) :
    Except PyError BoundedOutputCollector :=
  texts.foldlM append collector

theorem Collected.appendAll {whole : Text} {bytes : Bytes} {collector : BoundedOutputCollector}
    (h : Collected whole bytes collector) (hwhole : encodeUtf8 whole = some bytes)
    {texts : List Text} (htexts : ∀ t ∈ texts, ValidUtf8 t) :
    ∃ last rest, collector.appendAll texts = .ok last ∧ last.maxBytes = collector.maxBytes ∧
      encodeUtf8 texts.flatten = some rest ∧ Collected (whole ++ texts.flatten) (bytes ++ rest) last := by
  induction texts generalizing whole bytes collector with
  | nil =>
    refine ⟨collector, [], rfl, rfl, rfl, ?_⟩
    rwa [List.flatten_nil, List.append_nil, List.append_nil]
  | cons t texts ih =>
    obtain ⟨ht, htexts⟩ := List.forall_mem_cons.mp htexts
    obtain ⟨encoded, hencoded⟩ := Option.isSome_iff_exists.mp ht
    obtain ⟨next, hnext, hmax, hcollected⟩ := h.append hwhole hencoded
    have hall := encodeUtf8_append_eq_some.mpr ⟨bytes, encoded, hwhole, hencoded, rfl⟩
    obtain ⟨last, rest, hlast, hmax', hrest, hcollected⟩ := ih hcollected hall htexts
    refine ⟨last, encoded ++ rest, ?_, hmax'.trans hmax, ?_, ?_⟩
    · rw [BoundedOutputCollector.appendAll, List.foldlM_cons, hnext]
      exact hlast
    · exact encodeUtf8_append_eq_some.mpr ⟨encoded, rest, hencoded, hrest, rfl⟩
    · rwa [List.flatten_cons, ← List.append_assoc, ← List.append_assoc]

/-- The result depends on the concatenation of what was appended only. -/
theorem appendAll_result (maxBytes : Nat) (max_pos : 0 < maxBytes) (texts : List Text)
    (htexts : ∀ t ∈ texts, ValidUtf8 t) :
    ∃ collector, (new maxBytes max_pos).appendAll texts = .ok collector ∧
      boundText texts.flatten maxBytes max_pos = .ok collector.result ∧
      Bounds maxBytes texts.flatten collector.result := by
  obtain ⟨last, rest, hlast, hmax, hrest, hcollected⟩ :=
    (collected_new maxBytes max_pos).appendAll encodeUtf8_nil htexts
  rw [List.nil_append, List.nil_append] at hcollected
  have hbounds : Bounds maxBytes texts.flatten last.result := by
    have := hcollected.bounds hrest
    rwa [hmax] at this
  obtain ⟨once, honce, hmaxOnce, hcollectedOnce⟩ :=
    (collected_new maxBytes max_pos).append encodeUtf8_nil hrest
  rw [List.nil_append, List.nil_append] at hcollectedOnce
  have hboundsOnce : Bounds maxBytes texts.flatten once.result := by
    have := hcollectedOnce.bounds hrest
    rwa [hmaxOnce] at this
  refine ⟨last, hlast, ?_, hbounds⟩
  rw [boundText, honce]
  exact congrArg Except.ok (hboundsOnce.unique hbounds)

/-- A cut inside a code point, then one byte more. -/
theorem appendAll_result_cut : ∃ collector,
    (new 2 Nat.two_pos).appendAll [py "a", [0x20AC], py "b"] = .ok collector ∧
      boundText [py "a", [0x20AC], py "b"].flatten 2 Nat.two_pos = .ok collector.result ∧
      Bounds 2 [py "a", [0x20AC], py "b"].flatten collector.result :=
  appendAll_result 2 Nat.two_pos _ (by decide)

end BoundedOutputCollector
