import MemSandbox.Events.RedactionLaws
import MemSandbox.Lib.Utf8

/-! # Redaction of text and of its bytes

    With text values registered, redacting the UTF-8 bytes of a text gives the
    bytes of the redacted text (`redactBytes_encode`): the bytes of a value
    occur where the value occurs, and moving every position to its offset
    moves the unions of the occurrences along. -/

open Python

namespace ProtectedValueRedactor

/-! ## Section 1: Occurrences in the bytes -/

/-- The span of the bytes of a span of text. -/
abbrev byteSpan (value : Text) (s : Span) : Span := Spans.image (offset value) s

theorem encode_slice {value : Text} {bytes : Bytes} (h : encodeUtf8 value = some bytes) {s : Span}
    (hs : s.1 ≤ s.2) (hend : s.2 ≤ value.length) :
    encodeUtf8 (slice value s) = some (slice bytes (byteSpan value s)) :=
  encodeUtf8_extract h hs hend

theorem occurrence_byteSpan {textValues : List Text} {value : Text} {bytes : Bytes}
    (h : encodeUtf8 value = some bytes) {s : Span}
    (hs : Occurrence (RegisteredText textValues []) value s) :
    Occurrence (RegisteredBytes textValues []) bytes (byteSpan value s) := by
  obtain ⟨hstart, hend, hregistered⟩ := hs
  have hmono := (offset_strictMono h).monotone
  refine ⟨hmono hstart, ?_, .inr ⟨_, ?_, encode_slice h hstart hend⟩⟩
  · rw [← offset_length h]
    exact hmono hend
  · exact hregistered.resolve_right (by simp)

/-- UTF-8 synchronises itself, so there are no other occurrences. -/
theorem exists_occurrence {textValues : List Text} (hne : ∀ w ∈ textValues, w ≠ []) {value : Text}
    {bytes : Bytes} (h : encodeUtf8 value = some bytes) {s : Span}
    (hs : Occurrence (RegisteredBytes textValues []) bytes s) :
    ∃ t, Occurrence (RegisteredText textValues []) value t ∧ s = byteSpan value t := by
  obtain ⟨hstart, hend, hregistered⟩ := hs
  obtain ⟨w, hw, hencoded⟩ := hregistered.resolve_left (by simp)
  obtain ⟨i, hi, hoffset, hocc⟩ :=
    encodeUtf8_synchronises h hencoded (hne w hw) (List.take_prefix _ _)
  obtain ⟨hle, hend', hslice⟩ :=
    (@slice_eq_iff _ value w (i, i + w.length) hi).mpr ⟨hocc, rfl⟩
  refine ⟨(i, i + w.length), ⟨hle, hend', hslice.symm ▸ .inl hw⟩, ?_⟩
  -- both spans hold the bytes of the value, so they end alike
  have hsame := encode_slice h hle hend'
  rw [hslice, hencoded, Option.some.injEq] at hsame
  have hlength := congrArg List.length hsame
  have hmono := (offset_strictMono h).monotone
  have hbounds := hmono hle
  have hbytes := hmono hend'
  rw [offset_length h] at hbytes
  simp only [slice, List.length_take, List.length_drop, Spans.image] at hlength
  refine Prod.ext hoffset ?_
  show s.2 = offset value (i + w.length)
  dsimp only at hbounds hbytes
  omega

theorem mem_matchSpans_bytes {textValues : List Text} {redactor : ProtectedValueRedactor}
    (hnew : new textValues [] = .ok redactor) {value : Text} {bytes : Bytes}
    (h : encodeUtf8 value = some bytes) (s : Span) :
    s ∈ matchSpans bytes redactor.byteValues ↔
      s ∈ (matchSpans value redactor.textValues).map (byteSpan value) := by
  have hne : ∀ w ∈ textValues, w ≠ [] := by
    intro w hw
    obtain ⟨R, hR, -⟩ := new_eq_ok hnew
    exact (hR.texts_valid w hw).1
  rw [mem_matchSpans, mem_byteValues hnew, List.mem_map]
  constructor
  · intro hs
    obtain ⟨t, ht, rfl⟩ := exists_occurrence hne h hs
    refine ⟨t, ?_, rfl⟩
    rw [mem_matchSpans, mem_textValues hnew]
    exact ht
  · rintro ⟨t, ht, rfl⟩
    rw [mem_matchSpans, mem_textValues hnew] at ht
    exact occurrence_byteSpan h ht

/-! ## Section 2: The redacted bytes -/

theorem encode_redactFrom {value marker : Text} {bytes markerBytes : Bytes}
    (h : encodeUtf8 value = some bytes) (hmarker : encodeUtf8 marker = some markerBytes)
    {cursor : Nat} {unions : List Span} (hcursor : cursor ≤ value.length)
    (hseparate : Spans.Separate unions)
    (hbounds : ∀ u ∈ unions, u.1 < u.2 ∧ u.2 ≤ value.length) (hstart : ∀ u ∈ unions, cursor ≤ u.1) :
    encodeUtf8 (redactFrom marker value cursor unions) =
      some (redactFrom markerBytes bytes (offset value cursor) (unions.map (byteSpan value))) := by
  induction unions generalizing cursor with
  | nil => exact (encodeUtf8_take_drop h hcursor).2
  | cons u rest ih =>
    obtain ⟨hnext, hseparate⟩ := List.pairwise_cons.mp hseparate
    obtain ⟨hu, hbounds⟩ := List.forall_mem_cons.mp hbounds
    have hgap := @encode_slice _ _ h (cursor, u.1) (hstart u List.mem_cons_self)
      (hu.1.le.trans hu.2)
    have hrest := ih hu.2 hseparate hbounds hnext
    rw [redactFrom, List.map_cons, redactFrom]
    exact encodeUtf8_append_eq_some.mpr ⟨_, _,
      encodeUtf8_append_eq_some.mpr ⟨_, _, hgap, hmarker, rfl⟩, hrest, rfl⟩

/-- Redacting the bytes of a text gives the bytes of the redacted text. -/
theorem redactBytes_encode {textValues : List Text} {redactor : ProtectedValueRedactor}
    (hnew : new textValues [] = .ok redactor) {value : Text} {bytes : Bytes}
    (h : encodeUtf8 value = some bytes) :
    encodeUtf8 (redactor.redactText value) = some (redactor.redactBytes bytes) := by
  have hunions := @unions_merge _ _ value _ redactor.text_ne
  have hspans : ∀ s ∈ matchSpans bytes redactor.byteValues, s.1 < s.2 :=
    fun s hs => (mem_matchSpans.mp hs).lt redactor.byte_ne
  have hmerge : Spans.merge (matchSpans bytes redactor.byteValues) =
      (Spans.merge (matchSpans value redactor.textValues)).map (byteSpan value) := by
    rw [Spans.merge_congr hspans (mem_matchSpans_bytes hnew h)]
    exact Spans.merge_image (offset_strictMono h) _
  have hmarker : encodeUtf8 REDACTION_TEXT = some REDACTION_BYTES := rfl
  have hredact := encode_redactFrom h hmarker (Nat.zero_le _) hunions.separate
    (fun u hu => hunions.bounds redactor.text_ne hu) fun u _ => Nat.zero_le u.1
  rw [redactText, redactBytes, redactSpans_eq, redactSpans_eq, hmerge, hredact, offset_zero]

namespace Accented

def redactor : ProtectedValueRedactor :=
  ofRegistered ⟨[py "é"], [[0xC3, 0xA9]], by decide, by decide⟩

/-- A value of two bytes, in a text of characters of three and two bytes. -/
theorem redactBytes_encode_euro : new [py "é"] [] = .ok redactor ∧
    encodeUtf8 (redactor.redactText (py "€é")) =
      some (redactor.redactBytes [0xE2, 0x82, 0xAC, 0xC3, 0xA9]) :=
  ⟨rfl, @redactBytes_encode [py "é"] redactor rfl (py "€é") _ rfl⟩

end Accented

end ProtectedValueRedactor
