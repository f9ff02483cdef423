import MemSandbox.Events.Redaction

/-! # What redaction does

    `redact_exact`: each union of overlapping occurrences of registered values
    is replaced by one marker, everything else is kept, and the order of the
    registrations is of no account.

    `containsProtectedText_exact_iff`: the test for protected text misses an
    occurrence exactly when the text already reads the same as its redaction. -/

open Python

section Occurrences

variable {α : Type} [DecidableEq α]

/-! ## Section 1: Occurrences -/

/-- The span holds a registered value. -/
def Occurrence (registered : List α → Prop) (value : List α) (s : Span) : Prop :=
  s.1 ≤ s.2 ∧ s.2 ≤ value.length ∧ registered (slice value s)

omit [DecidableEq α] in
theorem Occurrence.lt {registered : List α → Prop} {value : List α} {s : Span}
    (h : Occurrence registered value s) (hne : ∀ candidate, registered candidate → candidate ≠ []) :
    s.1 < s.2 := by
  have hslice := List.length_pos_iff.mpr (hne _ h.2.2)
  rw [slice, List.length_take] at hslice
  omega

omit [DecidableEq α] in
theorem slice_eq_iff {value candidate : List α} {s : Span} (hle : s.1 ≤ value.length) :
    (s.1 ≤ s.2 ∧ s.2 ≤ value.length ∧ slice value s = candidate) ↔
      candidate <+: value.drop s.1 ∧ s.2 = s.1 + candidate.length := by
  constructor
  · rintro ⟨hstart, hend, rfl⟩
    refine ⟨List.take_prefix _ _, ?_⟩
    rw [slice, List.length_take, List.length_drop]
    omega
  · rintro ⟨hat, hend⟩
    have hlength := hat.length_le
    rw [List.length_drop] at hlength
    refine ⟨by omega, by omega, ?_⟩
    rw [slice, hend, Nat.add_sub_cancel_left]
    exact (List.prefix_iff_eq_take.mp hat).symm

theorem find_eq_some {candidate value : List α} {start i : Nat}
    (h : find candidate value start = some i) :
    start ≤ i ∧ i ≤ value.length ∧ candidate <+: value.drop i ∧
      ∀ j, start ≤ j → j < i → ¬ candidate <+: value.drop j := by
  rw [find, List.find?_range'_eq_some] at h
  obtain ⟨hmatch, hmem, hfirst⟩ := h
  rw [List.mem_range'_1] at hmem
  refine ⟨hmem.1, by omega, startsWith_iff.mp hmatch, ?_⟩
  intro j hstart hlt hat
  have := hfirst j hstart hlt
  rw [startsWith_iff.mpr hat] at this
  cases this

theorem find_eq_none {candidate value : List α} {start : Nat}
    (h : find candidate value start = none) {i : Nat} (hstart : start ≤ i) (hle : i ≤ value.length) :
    ¬ candidate <+: value.drop i := by
  intro hat
  rw [find, List.find?_eq_none] at h
  exact h i (List.mem_range'_1.mpr ⟨hstart, by omega⟩) (startsWith_iff.mpr hat)

/-- The search goes on behind the start of each match, so it finds them all. -/
theorem mem_matchesFrom {candidate value : List α} {s : Span} {fuel start : Nat}
    (hfuel : value.length + 1 - start ≤ fuel) :
    s ∈ matchesFrom candidate value fuel start ↔
      start ≤ s.1 ∧ s.1 ≤ value.length ∧ candidate <+: value.drop s.1 ∧
        s.2 = s.1 + candidate.length := by
  induction fuel generalizing start with
  | zero =>
    rw [matchesFrom]
    refine iff_of_false List.not_mem_nil ?_
    omega
  | succ fuel ih =>
    rw [matchesFrom]
    split
    · next hnone =>
      refine iff_of_false List.not_mem_nil ?_
      rintro ⟨hstart, hle, hat, -⟩
      exact find_eq_none hnone hstart hle hat
    · next i hsome =>
      obtain ⟨hstart, hle, hat, hfirst⟩ := find_eq_some hsome
      rw [List.mem_cons, ih (by omega)]
      constructor
      · rintro (rfl | ⟨hlater, hrest⟩)
        · exact ⟨hstart, hle, hat, rfl⟩
        · exact ⟨by omega, hrest⟩
      · rintro ⟨hs, hsle, hsat, hsend⟩
        rcases Nat.lt_trichotomy s.1 i with hlt | heq | hgt
        · exact absurd hsat (hfirst s.1 hs hlt)
        · exact .inl (Prod.ext heq (by rw [hsend, heq]))
        · exact .inr ⟨hgt, hsle, hsat, hsend⟩

theorem mem_matchSpans {value : List α} {protecteds : List (List α)} {s : Span} :
    s ∈ matchSpans value protecteds ↔ Occurrence (· ∈ protecteds) value s := by
  unfold matchSpans
  rw [List.mem_flatMap]
  constructor
  · rintro ⟨candidate, hcandidate, hs⟩
    obtain ⟨-, hle, hspan⟩ := (mem_matchesFrom (by omega)).mp hs
    obtain ⟨hstart, hend, hslice⟩ := (slice_eq_iff hle).mpr hspan
    exact ⟨hstart, hend, hslice ▸ hcandidate⟩
  · rintro ⟨hstart, hend, hregistered⟩
    have hle := hstart.trans hend
    refine ⟨_, hregistered, (mem_matchesFrom (by omega)).mpr ⟨Nat.zero_le _, hle, ?_⟩⟩
    exact (slice_eq_iff hle).mp ⟨hstart, hend, rfl⟩

theorem redactSpans_eq (marker value : List α) (protecteds : List (List α)) :
    redactSpans marker value protecteds =
      redactFrom marker value 0 (Spans.merge (matchSpans value protecteds)) := by
  unfold redactSpans
  dsimp only
  split
  · next h =>
    rw [h]
    rfl
  · rfl

/-! ## Section 2: Unions of occurrences -/

/-- The unions of the occurrences of the registered values, in order. -/
structure Unions (registered : List α → Prop) (value : List α) (unions : List Span) : Prop where
  separate : Spans.Separate unions
  mem_iff : ∀ u, u ∈ unions ↔ Spans.Union (Occurrence registered value) u

omit [DecidableEq α] in
/-- The unions lie within the value, and are not empty. -/
theorem Unions.bounds {registered : List α → Prop} {value : List α} {unions : List Span}
    (h : Unions registered value unions)
    (hne : ∀ candidate, registered candidate → candidate ≠ []) {u : Span} (hu : u ∈ unions) :
    u.1 < u.2 ∧ u.2 ≤ value.length := by
  have hP : ∀ s, Occurrence registered value s → s.1 < s.2 := fun s hs => hs.lt hne
  have hunion := (h.mem_iff u).mp hu
  have hlt := hunion.lt hP
  obtain ⟨s, hs, hcovers⟩ := hunion
  obtain ⟨t, ht, hcov⟩ := (hcovers (u.2 - 1)).mp ⟨by omega, by omega⟩
  have hend := (Spans.Linked.mem hs ht).2.1
  unfold Spans.Covers at hcov
  omega

theorem unions_merge {value : List α} {protecteds : List (List α)}
    (hne : ∀ candidate ∈ protecteds, candidate ≠ []) :
    Unions (· ∈ protecteds) value (Spans.merge (matchSpans value protecteds)) := by
  have hspans : ∀ s ∈ matchSpans value protecteds, s.1 < s.2 :=
    fun s hs => (mem_matchSpans.mp hs).lt hne
  refine ⟨Spans.separate_merge _, ?_⟩
  intro u
  rw [Spans.mem_merge hspans]
  have hsame : (· ∈ matchSpans value protecteds) = Occurrence (· ∈ protecteds) value :=
    funext fun s => propext mem_matchSpans
  rw [hsame]

omit [DecidableEq α] in
theorem Unions.unique {registered : List α → Prop} {value : List α} {unions unions' : List Span}
    (h : Unions registered value unions) (h' : Unions registered value unions')
    (hne : ∀ candidate, registered candidate → candidate ≠ []) : unions = unions' := by
  refine h.separate.eq_of_mem_iff h'.separate (fun u hu => (h.bounds hne hu).1)
    (fun u hu => (h'.bounds hne hu).1) ?_
  intro u
  rw [h.mem_iff, h'.mem_iff]

/-- The spans before, between and behind the unions, from the cursor on. -/
def gaps (length : Nat) : Nat → List Span → List Span
  | cursor, [] => [(cursor, length)]
  | cursor, u :: rest => (cursor, u.1) :: gaps length u.2 rest

/-- The positions of a span. -/
def positions (s : Span) : List Nat := List.range' s.1 (s.2 - s.1)

omit [DecidableEq α] in
theorem redactFrom_eq (marker value : List α) (cursor : Nat) (unions : List Span) :
    redactFrom marker value cursor unions =
      marker.intercalate ((gaps value.length cursor unions).map (slice value)) := by
  induction unions generalizing cursor with
  | nil =>
    have hall : (value.drop cursor).take (value.length - cursor) = value.drop cursor :=
      List.take_of_length_le (by rw [List.length_drop])
    simp [redactFrom, gaps, slice, hall, List.intercalate]
  | cons u rest ih =>
    rw [redactFrom, ih, gaps, List.map_cons]
    cases hrest : (gaps value.length u.2 rest).map (slice value) with
    | nil => cases rest <;> cases hrest
    | cons first others => simp [List.intercalate]

/-- The gaps hold the positions from the cursor on that no union covers, in order. -/
theorem positions_gaps {length cursor : Nat} {unions : List Span}
    (hseparate : Spans.Separate unions) (hbounds : ∀ u ∈ unions, u.1 < u.2 ∧ u.2 ≤ length)
    (hcursor : ∀ u ∈ unions, cursor ≤ u.1) :
    ((gaps length cursor unions).flatMap positions).Pairwise (· < ·) ∧
      ∀ i, i ∈ (gaps length cursor unions).flatMap positions ↔
        cursor ≤ i ∧ i < length ∧ ¬ ∃ u ∈ unions, Spans.Covers u i := by
  induction unions generalizing cursor with
  | nil =>
    constructor
    · simpa [gaps, positions] using List.pairwise_lt_range'
    · intro i
      simp only [gaps, positions, List.flatMap_cons, List.flatMap_nil, List.append_nil,
        List.mem_range'_1, List.not_mem_nil, false_and, exists_false, not_false_eq_true, and_true]
      omega
  | cons u rest ih =>
    obtain ⟨hnext, hseparate⟩ := List.pairwise_cons.mp hseparate
    obtain ⟨hu, hbounds⟩ := List.forall_mem_cons.mp hbounds
    have hstart := hcursor u List.mem_cons_self
    obtain ⟨hsorted, hmem⟩ := ih hseparate hbounds hnext
    rw [gaps, List.flatMap_cons]
    constructor
    · refine List.pairwise_append.mpr ⟨List.pairwise_lt_range', hsorted, ?_⟩
      intro i hi j hj
      have hi := (List.mem_range'_1.mp hi)
      have hj := ((hmem j).mp hj).1
      dsimp only at hi
      omega
    · intro i
      rw [List.mem_append, hmem i, positions, List.mem_range'_1]
      dsimp only
      constructor
      · rintro (hi | ⟨hui, hlt, hnot⟩)
        · refine ⟨hi.1, by omega, ?_⟩
          rintro ⟨v, hv, hcov⟩
          have := hcov.1
          rcases List.mem_cons.mp hv with rfl | hv
          · omega
          · have := hnext v hv
            omega
        · refine ⟨by omega, hlt, ?_⟩
          rintro ⟨v, hv, hcov⟩
          rcases List.mem_cons.mp hv with rfl | hv
          · have := hcov.2
            omega
          · exact hnot ⟨v, hv, hcov⟩
      · rintro ⟨hci, hlt, hnot⟩
        by_cases hiu : i < u.1
        · exact .inl ⟨hci, by omega⟩
        · refine .inr ⟨?_, hlt, fun ⟨v, hv, hcov⟩ => hnot ⟨v, List.mem_cons_of_mem _ hv, hcov⟩⟩
          by_contra hlt'
          exact hnot ⟨u, List.mem_cons_self, by omega, by omega⟩

/-- What redaction makes of a value: one marker for each union of occurrences
    of registered values, between the characters that no occurrence covers. -/
structure Redacted (marker : List α) (registered : List α → Prop) (value result : List α)
    (unions : List Span) : Prop where
  are_unions : Unions registered value unions
  result : result = marker.intercalate ((gaps value.length 0 unions).map (slice value))
  sorted : ((gaps value.length 0 unions).flatMap positions).Pairwise (· < ·)
  kept : ∀ i, i ∈ (gaps value.length 0 unions).flatMap positions ↔
    i < value.length ∧ ¬ ∃ s, Occurrence registered value s ∧ Spans.Covers s i

theorem redacted_redactSpans (marker value : List α) {protecteds : List (List α)}
    (hne : ∀ candidate ∈ protecteds, candidate ≠ []) :
    Redacted marker (· ∈ protecteds) value (redactSpans marker value protecteds)
      (Spans.merge (matchSpans value protecteds)) := by
  have hunions := @unions_merge _ _ value _ hne
  obtain ⟨hsorted, hmem⟩ := positions_gaps hunions.separate (fun u hu => hunions.bounds hne hu)
    (fun u _ => Nat.zero_le u.1)
  refine ⟨hunions, ?_, hsorted, ?_⟩
  · rw [redactSpans_eq, redactFrom_eq]
  · intro i
    rw [hmem i, Spans.covers_merge]
    simp only [mem_matchSpans, Nat.zero_le, true_and]

end Occurrences

/-! ## Section 3: Registrations -/

/-- The texts that a constructor registers. -/
def RegisteredText (textValues : List Text) (byteValues : List Bytes) (value : Text) : Prop :=
  value ∈ textValues ∨ ∃ bytes ∈ byteValues, decodeUtf8 bytes = some value

/-- The bytes that a constructor registers. -/
def RegisteredBytes (textValues : List Text) (byteValues : List Bytes) (value : Bytes) : Prop :=
  value ∈ byteValues ∨ ∃ text ∈ textValues, encodeUtf8 text = some value

namespace Registered

theorem registerText_eq_ok {value : Text} {R R' : Registered} :
    registerText value R = .ok R' ↔ ∃ (h : value ≠ []) (encoded : Bytes)
      (he : encodeUtf8 value = some encoded),
      R' = (R.addText value h).addBytes encoded (encodeUtf8_ne_nil he h) := by
  unfold registerText
  split
  · next h => simp [h]
  · next h =>
    split
    · next hnone => simp [hnone]
    · next encoded he =>
      rw [Except.ok.injEq, eq_comm]
      constructor
      · exact fun hR => ⟨h, encoded, he, hR⟩
      · rintro ⟨-, encoded', he', rfl⟩
        rw [he] at he'
        cases he'
        rfl

theorem registerBytes_eq_ok {value : Bytes} {R R' : Registered} :
    registerBytes value R = .ok R' → value ≠ [] ∧
      (∀ b, b ∈ R'.bytes ↔ b ∈ R.bytes ∨ b = value) ∧
      (∀ w, w ∈ R'.texts ↔ w ∈ R.texts ∨ decodeUtf8 value = some w) ∧
      (R.texts.Nodup → R'.texts.Nodup) ∧ (R.bytes.Nodup → R'.bytes.Nodup) := by
  unfold registerBytes
  split
  · simp
  next h =>
  split
  · next hnone =>
    rintro hR
    cases hR
    refine ⟨h, ?_, ?_, id, nodup_setAdd⟩
    · intro b
      rw [addBytes, mem_setAdd, or_comm]
    · simp [addBytes, hnone]
  · next decoded hd =>
    rintro hR
    cases hR
    refine ⟨h, ?_, ?_, nodup_setAdd, nodup_setAdd⟩
    · intro b
      rw [addText, addBytes, mem_setAdd, or_comm]
    · intro w
      rw [addText, mem_setAdd, or_comm, hd, Option.some.injEq, eq_comm]
      rfl

theorem exists_registerBytes {value : Bytes} (h : value ≠ []) (R : Registered) :
    ∃ R', registerBytes value R = .ok R' := by
  unfold registerBytes
  rw [dif_neg h]
  split
  · exact ⟨_, rfl⟩
  · exact ⟨_, rfl⟩

/-- What the loop over the text values registers. -/
theorem foldlM_registerText {values : List Text} {R R' : Registered}
    (h : values.foldlM (fun R value => registerText value R) R = .ok R') :
    (∀ value ∈ values, value ≠ [] ∧ ∃ encoded, encodeUtf8 value = some encoded) ∧
      (∀ w, w ∈ R'.texts ↔ w ∈ R.texts ∨ w ∈ values) ∧
      (∀ b, b ∈ R'.bytes ↔ b ∈ R.bytes ∨ ∃ w ∈ values, encodeUtf8 w = some b) ∧
      (R.texts.Nodup → R'.texts.Nodup) ∧ (R.bytes.Nodup → R'.bytes.Nodup) := by
  induction values generalizing R with
  | nil =>
    cases h
    simp
  | cons value rest ih =>
    obtain ⟨R₁, hfirst, hrest⟩ := Except.bind_eq_ok_iff.mp h
    obtain ⟨hne, encoded, he, rfl⟩ := registerText_eq_ok.mp hfirst
    obtain ⟨hvalid, htexts, hbytes, hnodupTexts, hnodupBytes⟩ := ih hrest
    refine ⟨List.forall_mem_cons.mpr ⟨⟨hne, encoded, he⟩, hvalid⟩, ?_, ?_,
      fun h => hnodupTexts (nodup_setAdd h), fun h => hnodupBytes (nodup_setAdd h)⟩
    · intro w
      rw [htexts, List.mem_cons, ← or_assoc]
      refine or_congr_left ?_
      rw [or_comm]
      exact mem_setAdd
    · intro b
      rw [hbytes, List.exists_mem_cons_iff, ← or_assoc, he, Option.some.injEq]
      refine or_congr_left ?_
      rw [or_comm, eq_comm]
      exact mem_setAdd

theorem exists_foldlM_registerText {values : List Text}
    (h : ∀ value ∈ values, value ≠ [] ∧ ∃ encoded, encodeUtf8 value = some encoded)
    (R : Registered) : ∃ R', values.foldlM (fun R value => registerText value R) R = .ok R' := by
  induction values generalizing R with
  | nil => exact ⟨R, rfl⟩
  | cons value rest ih =>
    obtain ⟨⟨hne, encoded, he⟩, hrest⟩ := List.forall_mem_cons.mp h
    have hfirst := (@registerText_eq_ok value R _).mpr ⟨hne, encoded, he, rfl⟩
    obtain ⟨R', hR'⟩ := ih hrest ((R.addText value hne).addBytes encoded (encodeUtf8_ne_nil he hne))
    exact ⟨R', Except.bind_eq_ok_iff.mpr ⟨_, hfirst, hR'⟩⟩

/-- What the loop over the byte values registers. -/
theorem foldlM_registerBytes {values : List Bytes} {R R' : Registered}
    (h : values.foldlM (fun R value => registerBytes value R) R = .ok R') :
    (∀ value ∈ values, value ≠ []) ∧
      (∀ b, b ∈ R'.bytes ↔ b ∈ R.bytes ∨ b ∈ values) ∧
      (∀ w, w ∈ R'.texts ↔ w ∈ R.texts ∨ ∃ b ∈ values, decodeUtf8 b = some w) ∧
      (R.texts.Nodup → R'.texts.Nodup) ∧ (R.bytes.Nodup → R'.bytes.Nodup) := by
  induction values generalizing R with
  | nil =>
    cases h
    simp
  | cons value rest ih =>
    obtain ⟨R₁, hfirst, hrest⟩ := Except.bind_eq_ok_iff.mp h
    obtain ⟨hne, hbytes₁, htexts₁, hnodupTexts₁, hnodupBytes₁⟩ := registerBytes_eq_ok hfirst
    obtain ⟨hvalid, hbytes, htexts, hnodupTexts, hnodupBytes⟩ := ih hrest
    refine ⟨List.forall_mem_cons.mpr ⟨hne, hvalid⟩, ?_, ?_,
      fun h => hnodupTexts (hnodupTexts₁ h), fun h => hnodupBytes (hnodupBytes₁ h)⟩
    · intro b
      rw [hbytes, hbytes₁, List.mem_cons, or_assoc]
    · intro w
      rw [htexts, htexts₁, List.exists_mem_cons_iff, or_assoc]

theorem exists_foldlM_registerBytes {values : List Bytes} (h : ∀ value ∈ values, value ≠ [])
    (R : Registered) : ∃ R', values.foldlM (fun R value => registerBytes value R) R = .ok R' := by
  induction values generalizing R with
  | nil => exact ⟨R, rfl⟩
  | cons value rest ih =>
    obtain ⟨hne, hrest⟩ := List.forall_mem_cons.mp h
    obtain ⟨R₁, hfirst⟩ := exists_registerBytes hne R
    obtain ⟨R', hR'⟩ := ih hrest R₁
    exact ⟨R', Except.bind_eq_ok_iff.mpr ⟨R₁, hfirst, hR'⟩⟩

end Registered

theorem longestFirst_eq {α : Type} [LinearOrder α] {values values' : List (List α)}
    (h : values.Nodup) (h' : values'.Nodup) (hmem : ∀ w, w ∈ values ↔ w ∈ values') :
    longestFirst values = longestFirst values' := by
  refine sorted_eq_of_perm ?_ ((List.perm_ext_iff_of_nodup h h').mpr hmem)
  intro a _ b _ hkey
  exact (Prod.mk.inj (toLex.injective hkey)).2

namespace ProtectedValueRedactor

/-- What a constructor that returns has registered. -/
structure Registers (textValues : List Text) (byteValues : List Bytes) (R : Registered) : Prop where
  texts_valid : ∀ value ∈ textValues, value ≠ [] ∧ ∃ encoded, encodeUtf8 value = some encoded
  bytes_valid : ∀ value ∈ byteValues, value ≠ []
  texts : ∀ w, w ∈ R.texts ↔ RegisteredText textValues byteValues w
  bytes : ∀ b, b ∈ R.bytes ↔ RegisteredBytes textValues byteValues b
  nodup_texts : R.texts.Nodup
  nodup_bytes : R.bytes.Nodup

theorem new_eq_ok {textValues : List Text} {byteValues : List Bytes}
    {redactor : ProtectedValueRedactor} (h : new textValues byteValues = .ok redactor) :
    ∃ R, Registers textValues byteValues R ∧ redactor = ofRegistered R := by
  obtain ⟨R₁, htexts, h⟩ := Except.bind_eq_ok_iff.mp h
  obtain ⟨R, hbytes, h⟩ := Except.bind_eq_ok_iff.mp h
  cases h
  obtain ⟨hvalid, htexts₁, hbytes₁, hnodupTexts₁, hnodupBytes₁⟩ := Registered.foldlM_registerText htexts
  obtain ⟨hne, hbytes₂, htexts₂, hnodupTexts₂, hnodupBytes₂⟩ := Registered.foldlM_registerBytes hbytes
  refine ⟨R, ⟨hvalid, hne, ?_, ?_, hnodupTexts₂ (hnodupTexts₁ List.nodup_nil),
    hnodupBytes₂ (hnodupBytes₁ List.nodup_nil)⟩, rfl⟩
  · intro w
    rw [htexts₂, htexts₁]
    simp [Registered.empty, RegisteredText]
  · intro b
    rw [hbytes₂, hbytes₁]
    simp [Registered.empty, RegisteredBytes, or_comm]

/-- The constructor looks at the values one by one, so their order is of no account. -/
theorem new_of_mem_iff {textValues textValues' : List Text} {byteValues byteValues' : List Bytes}
    {redactor : ProtectedValueRedactor} (h : new textValues byteValues = .ok redactor)
    (htexts : ∀ w, w ∈ textValues' ↔ w ∈ textValues)
    (hbytes : ∀ b, b ∈ byteValues' ↔ b ∈ byteValues) :
    new textValues' byteValues' = .ok redactor := by
  obtain ⟨R, hR, rfl⟩ := new_eq_ok h
  obtain ⟨R₁, hR₁⟩ := Registered.exists_foldlM_registerText
    (fun value hvalue => hR.texts_valid value ((htexts value).mp hvalue)) .empty
  obtain ⟨R', hR'⟩ := Registered.exists_foldlM_registerBytes
    (fun value hvalue => hR.bytes_valid value ((hbytes value).mp hvalue)) R₁
  have hnew : new textValues' byteValues' = .ok (ofRegistered R') :=
    Except.bind_eq_ok_iff.mpr ⟨R₁, hR₁, Except.bind_eq_ok_iff.mpr ⟨R', hR', rfl⟩⟩
  obtain ⟨R₂, hR₂, hsame⟩ := new_eq_ok hnew
  rw [hnew, hsame]
  have htextValues : longestFirst R₂.texts = longestFirst R.texts := by
    refine longestFirst_eq hR₂.nodup_texts hR.nodup_texts ?_
    intro w
    rw [hR₂.texts, hR.texts]
    simp only [RegisteredText, htexts, hbytes]
  have hbyteValues : longestFirst R₂.bytes = longestFirst R.bytes := by
    refine longestFirst_eq hR₂.nodup_bytes hR.nodup_bytes ?_
    intro b
    rw [hR₂.bytes, hR.bytes]
    simp only [RegisteredBytes, htexts, hbytes]
  simp only [ofRegistered, htextValues, hbyteValues]

theorem mem_textValues {textValues : List Text} {byteValues : List Bytes}
    {redactor : ProtectedValueRedactor} (h : new textValues byteValues = .ok redactor) :
    (· ∈ redactor.textValues) = RegisteredText textValues byteValues := by
  obtain ⟨R, hR, rfl⟩ := new_eq_ok h
  funext w
  exact propext (mem_sorted.trans (hR.texts w))

theorem mem_byteValues {textValues : List Text} {byteValues : List Bytes}
    {redactor : ProtectedValueRedactor} (h : new textValues byteValues = .ok redactor) :
    (· ∈ redactor.byteValues) = RegisteredBytes textValues byteValues := by
  obtain ⟨R, hR, rfl⟩ := new_eq_ok h
  funext b
  exact propext (mem_sorted.trans (hR.bytes b))

/-! ## Section 4: Exactness -/

/-- Redaction replaces each union of overlapping occurrences by one marker, keeps
    the rest, and does not depend on the order of the registrations. -/
theorem redact_exact {textValues : List Text} {byteValues : List Bytes}
    {redactor : ProtectedValueRedactor} (h : new textValues byteValues = .ok redactor) :
    (∀ value, ∃ unions, Redacted REDACTION_TEXT (RegisteredText textValues byteValues) value
      (redactor.redactText value) unions) ∧
    (∀ value, ∃ unions, Redacted REDACTION_BYTES (RegisteredBytes textValues byteValues) value
      (redactor.redactBytes value) unions) ∧
    ∀ textValues' byteValues', (∀ w, w ∈ textValues' ↔ w ∈ textValues) →
      (∀ b, b ∈ byteValues' ↔ b ∈ byteValues) → new textValues' byteValues' = .ok redactor := by
  refine ⟨?_, ?_, fun _ _ => new_of_mem_iff h⟩
  · intro value
    have hredacted := redacted_redactSpans REDACTION_TEXT value redactor.text_ne
    rw [mem_textValues h] at hredacted
    exact ⟨_, hredacted⟩
  · intro value
    have hredacted := redacted_redactSpans REDACTION_BYTES value redactor.byte_ne
    rw [mem_byteValues h] at hredacted
    exact ⟨_, hredacted⟩

namespace Overlapping

def redactor : ProtectedValueRedactor :=
  ofRegistered ⟨[py "ab", py "bc"], [ascii "ab", ascii "bc"], by decide, by decide⟩

/-- Overlapping occurrences give one marker, touching ones two. -/
theorem redact_exact_abc :
    (∀ textValues' byteValues', (∀ w, w ∈ textValues' ↔ w ∈ [py "ab", py "bc"]) →
      (∀ b, b ∈ byteValues' ↔ b ∈ ([] : List Bytes)) → new textValues' byteValues' = .ok redactor) ∧
    redactor.redactText (py "xabcab-") = py "x[REDACTED][REDACTED]-" :=
  ⟨(@redact_exact [py "ab", py "bc"] [] redactor rfl).2.2, rfl⟩

end Overlapping

/-! ## Section 5: The test for protected text -/

/-- From the place on, the value already reads what redaction makes of it from the
    cursor on: each kept stretch and each marker at the place where it would go. -/
def Reads (marker value : Text) : Nat → Nat → List Span → Prop
  | place, cursor, [] => place = cursor
  | place, cursor, u :: rest =>
    slice value (place, place + (u.1 - cursor)) = slice value (cursor, u.1) ∧
      slice value (place + (u.1 - cursor), place + (u.1 - cursor) + marker.length) = marker ∧
      Reads marker value (place + (u.1 - cursor) + marker.length) u.2 rest

/-- There are occurrences, but with a marker in place of each of their unions the
    value reads as before. -/
def Disguised (registered : Text → Prop) (value : Text) : Prop :=
  ∃ unions, Unions registered value unions ∧ unions ≠ [] ∧
    Reads REDACTION_TEXT value 0 0 unions

theorem slice_add (value : Text) (place n : Nat) :
    slice value (place, place + n) = (value.drop place).take n := by
  simp [slice]

theorem redactFrom_eq_drop {marker value : Text} (hmarker : marker ≠ []) {place cursor : Nat}
    {unions : List Span} (hplace : place ≤ value.length) (hcursor : cursor ≤ value.length)
    (hseparate : Spans.Separate unions)
    (hbounds : ∀ u ∈ unions, u.1 < u.2 ∧ u.2 ≤ value.length) (hstart : ∀ u ∈ unions, cursor ≤ u.1) :
    redactFrom marker value cursor unions = value.drop place ↔
      Reads marker value place cursor unions := by
  induction unions generalizing place cursor with
  | nil =>
    rw [redactFrom, Reads]
    constructor
    · intro heq
      have hlength := congrArg List.length heq
      rw [List.length_drop, List.length_drop] at hlength
      omega
    · rintro rfl
      rfl
  | cons u rest ih =>
    obtain ⟨hnext, hseparate⟩ := List.pairwise_cons.mp hseparate
    obtain ⟨hu, hbounds⟩ := List.forall_mem_cons.mp hbounds
    have hcu := hstart u List.mem_cons_self
    have hgap : (slice value (cursor, u.1)).length = u.1 - cursor := by
      rw [slice, List.length_take, List.length_drop]
      dsimp only
      omega
    -- the redacted rest, cut where the kept stretch and the marker end
    have hcut : redactFrom marker value cursor (u :: rest) = value.drop place ↔
        (value.drop place).take (u.1 - cursor) = slice value (cursor, u.1) ∧
          (value.drop (place + (u.1 - cursor))).take marker.length = marker ∧
          redactFrom marker value u.2 rest =
            value.drop (place + (u.1 - cursor) + marker.length) := by
      rw [redactFrom, List.append_assoc, ← List.drop_drop, ← List.drop_drop, ← List.drop_drop]
      constructor
      · intro heq
        rw [← heq]
        refine ⟨List.take_left' hgap, ?_, ?_⟩
        · rw [List.drop_left' hgap, List.take_left]
        · rw [List.drop_left' hgap, List.drop_left]
      · rintro ⟨hkept, hmark, hrest⟩
        have h1 := List.take_append_drop (u.1 - cursor) (value.drop place)
        have h2 := List.take_append_drop marker.length ((value.drop place).drop (u.1 - cursor))
        rw [hmark, ← hrest] at h2
        rw [hkept, ← h2] at h1
        exact h1
    rw [hcut, Reads, slice_add, slice_add]
    refine and_congr_right fun _ => and_congr_right fun hmark => ?_
    -- the marker fits, so the next place is within the value
    have hfits := congrArg List.length hmark
    have hpos := List.length_pos_iff.mpr hmarker
    rw [List.length_take, List.length_drop] at hfits
    exact ih (by omega) hu.2 hseparate hbounds hnext

theorem infix_iff {registered : Text → Prop} {value : Text} :
    (∃ w, registered w ∧ w <:+: value) ↔ ∃ s, Occurrence registered value s := by
  constructor
  · rintro ⟨w, hw, before, after, rfl⟩
    refine ⟨(before.length, before.length + w.length), by simp, by simp, ?_⟩
    rw [slice_add, List.append_assoc, List.drop_left, List.take_left]
    exact hw
  · rintro ⟨s, hstart, hend, hregistered⟩
    exact ⟨_, hregistered, (List.take_prefix _ _).isInfix.trans (List.drop_suffix _ _).isInfix⟩

/-- The test is exact, except on a text that reads the same as its redaction. -/
theorem containsProtectedText_exact_iff {textValues : List Text} {byteValues : List Bytes}
    {redactor : ProtectedValueRedactor} (h : new textValues byteValues = .ok redactor) (value : Text) :
    (redactor.containsProtectedText value = true ↔
        ∃ w, RegisteredText textValues byteValues w ∧ w <:+: value) ↔
      ¬ Disguised (RegisteredText textValues byteValues) value := by
  have hne : ∀ w, RegisteredText textValues byteValues w → w ≠ [] := by
    intro w hw
    rw [← mem_textValues h] at hw
    exact redactor.text_ne w hw
  have hunions := @unions_merge _ _ value _ redactor.text_ne
  rw [mem_textValues h] at hunions
  have hdisguised : Disguised (RegisteredText textValues byteValues) value ↔
      Spans.merge (matchSpans value redactor.textValues) ≠ [] ∧ Reads REDACTION_TEXT value 0 0
        (Spans.merge (matchSpans value redactor.textValues)) := by
    constructor
    · rintro ⟨unions, hother, hnil, hreads⟩
      obtain rfl := hother.unique hunions hne
      exact ⟨hnil, hreads⟩
    · rintro ⟨hnil, hreads⟩
      exact ⟨_, hunions, hnil, hreads⟩
  have hcontains : redactor.containsProtectedText value = true ↔
      ¬ Reads REDACTION_TEXT value 0 0 (Spans.merge (matchSpans value redactor.textValues)) := by
    rw [← redactFrom_eq_drop (by decide) (Nat.zero_le _) (Nat.zero_le _) hunions.separate
      (fun u hu => hunions.bounds hne hu) fun u _ => Nat.zero_le u.1, ← redactSpans_eq]
    simp [containsProtectedText, redactText]
  have hoccurs : (∃ w, RegisteredText textValues byteValues w ∧ w <:+: value) ↔
      Spans.merge (matchSpans value redactor.textValues) ≠ [] := by
    rw [infix_iff, ← mem_textValues h]
    constructor
    · rintro ⟨s, hs⟩ hnil
      have hcovers := Spans.covers_merge.mpr ⟨s, mem_matchSpans.mpr hs, le_rfl, hs.lt redactor.text_ne⟩
      rw [hnil] at hcovers
      obtain ⟨u, hu, -⟩ := hcovers
      cases hu
    · intro hnil
      obtain ⟨u, hu⟩ := List.exists_mem_of_ne_nil _ hnil
      have hlt := (hunions.bounds hne hu).1
      obtain ⟨s, hs, -⟩ := Spans.covers_merge.mp ⟨u, hu, le_rfl, hlt⟩
      exact ⟨s, mem_matchSpans.mp hs⟩
  rw [hdisguised, hcontains, hoccurs]
  by_cases hnil : Spans.merge (matchSpans value redactor.textValues) = []
  · simp [hnil, Reads]
  · simp [hnil]

/-- A text in which the marker does not occur is tested exactly. -/
theorem marker_of_disguised {registered : Text → Prop} {value : Text}
    (h : Disguised registered value) : REDACTION_TEXT <:+: value := by
  obtain ⟨unions, -, hnil, hreads⟩ := h
  cases unions with
  | nil => exact absurd rfl hnil
  | cons u rest =>
    have hmark := hreads.2.1
    rw [← hmark]
    exact (List.take_prefix _ _).isInfix.trans (List.drop_suffix _ _).isInfix

namespace MarkerRegistered

def redactor : ProtectedValueRedactor :=
  ofRegistered ⟨[REDACTION_TEXT], [REDACTION_BYTES], by decide, by decide⟩

/-- The marker itself, registered as a value, is not found. -/
theorem containsProtectedText_marker :
    new [REDACTION_TEXT] [] = .ok redactor ∧
      ¬ (redactor.containsProtectedText REDACTION_TEXT = true ↔
        ∃ w, RegisteredText [REDACTION_TEXT] [] w ∧ w <:+: REDACTION_TEXT) := by
  refine ⟨rfl, ?_⟩
  intro hiff
  have htrue := hiff.mpr ⟨REDACTION_TEXT, .inl (List.mem_singleton_self _), List.infix_rfl⟩
  exact absurd htrue (by decide)

end MarkerRegistered

/-- With another text the same redactor is right. -/
theorem containsProtectedText_exact_iff_other :
    (MarkerRegistered.redactor.containsProtectedText (py "plain") = true ↔
        ∃ w, RegisteredText [REDACTION_TEXT] [] w ∧ w <:+: py "plain") ↔
      ¬ Disguised (RegisteredText [REDACTION_TEXT] []) (py "plain") :=
  @containsProtectedText_exact_iff [REDACTION_TEXT] [] MarkerRegistered.redactor rfl (py "plain")

end ProtectedValueRedactor
