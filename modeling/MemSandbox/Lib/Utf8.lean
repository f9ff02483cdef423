import MemSandbox.Lib.Text

/-! # Positions in UTF-8

    A position of a text has an offset in its UTF-8 bytes.  Encoding commutes
    with cutting at positions, and UTF-8 synchronises itself: the bytes of a
    text occur in the bytes of another only at the offset of a position where
    the text itself occurs (`encodeUtf8_synchronises`). -/

namespace Python

/-- The first byte of a code point is no continuation byte, the others are. -/
theorem encodeCodePoint_shape {c : CodePoint} {head : Bytes} (h : encodeCodePoint c = some head) :
    ∃ first rest, head = first :: rest ∧ isContinuation first = false ∧
      ∀ b ∈ rest, isContinuation b = true := by
  have hc := c.isLt
  have hbyte : ∀ n, n < 256 → (Fin.ofNat 256 n).val = n := fun n hn => Nat.mod_eq_of_lt hn
  have hrest : ∀ n, isContinuation (Fin.ofNat 256 (0x80 + n % 64)) = true := by
    intro n
    rw [isContinuation, hbyte _ (by omega)]
    simp
    omega
  unfold encodeCodePoint at h
  split at h
  · cases h
    refine ⟨_, _, rfl, ?_, List.forall_mem_nil _⟩
    rw [isContinuation, hbyte _ (by omega)]
    simp
    omega
  split at h
  · cases h
    refine ⟨_, _, rfl, ?_, by simpa using hrest _⟩
    rw [isContinuation, hbyte _ (by omega)]
    simp
  split at h
  · cases h
  split at h
  · cases h
    refine ⟨_, _, rfl, ?_, by simpa using ⟨hrest _, hrest _⟩⟩
    rw [isContinuation, hbyte _ (by omega)]
    simp
    omega
  · cases h
    refine ⟨_, _, rfl, ?_, by simpa using ⟨hrest _, hrest _, hrest _⟩⟩
    rw [isContinuation, hbyte _ (by omega)]
    simp
    omega

/-! ## Section 1: Offsets -/

/-- The number of bytes of a code point. -/
def width (c : CodePoint) : Nat := ((encodeCodePoint c).getD []).length

/-- The offset of a position; beyond the end it goes on byte by byte. -/
def offset (t : Text) (i : Nat) : Nat := ((t.take i).map width).sum + (i - t.length)

theorem width_eq {c : CodePoint} {head : Bytes} (h : encodeCodePoint c = some head) :
    width c = head.length := by
  rw [width, h, Option.getD_some]

theorem width_pos {c : CodePoint} {head : Bytes} (h : encodeCodePoint c = some head) :
    0 < width c := by
  obtain ⟨first, rest, rfl, -⟩ := encodeCodePoint_shape h
  rw [width_eq h]
  exact Nat.succ_pos _

@[simp] theorem offset_zero (t : Text) : offset t 0 = 0 := by
  simp [offset]

@[simp] theorem offset_cons_succ (c : CodePoint) (t : Text) (i : Nat) :
    offset (c :: t) (i + 1) = width c + offset t i := by
  simp [offset, Nat.add_assoc]

theorem length_of_encodeUtf8 {t : Text} {bytes : Bytes} (h : encodeUtf8 t = some bytes) :
    bytes.length = (t.map width).sum := by
  induction t generalizing bytes with
  | nil =>
    cases h
    rfl
  | cons c t ih =>
    obtain ⟨head, tail, hhead, htail, rfl⟩ := encodeUtf8_cons_eq_some.mp h
    rw [List.length_append, ih htail, List.map_cons, List.sum_cons, width_eq hhead]

theorem offset_length {t : Text} {bytes : Bytes} (h : encodeUtf8 t = some bytes) :
    offset t t.length = bytes.length := by
  rw [length_of_encodeUtf8 h, offset, List.take_length, Nat.sub_self, Nat.add_zero]

theorem offset_strictMono {t : Text} {bytes : Bytes} (h : encodeUtf8 t = some bytes) :
    StrictMono (offset t) := by
  refine strictMono_nat_of_lt_succ ?_
  intro i
  induction t generalizing bytes i with
  | nil => simp [offset]
  | cons c t ih =>
    obtain ⟨head, tail, hhead, htail, rfl⟩ := encodeUtf8_cons_eq_some.mp h
    cases i with
    | zero =>
      have := width_pos hhead
      rw [offset_zero, offset_cons_succ]
      omega
    | succ i =>
      have := ih htail i
      rw [offset_cons_succ, offset_cons_succ]
      omega

/-! ## Section 2: Cutting -/

theorem encodeUtf8_take_drop {t : Text} {bytes : Bytes} (h : encodeUtf8 t = some bytes) {i : Nat}
    (hi : i ≤ t.length) : encodeUtf8 (t.take i) = some (bytes.take (offset t i)) ∧
      encodeUtf8 (t.drop i) = some (bytes.drop (offset t i)) := by
  have hsplit := h
  rw [← List.take_append_drop i t] at hsplit
  obtain ⟨first, second, hfirst, hsecond, rfl⟩ := encodeUtf8_append_eq_some.mp hsplit
  have hlength : first.length = offset t i := by
    rw [length_of_encodeUtf8 hfirst, offset, Nat.sub_eq_zero_of_le hi, Nat.add_zero]
  rw [List.take_left' hlength, List.drop_left' hlength]
  exact ⟨hfirst, hsecond⟩

/-- The bytes of a piece are the piece of the bytes between the offsets. -/
theorem encodeUtf8_extract {t : Text} {bytes : Bytes} (h : encodeUtf8 t = some bytes) {i j : Nat}
    (hij : i ≤ j) (hj : j ≤ t.length) :
    encodeUtf8 ((t.drop i).take (j - i)) =
      some ((bytes.drop (offset t i)).take (offset t j - offset t i)) := by
  have htake : (t.drop i).take (j - i) = (t.take j).drop i := (List.drop_take ..).symm
  have hoffset : offset (t.take j) i = offset t i := by
    have hlength : (t.take j).length = j := by simp [hj]
    rw [offset, offset, List.take_take, min_eq_left hij, hlength]
    omega
  have hcut := (encodeUtf8_take_drop (encodeUtf8_take_drop h hj).1
    (by simp only [List.length_take]; omega : i ≤ (t.take j).length)).2
  rw [htake, hcut, hoffset, List.drop_take]

/-! ## Section 3: Synchronisation -/

theorem decodeUtf8_append {t : Text} {bytes : Bytes} (h : encodeUtf8 t = some bytes)
    (rest : Bytes) : decodeUtf8 (bytes ++ rest) = (decodeUtf8 rest).map (t ++ ·) := by
  induction t generalizing bytes with
  | nil =>
    cases h
    simp
  | cons c t ih =>
    obtain ⟨head, tail, hhead, htail, rfl⟩ := encodeUtf8_cons_eq_some.mp h
    rw [List.append_assoc, decodeUtf8_encodeCodePoint hhead, ih htail, Option.map_map]
    rfl

theorem prefix_of_encodeUtf8 {t w : Text} {bytes encoded : Bytes} (h : encodeUtf8 t = some bytes)
    (hw : encodeUtf8 w = some encoded) (hat : encoded <+: bytes) : w <+: t := by
  obtain ⟨rest, rfl⟩ := hat
  have hdecode := decodeUtf8_encodeUtf8 h
  rw [decodeUtf8_append hw] at hdecode
  obtain ⟨more, -, rfl⟩ := Option.map_eq_some_iff.mp hdecode
  exact List.prefix_append w more

/-- The bytes of a text occur only where the text does. -/
theorem encodeUtf8_synchronises {t w : Text} {bytes encoded : Bytes}
    (h : encodeUtf8 t = some bytes) (hw : encodeUtf8 w = some encoded) (hne : w ≠ []) {k : Nat}
    (hat : encoded <+: bytes.drop k) : ∃ i ≤ t.length, k = offset t i ∧ w <+: t.drop i := by
  obtain ⟨first, others, rfl, hfirst⟩ : ∃ first others, encoded = first :: others ∧
      isContinuation first = false := by
    cases w with
    | nil => exact absurd rfl hne
    | cons c w =>
      obtain ⟨head, tail, hhead, -, rfl⟩ := encodeUtf8_cons_eq_some.mp hw
      obtain ⟨first, rest, rfl, hfirst, -⟩ := encodeCodePoint_shape hhead
      exact ⟨first, rest ++ tail, rfl, hfirst⟩
  induction t generalizing bytes k with
  | nil =>
    cases h
    simp at hat
  | cons c t ih =>
    obtain ⟨head, tail, hhead, htail, hbytes⟩ := encodeUtf8_cons_eq_some.mp h
    rcases Nat.eq_zero_or_pos k with rfl | hpos
    · rw [List.drop_zero] at hat
      exact ⟨0, Nat.zero_le _, (offset_zero _).symm, prefix_of_encodeUtf8 h hw hat⟩
    by_cases hin : k < head.length
    · -- inside the first code point there are continuation bytes only
      obtain ⟨lead, rest, rfl, -, hrest⟩ := encodeCodePoint_shape hhead
      obtain ⟨k, rfl⟩ := Nat.exists_eq_succ_of_ne_zero hpos.ne'
      rw [List.length_cons] at hin
      obtain ⟨more, hmore⟩ := hat
      have hget := congrArg (·[0]?) hmore
      rw [hbytes] at hget
      simp only [List.cons_append, List.getElem?_cons_zero, List.drop_succ_cons,
        List.getElem?_drop, Nat.add_zero] at hget
      rw [List.getElem?_append_left (by omega)] at hget
      have := hrest first (List.mem_of_getElem? hget.symm)
      rw [hfirst] at this
      cases this
    · have hdrop : bytes.drop k = tail.drop (k - head.length) := by
        rw [hbytes, List.drop_append, List.drop_eq_nil_of_le (by omega), List.nil_append]
      rw [hdrop] at hat
      obtain ⟨i, hi, hk, hocc⟩ := ih htail hat
      refine ⟨i + 1, by simpa using hi, ?_, hocc⟩
      rw [offset_cons_succ, width_eq hhead, ← hk]
      omega

/-! ## Section 4: Decoding -/

theorem ofNat_eq_byte {n : Nat} {b : Byte} (h : n = b.val) : Fin.ofNat 256 n = b := by
  subst h
  exact Fin.ofNat_val_eq_self b

/-- What decodes starts with the bytes of a code point, in the only form they have. -/
theorem decodeUtf8_cons_eq_some {b₀ : Byte} {rest : Bytes} {t : Text}
    (h : decodeUtf8 (b₀ :: rest) = some t) : ∃ c head tail text, b₀ :: rest = head ++ tail ∧
      head ≠ [] ∧ encodeCodePoint c = some head ∧ decodeUtf8 tail = some text ∧ t = c :: text := by
  have hval : ∀ n, n < 0x110000 → (Fin.ofNat 0x110000 n).val = n := fun n hn => Nat.mod_eq_of_lt hn
  rw [decodeUtf8.eq_def] at h
  simp only at h
  split at h
  · next hone =>
    obtain ⟨text, htext, rfl⟩ := Option.map_eq_some_iff.mp h
    refine ⟨_, [b₀], rest, text, rfl, List.cons_ne_nil _ _, ?_, htext, rfl⟩
    rw [encodeCodePoint, hval _ (by omega), if_pos hone, ofNat_eq_byte rfl]
  next hone =>
  split at h
  · cases h
  next b₁ rest =>
  split at h
  · next htwo =>
    split at h
    · next hcont =>
      obtain ⟨text, htext, rfl⟩ := Option.map_eq_some_iff.mp h
      refine ⟨_, [b₀, b₁], rest, text, rfl, List.cons_ne_nil _ _, ?_, htext, rfl⟩
      simp only [isContinuation, Bool.and_eq_true, decide_eq_true_eq] at hcont
      rw [encodeCodePoint, hval _ (by omega), if_neg (by omega), if_pos (by omega),
        @ofNat_eq_byte _ b₀ (by omega), @ofNat_eq_byte _ b₁ (by omega)]
    · cases h
  next htwo =>
  split at h
  · cases h
  next b₂ rest =>
  split at h
  · next hthree =>
    split at h
    · next hcont =>
      obtain ⟨text, htext, rfl⟩ := Option.map_eq_some_iff.mp h
      refine ⟨_, [b₀, b₁, b₂], rest, text, rfl, List.cons_ne_nil _ _, ?_, htext, rfl⟩
      simp only [isContinuation, Bool.and_eq_true, decide_eq_true_eq] at hcont
      have hsurrogate : ¬ CodePoint.isSurrogate (Fin.ofNat 0x110000
          ((b₀.val - 0xE0) * 4096 + (b₁.val - 0x80) * 64 + (b₂.val - 0x80))) = true := by
        simp only [CodePoint.isSurrogate, hval _ (show (b₀.val - 0xE0) * 4096 +
          (b₁.val - 0x80) * 64 + (b₂.val - 0x80) < 0x110000 by omega), Bool.and_eq_true,
          decide_eq_true_eq]
        exact hcont.2.2.2
      rw [encodeCodePoint, if_neg hsurrogate, hval _ (by omega), if_neg (by omega),
        if_neg (by omega), if_pos (by omega), @ofNat_eq_byte _ b₀ (by omega),
        @ofNat_eq_byte _ b₁ (by omega), @ofNat_eq_byte _ b₂ (by omega)]
    · cases h
  next hthree =>
  split at h
  · cases h
  next b₃ rest =>
  split at h
  · next hcont =>
    obtain ⟨text, htext, rfl⟩ := Option.map_eq_some_iff.mp h
    refine ⟨_, [b₀, b₁, b₂, b₃], rest, text, rfl, List.cons_ne_nil _ _, ?_, htext, rfl⟩
    simp only [isContinuation, Bool.and_eq_true, decide_eq_true_eq] at hcont
    have hsurrogate : ¬ CodePoint.isSurrogate (Fin.ofNat 0x110000 ((b₀.val - 0xF0) * 262144 +
        (b₁.val - 0x80) * 4096 + (b₂.val - 0x80) * 64 + (b₃.val - 0x80))) = true := by
      simp only [CodePoint.isSurrogate, hval _ hcont.2.2.2.2.2, Bool.and_eq_true,
        decide_eq_true_eq]
      omega
    rw [encodeCodePoint, if_neg hsurrogate, hval _ hcont.2.2.2.2.2, if_neg (by omega),
      if_neg (by omega), if_neg (by omega), @ofNat_eq_byte _ b₀ (by omega),
      @ofNat_eq_byte _ b₁ (by omega), @ofNat_eq_byte _ b₂ (by omega),
      @ofNat_eq_byte _ b₃ (by omega)]
  · cases h

/-- Encoding undoes decoding. -/
theorem encodeUtf8_of_decodeUtf8 {bytes : Bytes} {t : Text} (h : decodeUtf8 bytes = some t) :
    encodeUtf8 t = some bytes := by
  induction t generalizing bytes with
  | nil =>
    cases bytes with
    | nil => rfl
    | cons b rest =>
      obtain ⟨c, head, tail, text, -, -, -, -, h⟩ := decodeUtf8_cons_eq_some h
      cases h
  | cons c t ih =>
    cases bytes with
    | nil => cases h
    | cons b rest =>
      obtain ⟨_, head, tail, _, hsplit, -, hhead, htail, h⟩ := decodeUtf8_cons_eq_some h
      cases h
      rw [hsplit]
      exact encodeUtf8_cons_eq_some.mpr ⟨head, tail, hhead, ih htail, rfl⟩

/-! ## Section 5: ASCII separators -/

/-- A byte below `0x80` is the code point itself, and no part of another. -/
theorem eq_singleton_of_mem {c : CodePoint} {head : Bytes} {b : Byte}
    (h : encodeCodePoint c = some head) (hb : b.val < 0x80) (hmem : b ∈ head) :
    head = [b] ∧ c.val = b.val := by
  have hhigh : ∀ n, 0x80 ≤ n → n < 256 → b ≠ Fin.ofNat 256 n := by
    intro n hlow hlt heq
    rw [heq, show (Fin.ofNat 256 n).val = n from Nat.mod_eq_of_lt hlt] at hb
    omega
  have hc := c.isLt
  unfold encodeCodePoint at h
  split at h
  · cases h
    rw [List.mem_singleton] at hmem
    exact ⟨by rw [hmem], by rw [hmem]; exact (Nat.mod_eq_of_lt (by omega)).symm⟩
  -- every byte of a longer form is at least `0x80`
  split at h
  · cases h
    simp [hhigh _ (show 0x80 ≤ 0xC0 + c.val / 64 by omega) (by omega),
      hhigh _ (show 0x80 ≤ 0x80 + c.val % 64 by omega) (by omega), -Fin.ofNat_eq_cast] at hmem
  split at h
  · cases h
  split at h
  · cases h
    simp [hhigh _ (show 0x80 ≤ 0xE0 + c.val / 4096 by omega) (by omega),
      hhigh _ (show 0x80 ≤ 0x80 + c.val / 64 % 64 by omega) (by omega),
      hhigh _ (show 0x80 ≤ 0x80 + c.val % 64 by omega) (by omega), -Fin.ofNat_eq_cast] at hmem
  · cases h
    simp [hhigh _ (show 0x80 ≤ 0xF0 + c.val / 262144 by omega) (by omega),
      hhigh _ (show 0x80 ≤ 0x80 + c.val / 4096 % 64 by omega) (by omega),
      hhigh _ (show 0x80 ≤ 0x80 + c.val / 64 % 64 by omega) (by omega),
      hhigh _ (show 0x80 ≤ 0x80 + c.val % 64 by omega) (by omega), -Fin.ofNat_eq_cast] at hmem

theorem encodeCodePoint_of_lt {c : CodePoint} {b : Byte} (hb : b.val < 0x80) (h : c.val = b.val) :
    encodeCodePoint c = some [b] := by
  rw [encodeCodePoint, if_pos (by omega), ofNat_eq_byte h]

/-- Bytes without the separator go to the first piece. -/
theorem splitOn_append_of_not_mem {b : Byte} {head bytes : Bytes} (h : b ∉ head) :
    (head ++ bytes).splitOn b = (bytes.splitOn b).modifyHead (head ++ ·) := by
  induction head with
  | nil => cases hs : bytes.splitOn b <;> simp [hs]
  | cons a head ih =>
    rw [List.mem_cons, not_or] at h
    rw [List.cons_append, List.splitOn_cons_eq_if_modifyHead, ih h.2]
    cases hs : bytes.splitOn b with
    | nil => exact absurd hs (List.splitOn_ne_nil b bytes)
    | cons first rest => simp [Ne.symm h.1]

/-- Encoding commutes with splitting at an ASCII separator. -/
theorem splitOn_encodeUtf8 {sep : CodePoint} {b : Byte} (hb : b.val < 0x80) (hsep : sep.val = b.val)
    {t : Text} {bytes : Bytes} (h : encodeUtf8 t = some bytes) :
    List.Forall₂ (fun s piece => encodeUtf8 s = some piece) (split sep t) (bytes.splitOn b) := by
  induction t generalizing bytes with
  | nil =>
    cases h
    simp [split]
  | cons c t ih =>
    obtain ⟨head, tail, hhead, htail, rfl⟩ := encodeUtf8_cons_eq_some.mp h
    have hpieces := ih htail
    by_cases hc : c = sep
    · subst hc
      rw [encodeCodePoint_of_lt hb hsep, Option.some.injEq] at hhead
      subst hhead
      rw [split_cons_sep, List.singleton_append, List.splitOn_cons_eq_if_modifyHead]
      simpa using hpieces
    · have hno : b ∉ head := by
        intro hmem
        have hval := (eq_singleton_of_mem hhead hb hmem).2
        exact hc (Fin.ext (hval.trans hsep.symm))
      obtain ⟨first, rest, hs, hcons⟩ := split_cons_of_ne hc t
      rw [hs] at hpieces
      rw [hcons, splitOn_append_of_not_mem hno]
      cases hp : tail.splitOn b with
      | nil => exact absurd hp (List.splitOn_ne_nil b tail)
      | cons piece pieces =>
        rw [hp, List.forall₂_cons] at hpieces
        rw [List.modifyHead_cons, List.forall₂_cons]
        exact ⟨encodeUtf8_cons_eq_some.mpr ⟨head, piece, hhead, hpieces.1, rfl⟩, hpieces.2⟩

end Python
