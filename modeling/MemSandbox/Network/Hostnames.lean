import MemSandbox.Network.Destination

/-! # Normalised host names

    A policy is asked about the name that `NetworkPolicyRequest` makes of the
    name of the URL, and a resolved address is copied by parsing its text
    again.  Neither changes anything: `normalizeHostname_idem` and
    `ResolvedHttpAddress.new_value`. -/

open Python

variable [NetworkLibrary]

/-! ## Section 1: Labels -/

omit [NetworkLibrary] in
theorem mem_hostLabel {label : Text} (h : isHostLabel label = true) {c : CodePoint}
    (hc : c ∈ label) : isLabelEnd c = true ∨ c = CodePoint.ofChar '-' := by
  simp only [isHostLabel, Bool.and_eq_true, List.all_eq_true, Bool.or_eq_true,
    decide_eq_true_eq] at h
  exact h.1.1.2 c hc

omit [NetworkLibrary] in
theorem hostLabel_ne_nil {label : Text} (h : isHostLabel label = true) : label ≠ [] := by
  simp only [isHostLabel, Bool.and_eq_true, decide_eq_true_eq] at h
  exact h.1.1.1.1

omit [NetworkLibrary] in
theorem length_hostLabel {label : Text} (h : isHostLabel label = true) : label.length ≤ 63 := by
  simp only [isHostLabel, Bool.and_eq_true, decide_eq_true_eq] at h
  exact h.1.1.1.2

/-- What the characters of a label are to the rest of the grammar. -/
theorem labelCharacter {c : CodePoint} (h : isLabelEnd c = true ∨ c = CodePoint.ofChar '-') :
    c.val < 128 ∧ lowerAscii c = c ∧ c ≠ CodePoint.ofChar '.' ∧ c ≠ CodePoint.ofChar ':' ∧
      c ≠ CodePoint.ofChar '%' ∧ isSpace c = false := by
  have hrange : (0x30 ≤ c.val ∧ c.val ≤ 0x39) ∨ (0x61 ≤ c.val ∧ c.val ≤ 0x7A) ∨ c.val = 0x2D := by
    rcases h with h | h
    · simp only [isLabelEnd, Bool.or_eq_true, Bool.and_eq_true, decide_eq_true_eq] at h
      omega
    · subst h
      exact .inr (.inr rfl)
  have hne : ∀ d : CodePoint, d.val = 0x2E ∨ d.val = 0x3A ∨ d.val = 0x25 → c ≠ d := by
    intro d hd heq
    subst heq
    omega
  refine ⟨by omega, ?_, hne _ (.inl rfl), hne _ (.inr (.inl rfl)), hne _ (.inr (.inr rfl)), ?_⟩
  · unfold lowerAscii
    rw [if_neg (by omega)]
  · unfold isSpace
    rw [if_pos (by omega)]
    simp only [Bool.or_eq_false_iff, Bool.and_eq_false_iff, decide_eq_false_iff_not]
    omega

theorem isAscii_hostLabel {label : Text} (h : isHostLabel label = true) : isAscii label = true := by
  unfold isAscii
  rw [List.all_eq_true]
  intro c hc
  exact decide_eq_true (labelCharacter (mem_hostLabel h hc)).1

theorem lower_hostLabel {label : Text} (h : isHostLabel label = true) : lower label = label := by
  unfold lower
  rw [if_pos (isAscii_hostLabel h)]
  apply (List.map_congr_left fun c hc => ?_).trans (List.map_id label)
  exact (labelCharacter (mem_hostLabel h hc)).2.1

/-- A label in its final form is its own IDNA form. -/
theorem encodeLabel_hostLabel {label : Text} (h : isHostLabel label = true) :
    encodeLabel label = some label := by
  have hnfc : nfc label = label := if_pos (isAscii_hostLabel h)
  have hdot : CodePoint.ofChar '.' ∉ label := by
    intro hmem
    exact (labelCharacter (mem_hostLabel h hmem)).2.2.1 rfl
  have hidna : idnaEncode label = some label := by
    unfold idnaEncode
    have hlength := length_hostLabel h
    simp [isAscii_hostLabel h, hdot, show label.length < 64 by omega]
  unfold encodeLabel
  simp [hnfc, lower_hostLabel h, hidna, isAscii_hostLabel h]

theorem mapM_encodeLabel {labels : List Text} (h : labels.all isHostLabel = true) :
    labels.mapM encodeLabel = some labels := by
  induction labels with
  | nil => rfl
  | cons label labels ih =>
    rw [List.all_cons, Bool.and_eq_true] at h
    rw [List.mapM_cons, encodeLabel_hostLabel h.1, ih h.2]
    rfl

/-! ## Section 2: Addresses as text -/

omit [NetworkLibrary] in
theorem parseOctet_ofNat (n : Fin 256) : parseOctet (.ofNat n.val) = some n.val := by
  revert n
  decide +kernel

/-- The decimal digit `d`. -/
def digit (d : Fin 10) : CodePoint := Fin.ofNat 0x110000 (0x30 + d.val)

omit [NetworkLibrary] in
theorem eq_digit {c : CodePoint} (h : 0x30 ≤ c.val ∧ c.val ≤ 0x39) : ∃ d, c = digit d := by
  refine ⟨⟨c.val - 0x30, by omega⟩, ?_⟩
  apply Fin.ext
  show c.val = (0x30 + (c.val - 0x30)) % 0x110000
  omega

omit [NetworkLibrary] in
/-- The texts of up to three digits, octet by octet. -/
theorem ofNat_of_parseOctet_digits :
    (∀ a, ∀ n ∈ parseOctet [digit a], Text.ofNat n = [digit a]) ∧
    (∀ a b, ∀ n ∈ parseOctet [digit a, digit b], Text.ofNat n = [digit a, digit b]) ∧
    (∀ a b c, ∀ n ∈ parseOctet [digit a, digit b, digit c],
      Text.ofNat n = [digit a, digit b, digit c]) := by
  decide +kernel

omit [NetworkLibrary] in
/-- An octet has one text. -/
theorem ofNat_of_parseOctet {t : Text} {n : Nat} (h : parseOctet t = some n) :
    Text.ofNat n = t ∧ n ≤ 255 := by
  have hshape : t ≠ [] ∧ t.length ≤ 3 ∧ ∀ c ∈ t, 0x30 ≤ c.val ∧ c.val ≤ 0x39 := by
    unfold parseOctet at h
    split at h
    · rename_i hcond
      refine ⟨hcond.1, hcond.2.1, ?_⟩
      intro c hc
      simpa using List.all_eq_true.mp hcond.2.2.1 c hc
    · exact nomatch h
  have hbound : n ≤ 255 := by
    unfold parseOctet at h
    simp only [Option.ite_none_right_eq_some, Option.some.injEq] at h
    omega
  refine ⟨?_, hbound⟩
  obtain ⟨hne, hlength, hdigits⟩ := hshape
  match t, hne, hlength, hdigits with
  | [a], _, _, hdigits =>
    obtain ⟨a, rfl⟩ := eq_digit (hdigits a (by simp))
    exact ofNat_of_parseOctet_digits.1 a n h
  | [a, b], _, _, hdigits =>
    obtain ⟨a, rfl⟩ := eq_digit (hdigits a (by simp))
    obtain ⟨b, rfl⟩ := eq_digit (hdigits b (by simp))
    exact ofNat_of_parseOctet_digits.2.1 a b n h
  | [a, b, c], _, _, hdigits =>
    obtain ⟨a, rfl⟩ := eq_digit (hdigits a (by simp))
    obtain ⟨b, rfl⟩ := eq_digit (hdigits b (by simp))
    obtain ⟨c, rfl⟩ := eq_digit (hdigits c (by simp))
    exact ofNat_of_parseOctet_digits.2.2 a b c n h
  | _ :: _ :: _ :: _ :: _, _, hlength, _ =>
    simp only [List.length_cons] at hlength
    omega

omit [NetworkLibrary] in
/-- The characters of an octet. -/
theorem mem_octet (n : Fin 256) {c : CodePoint} (hc : c ∈ Text.ofNat n.val) :
    0x30 ≤ c.val ∧ c.val ≤ 0x39 := by
  have hall : ∀ n : Fin 256,
      (Text.ofNat n.val).all (fun c => 0x30 ≤ c.val && c.val ≤ 0x39) = true := by
    decide +kernel
  simpa using List.all_eq_true.mp (hall n) c hc

omit [NetworkLibrary] in
/-- An address with the octets `a`, `b`, `c` and `d`. -/
theorem ipv4Text_quad {a b c d : Nat} (ha : a ≤ 255) (hb : b ≤ 255) (hc : c ≤ 255) (hd : d ≤ 255) :
    ipv4Text (Fin.ofNat (2 ^ 32) (((a * 256 + b) * 256 + c) * 256 + d)) =
      join (py ".") [.ofNat a, .ofNat b, .ofNat c, .ofNat d] := by
  have hval : (Fin.ofNat (2 ^ 32) (((a * 256 + b) * 256 + c) * 256 + d)).val =
      ((a * 256 + b) * 256 + c) * 256 + d := by
    rw [Fin.val_ofNat, Nat.mod_eq_of_lt]
    omega
  have h24 : (((a * 256 + b) * 256 + c) * 256 + d) / 2 ^ 24 = a := by omega
  have h16 : (((a * 256 + b) * 256 + c) * 256 + d) / 2 ^ 16 % 256 = b := by omega
  have h8 : (((a * 256 + b) * 256 + c) * 256 + d) / 2 ^ 8 % 256 = c := by omega
  have h0 : (((a * 256 + b) * 256 + c) * 256 + d) % 256 = d := by omega
  unfold ipv4Text
  rw [hval, h24, h16, h8, h0]

omit [NetworkLibrary] in
/-- An IPv4 address has one text. -/
theorem ipv4Text_of_parseIpv4 {t : Text} {address : Fin (2 ^ 32)} (h : parseIpv4 t = some address) :
    ipv4Text address = t := by
  unfold parseIpv4 at h
  split at h
  · rename_i a b c d hsplit
    simp only [Option.bind_eq_bind, Option.bind_eq_some_iff, Option.pure_def,
      Option.some.injEq] at h
    obtain ⟨na, ha, nb, hb, nc, hc, nd, hd, rfl⟩ := h
    obtain ⟨ta, hna⟩ := ofNat_of_parseOctet ha
    obtain ⟨tb, hnb⟩ := ofNat_of_parseOctet hb
    obtain ⟨tc, hnc⟩ := ofNat_of_parseOctet hc
    obtain ⟨td, hnd⟩ := ofNat_of_parseOctet hd
    rw [ipv4Text_quad hna hnb hnc hnd, ta, tb, tc, td, ← hsplit]
    exact join_split _ t
  · exact nomatch h

omit [NetworkLibrary] in
theorem parseIpv4_text (address : Fin (2 ^ 32)) : parseIpv4 (ipv4Text address) = some address := by
  have hbound := address.isLt
  have hoctet : ∀ n < 256, parseOctet (.ofNat n) = some n := fun n hn => parseOctet_ofNat ⟨n, hn⟩
  have hdot : ∀ n < 256, CodePoint.ofChar '.' ∉ Text.ofNat n := by
    intro n hn hmem
    have hdigit := mem_octet ⟨n, hn⟩ hmem
    have hvalue : (CodePoint.ofChar '.').val = 0x2E := rfl
    omega
  have hsplit : split (CodePoint.ofChar '.') (ipv4Text address) =
      [.ofNat (address.val / 2 ^ 24), .ofNat (address.val / 2 ^ 16 % 256),
        .ofNat (address.val / 2 ^ 8 % 256), .ofNat (address.val % 256)] := by
    apply split_join
    · intro s hs
      simp only [List.mem_cons, List.not_mem_nil, or_false] at hs
      rcases hs with rfl | rfl | rfl | rfl
      · exact hdot _ (by omega)
      · exact hdot _ (by omega)
      · exact hdot _ (by omega)
      · exact hdot _ (by omega)
    · exact List.cons_ne_nil _ _
  unfold parseIpv4
  rw [hsplit]
  simp only [hoctet _ (show address.val / 2 ^ 24 < 256 by omega),
    hoctet _ (show address.val / 2 ^ 16 % 256 < 256 by omega),
    hoctet _ (show address.val / 2 ^ 8 % 256 < 256 by omega),
    hoctet _ (show address.val % 256 < 256 by omega), Option.bind_eq_bind, Option.bind_some,
    Option.pure_def, Option.some.injEq]
  apply Fin.ext
  rw [Fin.val_ofNat]
  omega

/-- The characters of an address. -/
theorem mem_compressed {address : IpAddress} {c : CodePoint} (hc : c ∈ address.compressed) :
    c ∈ py "0123456789abcdef:." := by
  cases address with
  | v6 a => exact NetworkLibrary.text_characters a c hc
  | v4 a =>
    have hbound := a.isLt
    have hdigit : ∀ n < 256, c ∈ Text.ofNat n → c ∈ py "0123456789abcdef:." := by
      intro n hn hmem
      obtain ⟨d, rfl⟩ := eq_digit (mem_octet ⟨n, hn⟩ hmem)
      have hall : ∀ d, digit d ∈ py "0123456789abcdef:." := by decide
      exact hall d
    have hdot : c ∈ py "." → c ∈ py "0123456789abcdef:." := by
      intro h
      obtain rfl := List.mem_singleton.mp h
      decide
    simp only [IpAddress.compressed, ipv4Text, join_cons, List.flatMap_cons, List.flatMap_nil,
      List.append_nil, List.mem_append] at hc
    rcases hc with h | (h | h) | (h | h) | h | h
    · exact hdigit _ (by omega) h
    · exact hdot h
    · exact hdigit _ (by omega) h
    · exact hdot h
    · exact hdigit _ (by omega) h
    · exact hdot h
    · exact hdigit _ (by omega) h

/-- An address is read back from its text. -/
theorem ipAddress_compressed (address : IpAddress) : ipAddress address.compressed = some address := by
  unfold ipAddress
  cases address with
  | v6 a =>
    show (if CodePoint.ofChar ':' ∈ NetworkLibrary.ipv6Text a then _ else _) = _
    rw [if_pos (NetworkLibrary.text_colon a)]
    show (NetworkLibrary.parseIpv6 (NetworkLibrary.ipv6Text a)).map IpAddress.v6 = some (.v6 a)
    rw [NetworkLibrary.parse_text]
    rfl
  | v4 a =>
    have hbound := a.isLt
    have hdigit : ∀ n < 256, CodePoint.ofChar ':' ∉ Text.ofNat n := by
      intro n hn hmem
      have hdigit := mem_octet ⟨n, hn⟩ hmem
      have hvalue : (CodePoint.ofChar ':').val = 0x3A := rfl
      omega
    have hdot : CodePoint.ofChar ':' ∉ py "." := by decide
    have hcolon : CodePoint.ofChar ':' ∉ ipv4Text a := by
      simp only [ipv4Text, join_cons, List.flatMap_cons, List.flatMap_nil, List.append_nil,
        List.mem_append, not_or]
      exact ⟨hdigit _ (by omega), ⟨hdot, hdigit _ (by omega)⟩, ⟨hdot, hdigit _ (by omega)⟩,
        hdot, hdigit _ (by omega)⟩
    show (if CodePoint.ofChar ':' ∈ ipv4Text a then _ else _) = _
    rw [if_neg hcolon]
    show (parseIpv4 (ipv4Text a)).map IpAddress.v4 = some (.v4 a)
    rw [parseIpv4_text]
    rfl

/-- A text without a colon is the only text of its address. -/
theorem compressed_of_ipAddress {t : Text} {address : IpAddress}
    (hcolon : CodePoint.ofChar ':' ∉ t) (h : ipAddress t = some address) :
    address.compressed = t := by
  unfold ipAddress at h
  rw [if_neg hcolon, Option.map_eq_some_iff] at h
  obtain ⟨a, ha, rfl⟩ := h
  exact ipv4Text_of_parseIpv4 ha

/-- A resolved address is copied by its value. -/
theorem ResolvedHttpAddress.new_value (address : ResolvedHttpAddress) :
    ResolvedHttpAddress.new address.value = .ok address := by
  have hscope : CodePoint.ofChar '%' ∉ address.value := by
    intro h
    have hmem := mem_compressed h
    revert hmem
    decide
  unfold ResolvedHttpAddress.new
  rw [require, if_pos hscope]
  dsimp only [bind, Except.bind]
  rw [show address.value = address.ip.compressed from rfl, ipAddress_compressed]

/-! ## Section 3: Normalisation -/

/-- Labels in their final form are no IPv6 address. -/
theorem colon_not_mem_labels {labels : List Text} (h : labels.all isHostLabel = true) :
    CodePoint.ofChar ':' ∉ join (py ".") labels := by
  have hlabel : ∀ s ∈ labels, CodePoint.ofChar ':' ∉ s := by
    intro s hs hmem
    exact (labelCharacter (mem_hostLabel (List.all_eq_true.mp h s hs) hmem)).2.2.2.1 rfl
  have hdot : CodePoint.ofChar ':' ∉ py "." := by decide
  cases labels with
  | nil => exact List.not_mem_nil
  | cons label labels =>
    rw [join_cons, List.mem_append, not_or]
    refine ⟨hlabel label List.mem_cons_self, ?_⟩
    intro hmem
    obtain ⟨s, hs, hmem⟩ := List.mem_flatMap.mp hmem
    rcases List.mem_append.mp hmem with hmem | hmem
    · exact hdot hmem
    · exact hlabel s (List.mem_cons_of_mem _ hs) hmem

omit [NetworkLibrary] in
/-- Labels in their final form come apart again. -/
theorem split_labels {labels : List Text} (hlabels : labels.all isHostLabel = true)
    (hne : labels ≠ []) : split (CodePoint.ofChar '.') (join (py ".") labels) = labels := by
  have hdot : ∀ s ∈ labels, CodePoint.ofChar '.' ∉ s := by
    intro s hs hmem
    rcases mem_hostLabel (List.all_eq_true.mp hlabels s hs) hmem with h | h
    · revert h
      decide
    · revert h
      decide
  exact split_join hdot hne

omit [NetworkLibrary] in
theorem endsWith_labels {labels : List Text} (hlabels : labels.all isHostLabel = true)
    (hne : labels ≠ []) : endsWith (join (py ".") labels) (py ".") = false := by
  rw [Bool.eq_false_iff]
  intro hends
  obtain ⟨pre, hpre⟩ := endsWith_iff.mp hends
  have hsplit' : split (CodePoint.ofChar '.') (pre ++ CodePoint.ofChar '.' :: []) = labels := by
    rw [← split_labels hlabels hne, ← hpre]
    rfl
  rw [split_append_cons] at hsplit'
  have hnil : ([] : Text) ∈ labels := by
    rw [← hsplit']
    exact List.mem_append_right _ (by decide)
  exact hostLabel_ne_nil (List.all_eq_true.mp hlabels _ hnil) rfl

omit [NetworkLibrary] in
theorem withoutFinalDot_labels {labels : List Text} (hlabels : labels.all isHostLabel = true)
    (hne : labels ≠ []) : withoutFinalDot (join (py ".") labels) = join (py ".") labels := by
  unfold withoutFinalDot
  rw [endsWith_labels hlabels hne]
  rfl

/-- The canonical form of labels in their final form is theirs again. -/
theorem normalizeLabels_idem {labels : List Text} {name : Text}
    (hlabels : labels.all isHostLabel = true) (hne : labels ≠ [])
    (h : normalizeLabels (withoutFinalDot (join (py ".") labels)) = .ok name) :
    name = join (py ".") labels := by
  rw [withoutFinalDot_labels hlabels hne] at h
  unfold normalizeLabels at h
  rw [split_labels hlabels hne, mapM_encodeLabel hlabels] at h
  obtain ⟨_, _, h⟩ := Except.bind_eq_ok_iff.mp h
  obtain ⟨_, _, h⟩ := Except.bind_eq_ok_iff.mp h
  obtain ⟨_, _, h⟩ := Except.bind_eq_ok_iff.mp h
  exact (Except.ok.inj h).symm

/-- A normalised name is not changed by another normalisation. -/
theorem normalizeHostname_idem {hostname name name' : Text} (h : normalizeHostname hostname = .ok name)
    (h' : normalizeHostname name = .ok name') : name' = name := by
  obtain ⟨_, _, h⟩ := Except.bind_eq_ok_iff.mp h
  obtain ⟨_, _, h'⟩ := Except.bind_eq_ok_iff.mp h'
  cases hparsed : ipAddress hostname with
  | some address =>
    rw [hparsed] at h
    obtain rfl := Except.ok.inj h
    rw [ipAddress_compressed] at h'
    exact (Except.ok.inj h').symm
  | none =>
    rw [hparsed] at h
    obtain ⟨_, _, h⟩ := Except.bind_eq_ok_iff.mp h
    cases hlabels : (split (CodePoint.ofChar '.') (withoutFinalDot hostname)).mapM encodeLabel with
    | none =>
      rw [hlabels] at h
      exact nomatch h
    | some labels =>
      rw [hlabels] at h
      obtain ⟨_, hall, h⟩ := Except.bind_eq_ok_iff.mp h
      obtain ⟨_, _, h⟩ := Except.bind_eq_ok_iff.mp h
      obtain rfl := Except.ok.inj h
      rw [require_eq_ok] at hall
      have hne : labels ≠ [] := by
        intro hnil
        obtain ⟨first, rest, hfirst⟩ := List.exists_cons_of_ne_nil
          (split_ne_nil (CodePoint.ofChar '.') (withoutFinalDot hostname))
        rw [hfirst, hnil] at hlabels
        simp [Option.bind_eq_some_iff] at hlabels
      cases hagain : ipAddress (join (py ".") labels) with
      | some address =>
        rw [hagain] at h'
        obtain rfl := Except.ok.inj h'
        exact compressed_of_ipAddress (colon_not_mem_labels hall) hagain
      | none =>
        rw [hagain] at h'
        exact normalizeLabels_idem hall hne h'
