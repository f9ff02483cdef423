import MemSandbox.Network.UrlParse
import MemSandbox.Network.Sending
import MemSandbox.Lib.Json

/-! # Normalised URLs

    Normalising the canonical form of a URL gives the same URL again: each
    component is in its final form after one pass, and `urlsplit` cuts the
    canonical form where `normalizeHttpUrl` joined it. -/

open Python

/-! ## Section 1: Percent escapes -/

abbrev percent : CodePoint := CodePoint.ofChar '%'

/-- A hexadecimal digit in upper case. -/
def isUpperHexDigit (c : CodePoint) : Bool := c ∈ py "0123456789ABCDEF"

/-- A character that `quote` leaves alone. -/
def isQuoteSafe (safe : Text) (c : CodePoint) : Bool :=
  UrlParse.isAlwaysSafe c || (c.val < 128 && c ∈ safe)

/-- A component in its final form. -/
inductive Escaped (safe : Text) : Text → Prop
  | nil : Escaped safe []
  | plain {c : CodePoint} {t : Text} (hsafe : isQuoteSafe safe c = true) (hne : c ≠ percent)
      (rest : Escaped safe t) : Escaped safe (c :: t)
  | escape {a b : CodePoint} {t : Text} (ha : isUpperHexDigit a = true)
      (hb : isUpperHexDigit b = true) (rest : Escaped safe t) :
      Escaped safe (percent :: a :: b :: t)

theorem upperHexDigit_upper {n : Nat} (h : n < 16) :
    isUpperHexDigit (UrlParse.upperHexDigit n) = true := by
  have hall : ∀ n : Fin 16, isUpperHexDigit (UrlParse.upperHexDigit n.val) = true := by decide
  exact hall ⟨n, h⟩

/-- What the digits in upper case are to the rest of the grammar. -/
theorem upperHexDigit_facts {c : CodePoint} (h : isUpperHexDigit c = true) :
    isHexDigit c = true ∧ upperHex c = c ∧ UrlParse.isAlwaysSafe c = true ∧ c.val < 128 ∧
      c ≠ percent := by
  have htable : (py "0123456789ABCDEF").all (fun c => isHexDigit c && upperHex c = c &&
      UrlParse.isAlwaysSafe c && c.val < 128 && c ≠ percent) = true := by decide
  have hrow := List.all_eq_true.mp htable c (of_decide_eq_true h)
  simp only [Bool.and_eq_true, decide_eq_true_eq] at hrow
  exact ⟨hrow.1.1.1.1, hrow.1.1.1.2, hrow.1.1.2, hrow.1.2, hrow.2⟩

theorem upperHex_of_hexDigit {c : CodePoint} (h : isHexDigit c = true) :
    isUpperHexDigit (upperHex c) = true ∧ UrlParse.isAlwaysSafe c = true ∧ c.val < 128 := by
  have htable : (py "0123456789abcdefABCDEF").all (fun c => isUpperHexDigit (upperHex c) &&
      UrlParse.isAlwaysSafe c && c.val < 128) = true := by decide
  have hrow := List.all_eq_true.mp htable c (of_decide_eq_true h)
  simp only [Bool.and_eq_true, decide_eq_true_eq] at hrow
  exact ⟨hrow.1.1, hrow.1.2, hrow.2⟩

theorem upperEscapes_cons {c : CodePoint} (h : c ≠ percent) (t : Text) :
    upperEscapes (c :: t) = c :: upperEscapes t := by
  conv_lhs => unfold upperEscapes
  rw [if_neg h]

theorem upperEscapes_escape {a b : CodePoint} (ha : isHexDigit a = true) (hb : isHexDigit b = true)
    (t : Text) :
    upperEscapes (percent :: a :: b :: t) =
      percent :: upperHex a :: upperHex b :: upperEscapes t := by
  rw [upperEscapes, if_pos rfl, ha, hb]
  rfl

theorem hasValidEscapes_cons {c : CodePoint} (h : c ≠ percent) (t : Text) :
    hasValidEscapes (c :: t) = hasValidEscapes t := by
  conv_lhs => unfold hasValidEscapes
  rw [if_neg h]

theorem encodeCodePoint_ascii {c : CodePoint} (h : c.val < 128) :
    encodeCodePoint c = some [⟨c.val, by omega⟩] := by
  unfold encodeCodePoint
  rw [if_pos h]
  congr 2
  apply Fin.ext
  exact Nat.mod_eq_of_lt (by omega)

/-- Beyond ASCII every byte is beyond ASCII. -/
theorem encodeCodePoint_beyond {c : CodePoint} (h : 128 ≤ c.val) {head : Bytes}
    (hhead : encodeCodePoint c = some head) : ∀ b ∈ head, 128 ≤ b.val := by
  have hbyte : ∀ n, n < 256 → (Fin.ofNat 256 n).val = n := fun n hn => Nat.mod_eq_of_lt hn
  have hc := c.isLt
  unfold encodeCodePoint at hhead
  rw [if_neg (by omega)] at hhead
  split at hhead
  · cases hhead
    intro b hb
    simp only [List.mem_cons, List.not_mem_nil, or_false] at hb
    rcases hb with rfl | rfl
    · rw [hbyte _ (by omega)]; omega
    · rw [hbyte _ (by omega)]; omega
  split at hhead
  · cases hhead
  split at hhead
  · cases hhead
    intro b hb
    simp only [List.mem_cons, List.not_mem_nil, or_false] at hb
    rcases hb with rfl | rfl | rfl
    · rw [hbyte _ (by omega)]; omega
    · rw [hbyte _ (by omega)]; omega
    · rw [hbyte _ (by omega)]; omega
  · cases hhead
    intro b hb
    simp only [List.mem_cons, List.not_mem_nil, or_false] at hb
    rcases hb with rfl | rfl | rfl | rfl
    · rw [hbyte _ (by omega)]; omega
    · rw [hbyte _ (by omega)]; omega
    · rw [hbyte _ (by omega)]; omega
    · rw [hbyte _ (by omega)]; omega

section Component

variable {safe : Text}

theorem isQuoteSafe_val {c : CodePoint} (h : isQuoteSafe safe c = true) : c.val < 128 := by
  have htable : (py "_.-~").all (fun c => decide (c.val < 128)) = true := by decide
  simp only [isQuoteSafe, UrlParse.isAlwaysSafe, isAlphanumeric, Bool.or_eq_true,
    Bool.and_eq_true, decide_eq_true_eq] at h
  rcases h with (((h | h) | h) | h) | h
  · omega
  · omega
  · omega
  · exact of_decide_eq_true (List.all_eq_true.mp htable c h)
  · exact h.1

theorem isQuoteSafe_of_alwaysSafe {c : CodePoint} (h : UrlParse.isAlwaysSafe c = true) :
    isQuoteSafe safe c = true := by
  rw [isQuoteSafe, h, Bool.true_or]

/-- What is written for one byte, before the rest of a component. -/
theorem quoteByte_cases (b : Byte) :
    (∃ c : CodePoint, c.val = b.val ∧ isQuoteSafe safe c = true ∧
      UrlParse.quoteByte safe b = [c]) ∨
    (∃ x y, isUpperHexDigit x = true ∧ isUpperHexDigit y = true ∧
      UrlParse.quoteByte safe b = [percent, x, y]) := by
  have hb := b.isLt
  by_cases hsafe : isQuoteSafe safe (CodePoint.ofByte b) = true
  · exact .inl ⟨_, rfl, hsafe, if_pos hsafe⟩
  · exact .inr ⟨_, _, upperHexDigit_upper (by omega), upperHexDigit_upper (by omega),
      if_neg hsafe⟩

theorem Escaped.quoteByte {b : Byte} (hb : b.val ≠ 0x25) {t : Text}
    (h : Escaped safe (upperEscapes t)) :
    Escaped safe (upperEscapes (UrlParse.quoteByte safe b ++ t)) := by
  rcases @quoteByte_cases safe b with ⟨c, hval, hsafe, hquote⟩ | ⟨x, y, hx, hy, hquote⟩
  · have hne : c ≠ percent := by
      rintro rfl
      exact hb hval.symm
    rw [hquote]
    show Escaped safe (upperEscapes (c :: t))
    rw [upperEscapes_cons hne]
    exact .plain hsafe hne h
  · obtain ⟨hxhex, hxupper, -⟩ := upperHexDigit_facts hx
    obtain ⟨hyhex, hyupper, -⟩ := upperHexDigit_facts hy
    rw [hquote]
    show Escaped safe (upperEscapes (percent :: x :: y :: t))
    rw [upperEscapes_escape hxhex hyhex, hxupper, hyupper]
    exact .escape hx hy h

theorem Escaped.quoteBytes {bytes : Bytes} (hbytes : ∀ b ∈ bytes, b.val ≠ 0x25) {t : Text}
    (h : Escaped safe (upperEscapes t)) :
    Escaped safe (upperEscapes (bytes.flatMap (UrlParse.quoteByte safe) ++ t)) := by
  induction bytes with
  | nil => exact h
  | cons b bytes ih =>
    rw [List.flatMap_cons, List.append_assoc]
    exact (ih fun b hb => hbytes b (List.mem_cons_of_mem _ hb)).quoteByte
      (hbytes b List.mem_cons_self)

/-- A safe ASCII character is its own quotation. -/
theorem quote_cons_safe {c : CodePoint} (h : isQuoteSafe safe c = true) {t q : Text}
    (hq : UrlParse.quote t safe = some q) : UrlParse.quote (c :: t) safe = some (c :: q) := by
  unfold UrlParse.quote at hq ⊢
  obtain ⟨bytes, hbytes, rfl⟩ := Option.map_eq_some_iff.mp hq
  apply Option.map_eq_some_iff.mpr
  refine ⟨⟨c.val, by have := isQuoteSafe_val h; omega⟩ :: bytes, ?_, ?_⟩
  · exact encodeUtf8_cons_eq_some.mpr ⟨_, bytes, encodeCodePoint_ascii (isQuoteSafe_val h), hbytes,
      rfl⟩
  · rw [List.flatMap_cons]
    have hquote : UrlParse.quoteByte safe ⟨c.val, by have := isQuoteSafe_val h; omega⟩ = [c] :=
      if_pos h
    rw [hquote]
    rfl

theorem quote_cons {c : CodePoint} {t q : Text} (h : UrlParse.quote (c :: t) safe = some q) :
    ∃ head rest, encodeCodePoint c = some head ∧ UrlParse.quote t safe = some rest ∧
      q = head.flatMap (UrlParse.quoteByte safe) ++ rest := by
  unfold UrlParse.quote at h ⊢
  obtain ⟨bytes, hbytes, rfl⟩ := Option.map_eq_some_iff.mp h
  obtain ⟨head, tail, hhead, htail, rfl⟩ := encodeUtf8_cons_eq_some.mp hbytes
  exact ⟨head, _, hhead, Option.map_eq_some_iff.mpr ⟨tail, htail, rfl⟩, List.flatMap_append⟩

/-- One pass brings a component to its final form. -/
theorem escaped_quote (hpercent : percent ∈ safe) {t q : Text} (hvalid : hasValidEscapes t = true)
    (hq : UrlParse.quote t safe = some q) : Escaped safe (upperEscapes q) := by
  have hpercentSafe : isQuoteSafe safe percent = true := by
    rw [isQuoteSafe, decide_eq_true hpercent, Bool.or_eq_true]
    exact .inr rfl
  induction t using hasValidEscapes.induct generalizing q with
  | case1 =>
    cases hq
    exact .nil
  | case2 a b rest ih =>
    -- an escape is quoted as it is
    rw [hasValidEscapes, if_pos rfl] at hvalid
    simp only [Bool.and_eq_true] at hvalid
    obtain ⟨⟨ha, hb⟩, hrest⟩ := hvalid
    obtain ⟨hupperA, hsafeA, -⟩ := upperHex_of_hexDigit ha
    obtain ⟨hupperB, hsafeB, -⟩ := upperHex_of_hexDigit hb
    obtain ⟨_, q1, -, hq1, -⟩ := quote_cons hq
    obtain ⟨_, q2, -, hq2, -⟩ := quote_cons hq1
    obtain ⟨_, q3, -, hq3, -⟩ := quote_cons hq2
    have hwhole := quote_cons_safe hpercentSafe (quote_cons_safe (isQuoteSafe_of_alwaysSafe hsafeA)
      (quote_cons_safe (isQuoteSafe_of_alwaysSafe hsafeB) hq3))
    rw [hwhole] at hq
    cases hq
    rw [upperEscapes_escape ha hb]
    exact .escape hupperA hupperB (ih hrest hq3)
  | case3 rest hshort =>
    rw [hasValidEscapes, if_pos rfl] at hvalid
    · cases hvalid
    · exact hshort
  | case4 c rest hne ih =>
    rw [hasValidEscapes_cons hne] at hvalid
    obtain ⟨head, q', hhead, hq', rfl⟩ := quote_cons hq
    apply (ih hvalid hq').quoteBytes
    intro b hb
    by_cases hascii : c.val < 128
    · rw [encodeCodePoint_ascii hascii] at hhead
      cases hhead
      rw [List.mem_singleton.mp hb]
      intro hval
      exact hne (Fin.ext hval)
    · have := encodeCodePoint_beyond (Nat.le_of_not_lt hascii) hhead b hb
      omega

/-- A component in its final form is not changed by another pass. -/
theorem Escaped.stable (hpercent : percent ∈ safe) {t : Text} (h : Escaped safe t) :
    hasValidEscapes t = true ∧ UrlParse.quote t safe = some t ∧ upperEscapes t = t := by
  have hpercentSafe : isQuoteSafe safe percent = true := by
    rw [isQuoteSafe, decide_eq_true hpercent, Bool.or_eq_true]
    exact .inr rfl
  induction h with
  | nil => exact ⟨rfl, rfl, rfl⟩
  | plain hsafe hne _ ih =>
    obtain ⟨hvalid, hquote, hupper⟩ := ih
    refine ⟨?_, quote_cons_safe hsafe hquote, ?_⟩
    · rw [hasValidEscapes_cons hne]
      exact hvalid
    · rw [upperEscapes_cons hne, hupper]
  | escape ha hb _ ih =>
    obtain ⟨hvalid, hquote, hupper⟩ := ih
    obtain ⟨hhexA, hupperA, hsafeA, -⟩ := upperHexDigit_facts ha
    obtain ⟨hhexB, hupperB, hsafeB, -⟩ := upperHexDigit_facts hb
    refine ⟨?_, ?_, ?_⟩
    · rw [hasValidEscapes, if_pos rfl, hhexA, hhexB, hvalid]
      rfl
    · exact quote_cons_safe hpercentSafe (quote_cons_safe (isQuoteSafe_of_alwaysSafe hsafeA)
        (quote_cons_safe (isQuoteSafe_of_alwaysSafe hsafeB) hquote))
    · rw [upperEscapes_escape hhexA hhexB, hupperA, hupperB, hupper]

theorem Escaped.mem (hpercent : percent ∈ safe) {t : Text} (h : Escaped safe t) :
    ∀ c ∈ t, isQuoteSafe safe c = true := by
  have hpercentSafe : isQuoteSafe safe percent = true := by
    rw [isQuoteSafe, decide_eq_true hpercent, Bool.or_eq_true]
    exact .inr rfl
  induction h with
  | nil => exact List.forall_mem_nil _
  | plain hsafe _ _ ih => exact List.forall_mem_cons.mpr ⟨hsafe, ih⟩
  | escape ha hb _ ih =>
    have hsafe : ∀ c, isUpperHexDigit c = true → isQuoteSafe safe c = true := fun c hc =>
      isQuoteSafe_of_alwaysSafe (upperHexDigit_facts hc).2.2.1
    exact List.forall_mem_cons.mpr ⟨hpercentSafe, List.forall_mem_cons.mpr ⟨hsafe _ ha,
      List.forall_mem_cons.mpr ⟨hsafe _ hb, ih⟩⟩⟩

end Component

/-! ## Section 2: Host names -/

/-- What lower case makes of a character. -/
theorem lowerAscii_cases (c : CodePoint) : lowerAscii c = c ∨
    (0x41 ≤ c.val ∧ c.val ≤ 0x5A ∧ (lowerAscii c).val = c.val + 32) := by
  unfold lowerAscii
  by_cases hupper : 0x41 ≤ c.val ∧ c.val ≤ 0x5A
  · rw [if_pos hupper]
    refine .inr ⟨hupper.1, hupper.2, ?_⟩
    show (c.val + 32) % 0x110000 = c.val + 32
    omega
  · rw [if_neg hupper]
    exact .inl rfl

theorem lowerAscii_idem (c : CodePoint) : lowerAscii (lowerAscii c) = lowerAscii c := by
  rcases lowerAscii_cases c with h | ⟨hle, -, hval⟩
  · rw [h, h]
  · rcases lowerAscii_cases (lowerAscii c) with h | ⟨-, hle', -⟩
    · exact h
    · omega

theorem isAscii_lowerAscii {t : Text} (h : isAscii t = true) :
    isAscii (t.map lowerAscii) = true := by
  simp only [isAscii, List.all_eq_true, List.mem_map, decide_eq_true_eq] at h ⊢
  rintro _ ⟨c, hc, rfl⟩
  rcases lowerAscii_cases c with heq | ⟨-, hle, hval⟩
  · rw [heq]
    exact h c hc
  · omega

/-- The lower case of a component of a numeric host is one only if the component is. -/
theorem isNumericPart_of_lower {t : Text} (h : isNumericPart (t.map lowerAscii) = true) :
    isNumericPart t = true := by
  have hdigit : ∀ c : CodePoint, 0x30 ≤ (lowerAscii c).val ∧ (lowerAscii c).val ≤ 0x39 →
      lowerAscii c = c := by
    intro c hc
    rcases lowerAscii_cases c with h | h
    · exact h
    · omega
  have hx : ∀ c : CodePoint, lowerAscii c ∈ py "xX" → c ∈ py "xX" := by
    intro c hc
    rcases lowerAscii_cases c with h | ⟨hle, -, hval⟩
    · rwa [h] at hc
    · have hall : (py "xX").all (fun d => d.val < 0x61 || d.val - 32 = 0x58) = true := by decide
      have hrow := List.all_eq_true.mp hall _ hc
      simp only [Bool.or_eq_true, decide_eq_true_eq] at hrow
      have hupper : c = CodePoint.ofChar 'X' := Fin.ext (by show c.val = 0x58; omega)
      rw [hupper]
      decide
  have hhex : ∀ c : CodePoint, lowerAscii c ∈ py "0123456789abcdefABCDEF" →
      c ∈ py "0123456789abcdefABCDEF" := by
    intro c hc
    rcases lowerAscii_cases c with h | ⟨hle, -, hval⟩
    · rwa [h] at hc
    · have hall : (py "0123456789abcdefABCDEF").all
          (fun d => d.val < 0x61 || (d - 32) ∈ py "0123456789abcdefABCDEF") = true := by decide
      have hrow := List.all_eq_true.mp hall _ hc
      simp only [Bool.or_eq_true, decide_eq_true_eq] at hrow
      have hback : lowerAscii c - 32 = c := by
        apply Fin.ext
        show (0x110000 - 32 + (lowerAscii c).val) % 0x110000 = c.val
        omega
      rw [hback] at hrow
      exact hrow.resolve_left (by omega)
  simp only [isNumericPart, Bool.or_eq_true, Bool.and_eq_true, decide_eq_true_eq, ne_eq,
    List.all_eq_true] at h ⊢
  rcases h with ⟨hne, hdigits⟩ | h
  · refine .inl ⟨fun hnil => hne (by rw [hnil]; rfl), ?_⟩
    intro c hc
    have hrange := hdigits _ (List.mem_map_of_mem hc)
    rwa [hdigit c hrange] at hrange
  · right
    match t, h with
    | zero :: x :: digits, h =>
      simp only [List.map_cons, Bool.and_eq_true, decide_eq_true_eq, List.all_eq_true] at h ⊢
      obtain ⟨⟨⟨hzero, hmark⟩, hne⟩, hall⟩ := h
      refine ⟨⟨⟨?_, hx x hmark⟩, fun hnil => hne (by rw [hnil]; rfl)⟩, ?_⟩
      · rw [← hzero]
        exact (hdigit zero (by rw [hzero]; decide)).symm
      · exact fun c hc => hhex c (hall _ (List.mem_map_of_mem hc))

section Hosts

variable [NetworkLibrary]

/-- How a host name came to be normalised. -/
theorem normalizeHostname_cases {hostname name : Text} (h : normalizeHostname hostname = .ok name) :
    (∃ address, name = IpAddress.compressed address) ∨
    (∃ labels, labels.all isHostLabel = true ∧ labels ≠ [] ∧ name = join (py ".") labels ∧
      name.length ≤ MAX_HOSTNAME_BYTES ∧ isAmbiguousNumericHost (withoutFinalDot hostname) = false ∧
      (split (CodePoint.ofChar '.') (withoutFinalDot hostname)).mapM encodeLabel = some labels) := by
  obtain ⟨_, _, h⟩ := Except.bind_eq_ok_iff.mp h
  cases hparsed : ipAddress hostname with
  | some address =>
    rw [hparsed] at h
    exact .inl ⟨address, (Except.ok.inj h).symm⟩
  | none =>
    rw [hparsed] at h
    obtain ⟨_, hform, h⟩ := Except.bind_eq_ok_iff.mp h
    rw [require_eq_ok] at hform
    cases hlabels : (split (CodePoint.ofChar '.') (withoutFinalDot hostname)).mapM encodeLabel with
    | none =>
      rw [hlabels] at h
      exact nomatch h
    | some labels =>
      rw [hlabels] at h
      obtain ⟨_, hall, h⟩ := Except.bind_eq_ok_iff.mp h
      obtain ⟨_, hlength, h⟩ := Except.bind_eq_ok_iff.mp h
      obtain rfl := Except.ok.inj h
      rw [require_eq_ok] at hall hlength
      refine .inr ⟨labels, hall, ?_, rfl, hlength, hform.2.2, rfl⟩
      rintro rfl
      obtain ⟨first, rest, hfirst⟩ := List.exists_cons_of_ne_nil
        (split_ne_nil (CodePoint.ofChar '.') (withoutFinalDot hostname))
      rw [hfirst] at hlabels
      simp [Option.bind_eq_some_iff] at hlabels

/-- The characters of a normalised name that is no IPv6 address. -/
def isDnsCharacter (c : CodePoint) : Bool := isLabelEnd c || c ∈ py "-."

/-- The forms of a normalised host name. -/
inductive HostForm : Text → Prop
  | v6 (a : Fin (2 ^ 128)) : HostForm (NetworkLibrary.ipv6Text a)
  | name {t : Text} (hne : t ≠ []) (h : ∀ c ∈ t, isDnsCharacter c = true) : HostForm t

omit [NetworkLibrary] in
theorem labels_characters {labels : List Text} (h : labels.all isHostLabel = true) :
    ∀ c ∈ join (py ".") labels, isDnsCharacter c = true := by
  have hlabel : ∀ s ∈ labels, ∀ c ∈ s, isDnsCharacter c = true := by
    intro s hs c hc
    unfold isDnsCharacter
    rcases mem_hostLabel (List.all_eq_true.mp h s hs) hc with hend | rfl
    · rw [hend, Bool.true_or]
    · decide
  have hdot : ∀ c ∈ py ".", isDnsCharacter c = true := by
    intro c hc
    rw [List.mem_singleton.mp hc]
    decide
  cases labels with
  | nil => exact List.forall_mem_nil _
  | cons label labels =>
    intro c hc
    rw [join_cons] at hc
    rcases List.mem_append.mp hc with hc | hc
    · exact hlabel label List.mem_cons_self c hc
    · obtain ⟨s, hs, hc⟩ := List.mem_flatMap.mp hc
      rcases List.mem_append.mp hc with hc | hc
      · exact hdot c hc
      · exact hlabel s (List.mem_cons_of_mem _ hs) c hc

omit [NetworkLibrary] in
theorem ipv4Text_characters (a : Fin (2 ^ 32)) :
    ipv4Text a ≠ [] ∧ ∀ c ∈ ipv4Text a, isDnsCharacter c = true := by
  have hbound := a.isLt
  have hoctet : ∀ n < 256, ∀ c ∈ Text.ofNat n, isDnsCharacter c = true := by
    intro n hn c hc
    have hdigit := mem_octet ⟨n, hn⟩ hc
    simp only [isDnsCharacter, isLabelEnd, Bool.or_eq_true, Bool.and_eq_true, decide_eq_true_eq]
    exact .inl (.inl hdigit)
  have hdot : ∀ c ∈ py ".", isDnsCharacter c = true := by
    intro c hc
    rw [List.mem_singleton.mp hc]
    decide
  constructor
  · rw [ipv4Text, join_cons_cons]
    exact List.append_ne_nil_of_left_ne_nil
      (List.append_ne_nil_of_right_ne_nil _ (by decide)) _
  · intro c hc
    simp only [ipv4Text, join_cons, List.flatMap_cons, List.flatMap_nil,
      List.append_nil, List.mem_append] at hc
    rcases hc with h | (h | h) | (h | h) | h | h
    · exact hoctet _ (by omega) c h
    · exact hdot c h
    · exact hoctet _ (by omega) c h
    · exact hdot c h
    · exact hoctet _ (by omega) c h
    · exact hdot c h
    · exact hoctet _ (by omega) c h

omit [NetworkLibrary] in
theorem labels_ne_nil {labels : List Text} (h : labels.all isHostLabel = true) (hne : labels ≠ []) :
    join (py ".") labels ≠ [] := by
  cases labels with
  | nil => exact absurd rfl hne
  | cons label labels =>
    rw [join_cons]
    exact List.append_ne_nil_of_left_ne_nil
      (hostLabel_ne_nil (List.all_eq_true.mp h label List.mem_cons_self)) _

theorem normalizeHostname_form {hostname name : Text} (h : normalizeHostname hostname = .ok name) :
    HostForm name := by
  rcases normalizeHostname_cases h with ⟨address, rfl⟩ | ⟨labels, hall, hne, rfl, -⟩
  · cases address with
    | v4 a => exact .name (ipv4Text_characters a).1 (ipv4Text_characters a).2
    | v6 a => exact .v6 a
  · exact .name (labels_ne_nil hall hne) (labels_characters hall)

/-- A label of ASCII is encoded as its lower case. -/
theorem mapM_encodeLabel_ascii {labels encoded : List Text} (hascii : ∀ s ∈ labels, isAscii s = true)
    (hdot : ∀ s ∈ labels, CodePoint.ofChar '.' ∉ s) (h : labels.mapM encodeLabel = some encoded) :
    encoded = labels.map fun s => s.map lowerAscii := by
  induction labels generalizing encoded with
  | nil =>
    cases h
    rfl
  | cons s labels ih =>
    rw [List.forall_mem_cons] at hascii hdot
    rw [List.mapM_cons] at h
    simp only [Option.bind_eq_bind, Option.bind_eq_some_iff, Option.pure_def,
      Option.some.injEq] at h
    obtain ⟨first, hfirst, rest, hrest, rfl⟩ := h
    rw [ih hascii.2 hdot.2 hrest, List.map_cons]
    congr 1
    have hnfc : nfc s = s := if_pos hascii.1
    have hlower : lower s = s.map lowerAscii := if_pos hascii.1
    have hmap : isAscii (s.map lowerAscii) = true := isAscii_lowerAscii hascii.1
    have hagain : lower (s.map lowerAscii) = s.map lowerAscii := by
      unfold lower
      rw [if_pos hmap, List.map_map]
      exact List.map_congr_left fun c _ => lowerAscii_idem c
    have hnodot : CodePoint.ofChar '.' ∉ s.map lowerAscii := by
      intro hmem
      obtain ⟨c, hc, heq⟩ := List.mem_map.mp hmem
      rcases lowerAscii_cases c with hsame | ⟨hle, -, hval⟩
      · rw [hsame] at heq
        exact hdot.1 (heq ▸ hc)
      · rw [heq] at hval
        have hvalue : (CodePoint.ofChar '.').val = 0x2E := rfl
        omega
    unfold encodeLabel at hfirst
    rw [hnfc, hlower, hascii.1] at hfirst
    obtain ⟨encodedLabel, hencoded, hresult⟩ := Option.bind_eq_some_iff.mp hfirst
    rw [if_pos rfl, Option.some.injEq] at hresult
    unfold idnaEncode at hencoded
    rw [hmap, decide_eq_true hnodot] at hencoded
    obtain ⟨-, hsame⟩ := Option.ite_none_right_eq_some.mp hencoded
    rw [← hresult, ← Option.some.inj hsame, hagain]

omit [NetworkLibrary] in
theorem split_ascii {t : Text} (h : isAscii t = true) :
    ∀ s ∈ split (CodePoint.ofChar '.') t, isAscii s = true := by
  intro s hs
  rw [isAscii, List.all_eq_true] at h ⊢
  exact fun c hc => h c ((mem_split hs).2 hc)

/-- The characters of a host. -/
def isHostCharacter (c : CodePoint) : Bool := isDnsCharacter c || c = CodePoint.ofChar ':'

omit [NetworkLibrary] in
theorem isHostCharacter_facts {c : CodePoint} (h : isHostCharacter c = true) :
    0x21 ≤ c.val ∧ c.val < 0x7F ∧ c ∉ py "%@/?#[]\\" ∧ lowerAscii c = c := by
  have htable : (py "%@/?#[]\\").all (fun d => !isHostCharacter d) = true := by decide
  have hnot : c ∉ py "%@/?#[]\\" := by
    intro hmem
    have hrow := List.all_eq_true.mp htable c hmem
    rw [h] at hrow
    cases hrow
  have hvalue : c = CodePoint.ofChar '-' ∨ c = CodePoint.ofChar '.' ∨ c = CodePoint.ofChar ':' →
      c.val = 0x2D ∨ c.val = 0x2E ∨ c.val = 0x3A := by
    rintro (rfl | rfl | rfl)
    · exact .inl rfl
    · exact .inr (.inl rfl)
    · exact .inr (.inr rfl)
  have hrange : (0x30 ≤ c.val ∧ c.val ≤ 0x39) ∨ (0x61 ≤ c.val ∧ c.val ≤ 0x7A) ∨
      c.val = 0x2D ∨ c.val = 0x2E ∨ c.val = 0x3A := by
    simp only [isHostCharacter, isDnsCharacter, isLabelEnd, Bool.or_eq_true, Bool.and_eq_true,
      decide_eq_true_eq] at h
    rcases h with ((h | h) | h) | h
    · exact .inl h
    · exact .inr (.inl h)
    · rcases List.mem_cons.mp h with h | h
      · exact .inr (.inr (hvalue (.inl h)))
      · exact .inr (.inr (hvalue (.inr (.inl (List.mem_singleton.mp h)))))
    · exact .inr (.inr (hvalue (.inr (.inr h))))
  refine ⟨by omega, by omega, hnot, ?_⟩
  unfold lowerAscii
  rw [if_neg (by omega)]

theorem HostForm.character {name : Text} (h : HostForm name) :
    ∀ c ∈ name, isHostCharacter c = true := by
  intro c hc
  cases h with
  | v6 a =>
    have htable : (py "0123456789abcdef:.").all isHostCharacter = true := by decide
    exact List.all_eq_true.mp htable c (NetworkLibrary.text_characters a c hc)
  | name _ hname => rw [isHostCharacter, hname c hc, Bool.true_or]

theorem HostForm.ne_nil {name : Text} (h : HostForm name) : name ≠ [] := by
  cases h with
  | v6 a => exact List.ne_nil_of_mem (NetworkLibrary.text_colon a)
  | name hne _ => exact hne

/-- A normalised name passes the first check of a name. -/
theorem HostForm.checked {name : Text} (h : HostForm name) :
    name ≠ [] ∧ CodePoint.ofChar '%' ∉ name ∧ name.any isSpace = false := by
  refine ⟨h.ne_nil, fun hmem => (isHostCharacter_facts (h.character _ hmem)).2.2.1 (by decide), ?_⟩
  rw [List.any_eq_false]
  intro c hc
  have hrange := isHostCharacter_facts (h.character c hc)
  unfold isSpace
  rw [if_pos (by omega)]
  simp only [Bool.or_eq_true, Bool.and_eq_true, decide_eq_true_eq]
  omega

/-- A normalised name of ASCII is accepted again, and is its own normal form. -/
theorem normalizeHostname_again {hostname name : Text} (hascii : isAscii hostname = true)
    (h : normalizeHostname hostname = .ok name) : normalizeHostname name = .ok name := by
  apply Except.bind_eq_ok_iff.mpr
  refine ⟨(), require_eq_ok.mpr (normalizeHostname_form h).checked, ?_⟩
  rcases normalizeHostname_cases h with ⟨address, rfl⟩ | ⟨labels, hall, hne, rfl, hlength, hform, hlabels⟩
  · rw [ipAddress_compressed]
  · cases hagain : ipAddress (join (py ".") labels) with
    | some address =>
      exact congrArg Except.ok (compressed_of_ipAddress (colon_not_mem_labels hall) hagain)
    | none =>
      -- the labels are the lower case of those that were not ambiguous
      have hcandidate : isAscii (withoutFinalDot hostname) = true := by
        unfold withoutFinalDot
        split
        · rw [isAscii, List.all_eq_true] at hascii ⊢
          exact fun c hc => hascii c (List.dropLast_subset _ hc)
        · exact hascii
      have hlower := mapM_encodeLabel_ascii (split_ascii hcandidate)
        (fun s hs => (mem_split hs).1) hlabels
      have hambiguous : isAmbiguousNumericHost (join (py ".") labels) = false := by
        unfold isAmbiguousNumericHost at hform ⊢
        rw [split_labels hall hne, hlower, List.all_map]
        rw [List.all_eq_false] at hform ⊢
        obtain ⟨s, hs, hnot⟩ := hform
        exact ⟨s, hs, fun hpart => hnot (isNumericPart_of_lower hpart)⟩
      dsimp only
      rw [withoutFinalDot_labels hall hne]
      apply Except.bind_eq_ok_iff.mpr
      refine ⟨(), require_eq_ok.mpr ⟨labels_ne_nil hall hne, endsWith_labels hall hne, hambiguous⟩, ?_⟩
      rw [split_labels hall hne, mapM_encodeLabel hall]
      apply Except.bind_eq_ok_iff.mpr
      refine ⟨(), require_eq_ok.mpr hall, ?_⟩
      exact Except.bind_eq_ok_iff.mpr ⟨(), require_eq_ok.mpr hlength, rfl⟩

end Hosts

/-! ## Section 3: Authorities -/

section Authority

variable [NetworkLibrary]

/-- The port in an authority, with its colon. -/
def portText (scheme : HttpScheme) (port : Nat) : Text :=
  if port = scheme.defaultPort then [] else CodePoint.ofChar ':' :: Text.ofNat port

omit [NetworkLibrary] in
theorem authorityOf_eq (scheme : HttpScheme) (hostname : Text) (port : Nat) :
    NormalizedHttpUrl.authorityOf scheme hostname port =
      (if CodePoint.ofChar ':' ∈ hostname then
        CodePoint.ofChar '[' :: (hostname ++ [CodePoint.ofChar ']']) else hostname) ++
        portText scheme port := by
  unfold NormalizedHttpUrl.authorityOf portText
  have hbracket : py "[" = [CodePoint.ofChar '['] := rfl
  have hclose : py "]" = [CodePoint.ofChar ']'] := rfl
  have hcolon : py ":" = [CodePoint.ofChar ':'] := rfl
  rw [hbracket, hclose, hcolon]
  by_cases hport : port = scheme.defaultPort
  · simp [hport]
  · simp [hport]

omit [NetworkLibrary] in
/-- The characters of a port are digits and the colon. -/
theorem portText_character (scheme : HttpScheme) (port : Nat) :
    ∀ c ∈ portText scheme port, isHostCharacter c = true := by
  intro c hc
  unfold portText at hc
  split at hc
  · cases hc
  · rcases List.mem_cons.mp hc with rfl | hc
    · decide
    · have hdigit := Json.isDigit_of_mem_ofNat hc
      simp only [Json.isDigit, Bool.and_eq_true, decide_eq_true_eq] at hdigit
      simp only [isHostCharacter, isDnsCharacter, isLabelEnd, Bool.or_eq_true, Bool.and_eq_true,
        decide_eq_true_eq]
      exact .inl (.inl (.inl hdigit))

omit [NetworkLibrary] in
theorem not_mem_of_host {t : Text} (h : ∀ c ∈ t, isHostCharacter c = true) {c : CodePoint}
    (hc : isHostCharacter c = false) : c ∉ t := by
  intro hmem
  rw [h c hmem] at hc
  cases hc

/-- The characters of an authority. -/
theorem authority_character {hostname : Text} (form : HostForm hostname) (scheme : HttpScheme)
    (port : Nat) : ∀ c ∈ NormalizedHttpUrl.authorityOf scheme hostname port,
      isHostCharacter c = true ∨ c ∈ py "[]" := by
  intro c hc
  rw [authorityOf_eq] at hc
  rcases List.mem_append.mp hc with hc | hc
  · split at hc
    · rcases List.mem_cons.mp hc with rfl | hc
      · exact .inr (by decide)
      · rcases List.mem_append.mp hc with hc | hc
        · exact .inl (form.character c hc)
        · rw [List.mem_singleton.mp hc]
          exact .inr (by decide)
    · exact .inl (form.character c hc)
  · exact .inl (portText_character scheme port c hc)

theorem authority_not_mem {hostname : Text} (form : HostForm hostname) (scheme : HttpScheme)
    (port : Nat) {c : CodePoint} (hc : isHostCharacter c = false) (hbracket : c ∉ py "[]") :
    c ∉ NormalizedHttpUrl.authorityOf scheme hostname port := by
  intro hmem
  rcases authority_character form scheme port c hmem with h | h
  · rw [h] at hc
    cases hc
  · exact hbracket h

/-- A host with a colon is an IPv6 address. -/
theorem HostForm.v6_or_no_colon {hostname : Text} (form : HostForm hostname) :
    (∃ a, hostname = NetworkLibrary.ipv6Text a) ∨ CodePoint.ofChar ':' ∉ hostname := by
  cases form with
  | v6 a => exact .inl ⟨a, rfl⟩
  | name _ hname =>
    right
    intro hmem
    have hcolon := hname _ hmem
    revert hcolon
    decide

namespace UrlParse

omit [NetworkLibrary] in
/-- The port that `_hostinfo` finds. -/
theorem partitionAt_portText (scheme : HttpScheme) (port : Nat) :
    (partitionAt (CodePoint.ofChar ':') (portText scheme port)).2.2 =
      if port = scheme.defaultPort then [] else Text.ofNat port := by
  unfold portText
  split
  · rfl
  · rw [show CodePoint.ofChar ':' :: Text.ofNat port = [] ++ CodePoint.ofChar ':' :: Text.ofNat port
      from rfl, partitionAt_append List.not_mem_nil]

omit [NetworkLibrary] in
theorem partitionAt_bracket {hostname : Text} (hcolon : CodePoint.ofChar ':' ∈ hostname)
    {scheme : HttpScheme} {port : Nat} :
    partitionAt (CodePoint.ofChar '[') (NormalizedHttpUrl.authorityOf scheme hostname port) =
      ([], true, hostname ++ CodePoint.ofChar ']' :: portText scheme port) := by
  have hopen := @partitionAt_append (CodePoint.ofChar '[') [] List.not_mem_nil
    (hostname ++ CodePoint.ofChar ']' :: portText scheme port)
  rw [authorityOf_eq, if_pos hcolon, ← hopen]
  simp

omit [NetworkLibrary] in
theorem ofNat_ne_nil (n : Nat) : Text.ofNat n ≠ [] := by
  obtain ⟨c, cs, hcs, -⟩ := Json.head_ofNat n
  rw [hcs]
  exact List.cons_ne_nil c cs

/-- An authority is taken apart as it was put together. -/
theorem hostAndPort_authority {hostname : Text} (form : HostForm hostname) (scheme : HttpScheme)
    (port : Nat) : hostAndPort (NormalizedHttpUrl.authorityOf scheme hostname port) =
      (hostname, if port = scheme.defaultPort then [] else Text.ofNat port) := by
  have hat : CodePoint.ofChar '@' ∉ NormalizedHttpUrl.authorityOf scheme hostname port :=
    authority_not_mem form scheme port (by decide) (by decide)
  unfold hostAndPort
  rw [rpartitionAt_of_not_mem hat]
  dsimp only
  by_cases hcolon : CodePoint.ofChar ':' ∈ hostname
  · -- an IPv6 address stands in brackets
    have hclose : CodePoint.ofChar ']' ∉ hostname :=
      not_mem_of_host form.character (by decide)
    rw [partitionAt_bracket hcolon]
    dsimp only
    rw [partitionAt_append hclose]
    dsimp only
    rw [partitionAt_portText]
  · have hopen : CodePoint.ofChar '[' ∉ NormalizedHttpUrl.authorityOf scheme hostname port := by
      rw [authorityOf_eq, if_neg hcolon, List.mem_append, not_or]
      exact ⟨not_mem_of_host form.character (by decide),
        not_mem_of_host (portText_character scheme port) (by decide)⟩
    rw [partitionAt_of_not_mem hopen, authorityOf_eq, if_neg hcolon]
    dsimp only
    by_cases hdefault : port = scheme.defaultPort
    · have hnone : portText scheme port = [] := if_pos hdefault
      rw [hnone, List.append_nil, partitionAt_of_not_mem hcolon, if_pos hdefault]
    · have hsome : portText scheme port = CodePoint.ofChar ':' :: Text.ofNat port := if_neg hdefault
      rw [hsome, partitionAt_append hcolon, if_neg hdefault]

theorem hostinfo_authority {hostname : Text} (form : HostForm hostname) (scheme : HttpScheme)
    (port : Nat) : hostinfo (NormalizedHttpUrl.authorityOf scheme hostname port) =
      (hostname, if port = scheme.defaultPort then none else some (Text.ofNat port)) := by
  unfold hostinfo
  rw [hostAndPort_authority form]
  by_cases hdefault : port = scheme.defaultPort
  · simp [hdefault]
  · simp [hdefault, ofNat_ne_nil]

theorem lower_host {hostname : Text} (form : HostForm hostname) : lower hostname = hostname := by
  have hascii : isAscii hostname = true := by
    rw [isAscii, List.all_eq_true]
    intro c hc
    have := isHostCharacter_facts (form.character c hc)
    exact decide_eq_true (by omega)
  unfold lower
  rw [if_pos hascii]
  apply (List.map_congr_left fun c hc => ?_).trans (List.map_id hostname)
  exact (isHostCharacter_facts (form.character c hc)).2.2.2

theorem hostnameOf_authority {hostname : Text} (form : HostForm hostname) (scheme : HttpScheme)
    (port : Nat) :
    hostnameOf (NormalizedHttpUrl.authorityOf scheme hostname port) = some hostname := by
  have hzone : CodePoint.ofChar '%' ∉ hostname := not_mem_of_host form.character (by decide)
  unfold hostnameOf
  rw [hostinfo_authority form]
  dsimp only
  split
  · exact absurd rfl form.ne_nil
  · rw [partitionAt_of_not_mem hzone]
    exact congrArg some (lower_host form)

theorem portOf_authority {hostname : Text} (form : HostForm hostname) (scheme : HttpScheme)
    {port : Nat} (hport : port ≤ 65535) :
    portOf (NormalizedHttpUrl.authorityOf scheme hostname port) =
      some (if port = scheme.defaultPort then none else some port) := by
  unfold portOf
  rw [hostinfo_authority form]
  by_cases hdefault : port = scheme.defaultPort
  · rw [if_pos hdefault, if_pos hdefault]
  · have hdigits : (Text.ofNat port).all (fun c => 0x30 ≤ c.val && c.val ≤ 0x39) = true :=
      List.all_eq_true.mpr fun c hc => Json.isDigit_of_mem_ofNat hc
    have hlength : (Text.ofNat port).length ≤ 4300 := by
      rw [Text.ofNat, List.length_map]
      have hfive := (Nat.length_toDigits_le_iff (b := 10) (k := 5) (by decide) (by decide)).mpr
        (show port < 10 ^ 5 by omega)
      omega
    have hvalue : (Text.ofNat port).foldl (fun n c => 10 * n + (c.val - 0x30)) 0 = port :=
      Json.decimal_ofNat port
    rw [if_neg hdefault, if_neg hdefault]
    dsimp only
    rw [hdigits, decide_eq_true hlength, hvalue]
    exact if_pos hport

theorem userinfo_authority {hostname : Text} (form : HostForm hostname) (scheme : HttpScheme)
    (port : Nat) :
    userinfo (NormalizedHttpUrl.authorityOf scheme hostname port) = (none, none) := by
  unfold userinfo
  rw [rpartitionAt_of_not_mem (authority_not_mem form scheme port (by decide) (by decide))]

theorem checkBrackets_authority {hostname : Text} (form : HostForm hostname) (scheme : HttpScheme)
    (port : Nat) : checkBrackets (NormalizedHttpUrl.authorityOf scheme hostname port) = true := by
  unfold checkBrackets
  by_cases hcolon : CodePoint.ofChar ':' ∈ hostname
  · obtain ⟨a, rfl⟩ := form.v6_or_no_colon.resolve_right (not_not_intro hcolon)
    have hopen : CodePoint.ofChar '[' ∈
        NormalizedHttpUrl.authorityOf scheme (NetworkLibrary.ipv6Text a) port := by
      rw [authorityOf_eq, if_pos hcolon]
      simp
    have hclose : CodePoint.ofChar ']' ∈
        NormalizedHttpUrl.authorityOf scheme (NetworkLibrary.ipv6Text a) port := by
      rw [authorityOf_eq, if_pos hcolon]
      simp
    have hinner : CodePoint.ofChar ']' ∉ NetworkLibrary.ipv6Text a :=
      not_mem_of_host form.character (by decide)
    have hfuture : startsWith (NetworkLibrary.ipv6Text a) (py "v") = false := by
      rw [Bool.eq_false_iff]
      intro hstart
      obtain ⟨rest, hrest⟩ := startsWith_iff.mp hstart
      have hmem : CodePoint.ofChar 'v' ∈ NetworkLibrary.ipv6Text a := by
        rw [← hrest]
        exact List.mem_cons_self
      exact absurd (NetworkLibrary.text_characters a _ hmem) (by decide)
    have haddress : ipAddress (NetworkLibrary.ipv6Text a) = some (.v6 a) :=
      ipAddress_compressed (.v6 a)
    have hport : (portText scheme port = [] || startsWith (portText scheme port) (py ":")) = true := by
      unfold portText
      split
      · rfl
      · rfl
    rw [decide_eq_true hopen, decide_eq_true hclose]
    dsimp only
    unfold checkBracketedNetloc
    rw [rpartitionAt_of_not_mem (authority_not_mem form scheme port (by decide) (by decide))]
    dsimp only
    rw [partitionAt_bracket hcolon]
    dsimp only
    rw [partitionAt_append hinner]
    dsimp only
    rw [hport, checkBracketedHost, hfuture, haddress]
    rfl
  · have hnone : ∀ c, isHostCharacter c = false →
        c ∉ NormalizedHttpUrl.authorityOf scheme hostname port := by
      intro c hc
      rw [authorityOf_eq, if_neg hcolon, List.mem_append, not_or]
      exact ⟨not_mem_of_host form.character hc,
        not_mem_of_host (portText_character scheme port) hc⟩
    rw [decide_eq_false (hnone _ (by decide)), decide_eq_false (hnone _ (by decide))]

end UrlParse

end Authority

/-! ## Section 4: Canonical URLs -/

def PATH_SAFE : Text := py "/:@!$&'()*+,;=-._~%"

def QUERY_SAFE : Text := py "/?:@!$&'()*+,;=-._~%"

/-- A character of a URL. -/
def IsUrlCharacter (c : CodePoint) : Prop := 0x21 ≤ c.val ∧ c.val < 0x7F ∧ c ∉ py "\\#"

theorem alphanumeric_facts {c : CodePoint} (h : isAlphanumeric c = true) :
    IsUrlCharacter c ∧ c ≠ CodePoint.ofChar '?' := by
  have hne : ∀ d : CodePoint, d.val = 0x5C ∨ d.val = 0x23 ∨ d.val = 0x3F → c ≠ d := by
    rintro d hd rfl
    simp only [isAlphanumeric, Bool.or_eq_true, Bool.and_eq_true, decide_eq_true_eq] at h
    omega
  have hrange : 0x21 ≤ c.val ∧ c.val < 0x7F := by
    simp only [isAlphanumeric, Bool.or_eq_true, Bool.and_eq_true, decide_eq_true_eq] at h
    omega
  refine ⟨⟨hrange.1, hrange.2, ?_⟩, hne _ (.inr (.inr rfl))⟩
  intro hmem
  rcases List.mem_cons.mp hmem with heq | hmem
  · exact hne _ (.inl rfl) heq
  · exact hne _ (.inr (.inl rfl)) (List.mem_singleton.mp hmem)

/-- The characters that stay in a query. -/
theorem querySafe_facts {c : CodePoint} (h : isQuoteSafe QUERY_SAFE c = true) :
    IsUrlCharacter c := by
  have htable : (py "_.-~" ++ QUERY_SAFE).all
      (fun c => 0x21 ≤ c.val && c.val < 0x7F && c ∉ py "\\#") = true := by decide
  have hrow : c ∈ py "_.-~" ++ QUERY_SAFE → IsUrlCharacter c := by
    intro hc
    have hrow := List.all_eq_true.mp htable c hc
    simp only [Bool.and_eq_true, decide_eq_true_eq] at hrow
    exact ⟨hrow.1.1, hrow.1.2, hrow.2⟩
  simp only [isQuoteSafe, UrlParse.isAlwaysSafe, Bool.or_eq_true, Bool.and_eq_true,
    decide_eq_true_eq] at h
  rcases h with (h | h) | h
  · exact (alphanumeric_facts h).1
  · exact hrow (List.mem_append_left _ h)
  · exact hrow (List.mem_append_right _ h.2)

/-- The characters that stay in a path. -/
theorem pathSafe_facts {c : CodePoint} (h : isQuoteSafe PATH_SAFE c = true) :
    IsUrlCharacter c ∧ c ≠ CodePoint.ofChar '?' := by
  have htable : (py "_.-~" ++ PATH_SAFE).all
      (fun c => 0x21 ≤ c.val && c.val < 0x7F && c ∉ py "\\#" && c ≠ CodePoint.ofChar '?') = true := by
    decide
  have hrow : c ∈ py "_.-~" ++ PATH_SAFE → IsUrlCharacter c ∧ c ≠ CodePoint.ofChar '?' := by
    intro hc
    have hrow := List.all_eq_true.mp htable c hc
    simp only [Bool.and_eq_true, decide_eq_true_eq] at hrow
    exact ⟨⟨hrow.1.1.1, hrow.1.1.2, hrow.1.2⟩, hrow.2⟩
  simp only [isQuoteSafe, UrlParse.isAlwaysSafe, Bool.or_eq_true, Bool.and_eq_true,
    decide_eq_true_eq] at h
  rcases h with (h | h) | h
  · exact alphanumeric_facts h
  · exact hrow (List.mem_append_left _ h)
  · exact hrow (List.mem_append_right _ h.2)

section Canonical

variable [NetworkLibrary]

/-- What a canonical URL is made of. -/
structure CanonicalParts (scheme : HttpScheme) (hostname : Text) (port : Nat) (path query : Text) :
    Prop where
  host : HostForm hostname
  port_range : 1 ≤ port ∧ port ≤ 65535
  path_escaped : Escaped PATH_SAFE path
  query_escaped : Escaped QUERY_SAFE query
  path_root : startsWith path (py "/") = true

/-- `path if not query else f"{path}?{query}"` -/
def targetOf (path query : Text) : Text := if query = [] then path else path ++ py "?" ++ query

/-- `f"{scheme.value}://{authority}{target}"` -/
def canonicalOf (scheme : HttpScheme) (hostname : Text) (port : Nat) (path query : Text) : Text :=
  scheme.value ++ py "://" ++ NormalizedHttpUrl.authorityOf scheme hostname port ++
    targetOf path query

namespace CanonicalParts

variable {scheme : HttpScheme} {hostname : Text} {port : Nat} {path query : Text}

theorem path_character (h : CanonicalParts scheme hostname port path query) :
    ∀ c ∈ path, IsUrlCharacter c ∧ c ≠ CodePoint.ofChar '?' := fun c hc =>
  pathSafe_facts (h.path_escaped.mem (by decide) c hc)

theorem target_character (h : CanonicalParts scheme hostname port path query) :
    ∀ c ∈ targetOf path query, IsUrlCharacter c := by
  intro c hc
  unfold targetOf at hc
  split at hc
  · exact (h.path_character c hc).1
  · rcases List.mem_append.mp hc with hc | hc
    · rcases List.mem_append.mp hc with hc | hc
      · exact (h.path_character c hc).1
      · rw [List.mem_singleton.mp hc]
        exact ⟨by decide, by decide, by decide⟩
    · exact querySafe_facts (h.query_escaped.mem (by decide) c hc)

theorem authority_urlCharacter (h : CanonicalParts scheme hostname port path query) :
    ∀ c ∈ NormalizedHttpUrl.authorityOf scheme hostname port, IsUrlCharacter c := by
  have htable : (py "\\#").all (· ∈ py "%@/?#[]\\") = true := by decide
  intro c hc
  rcases authority_character h.host scheme port c hc with hhost | hbracket
  · obtain ⟨hlow, hhigh, hnot, -⟩ := isHostCharacter_facts hhost
    exact ⟨hlow, hhigh, fun hmem => hnot (of_decide_eq_true (List.all_eq_true.mp htable c hmem))⟩
  · have hbrackets : (py "[]").all
        (fun c => 0x21 ≤ c.val && c.val < 0x7F && c ∉ py "\\#") = true := by decide
    have hrow := List.all_eq_true.mp hbrackets c hbracket
    simp only [Bool.and_eq_true, decide_eq_true_eq] at hrow
    exact ⟨hrow.1.1, hrow.1.2, hrow.2⟩

theorem url_character (h : CanonicalParts scheme hostname port path query) :
    ∀ c ∈ canonicalOf scheme hostname port path query, IsUrlCharacter c := by
  have hscheme : ∀ scheme : HttpScheme, (scheme.value ++ py "://").all
      (fun c => 0x21 ≤ c.val && c.val < 0x7F && c ∉ py "\\#") = true := by
    intro scheme
    cases scheme with
    | http => decide
    | https => decide
  intro c hc
  rcases List.mem_append.mp hc with hc | hc
  · rcases List.mem_append.mp hc with hc | hc
    · have hrow := List.all_eq_true.mp (hscheme scheme) c hc
      simp only [Bool.and_eq_true, decide_eq_true_eq] at hrow
      exact ⟨hrow.1.1, hrow.1.2, hrow.2⟩
    · exact h.authority_urlCharacter c hc
  · exact h.target_character c hc

omit [NetworkLibrary] in
theorem not_mem_of_url {t : Text} (ht : ∀ c ∈ t, IsUrlCharacter c) {c : CodePoint}
    (hc : c ∈ py "\\#") : c ∉ t := fun hmem => (ht c hmem).2.2 hc

omit [NetworkLibrary] in
/-- Nothing is taken from a URL before it is cut. -/
theorem cleaned_url {t : Text} (ht : ∀ c ∈ t, IsUrlCharacter c) :
    (t.dropWhile fun c => c.val ≤ 0x20).filter (· ∉ py "\t\r\n") = t := by
  have hdrop : (t.dropWhile fun c => decide (c.val ≤ 0x20)) = t := by
    apply dropWhile_of_head
    intro c hc
    have := ht c (List.mem_of_head? hc)
    exact decide_eq_false (by have := this.1; omega)
  have hblank : (py "\t\r\n").all (fun c => decide (c.val < 0x21)) = true := by decide
  rw [hdrop, List.filter_eq_self]
  intro c hc
  have hlow := (ht c hc).1
  refine decide_eq_true fun hmem => ?_
  have := of_decide_eq_true (List.all_eq_true.mp hblank c hmem)
  omega

omit [NetworkLibrary] in
theorem splitScheme_value (scheme : HttpScheme) (rest : Text) :
    UrlParse.splitScheme (scheme.value ++ CodePoint.ofChar ':' :: rest) = (scheme.value, rest) := by
  have hcolon : CodePoint.ofChar ':' ∉ scheme.value := by
    cases scheme with
    | http => decide
    | https => decide
  unfold UrlParse.splitScheme
  rw [UrlParse.partitionAt_append hcolon]
  cases scheme with
  | http => rfl
  | https => rfl

theorem splitNetloc_canonical (h : CanonicalParts scheme hostname port path query) :
    UrlParse.splitNetloc (py "//" ++ (NormalizedHttpUrl.authorityOf scheme hostname port ++
      targetOf path query)) =
      (NormalizedHttpUrl.authorityOf scheme hostname port, targetOf path query) := by
  have hauthority : ∀ c ∈ NormalizedHttpUrl.authorityOf scheme hostname port,
      (!UrlParse.isAuthorityEnd c) = true := by
    intro c hc
    rw [Bool.not_eq_true', UrlParse.isAuthorityEnd, decide_eq_false_iff_not]
    intro hend
    have htable : (py "/?#").all (fun c => !isHostCharacter c && c ∉ py "[]") = true := by decide
    have hrow := List.all_eq_true.mp htable c hend
    simp only [Bool.and_eq_true, Bool.not_eq_true', decide_eq_true_eq] at hrow
    exact authority_not_mem h.host scheme port hrow.1 hrow.2 hc
  obtain ⟨tail, htail⟩ := startsWith_iff.mp h.path_root
  have htarget : ∃ tail, targetOf path query = CodePoint.ofChar '/' :: tail := by
    unfold targetOf
    rw [← htail]
    split
    · exact ⟨tail, rfl⟩
    · exact ⟨_, rfl⟩
  obtain ⟨tail, htarget⟩ := htarget
  have hslash : (!UrlParse.isAuthorityEnd (CodePoint.ofChar '/')) = false := by decide
  have hstart : startsWith (py "//" ++ (NormalizedHttpUrl.authorityOf scheme hostname port ++
      targetOf path query)) (py "//") = true := startsWith_iff.mpr ⟨_, rfl⟩
  have hdrop : (py "//" ++ (NormalizedHttpUrl.authorityOf scheme hostname port ++
      targetOf path query)).drop 2 =
      NormalizedHttpUrl.authorityOf scheme hostname port ++ targetOf path query := rfl
  unfold UrlParse.splitNetloc
  rw [hstart, hdrop, htarget]
  apply Prod.ext
  · show List.takeWhile _ _ = _
    rw [List.takeWhile_append_of_pos hauthority, List.takeWhile_cons, hslash]
    exact List.append_nil _
  · show List.dropWhile _ _ = _
    rw [List.dropWhile_append_of_pos hauthority, List.dropWhile_cons, hslash]
    rfl

theorem partitionAt_target (h : CanonicalParts scheme hostname port path query) :
    (UrlParse.partitionAt (CodePoint.ofChar '?') (targetOf path query)).1 = path ∧
      (UrlParse.partitionAt (CodePoint.ofChar '?') (targetOf path query)).2.2 = query := by
  have hmark : CodePoint.ofChar '?' ∉ path := fun hmem => (h.path_character _ hmem).2 rfl
  unfold targetOf
  by_cases hquery : query = []
  · rw [if_pos hquery, UrlParse.partitionAt_of_not_mem hmark]
    exact ⟨rfl, hquery.symm⟩
  · have hjoin : path ++ py "?" ++ query = path ++ CodePoint.ofChar '?' :: query :=
      List.append_assoc path _ query
    rw [if_neg hquery, hjoin, UrlParse.partitionAt_append hmark]
    exact ⟨rfl, rfl⟩

/-- `urlsplit` cuts a canonical URL where it was joined. -/
theorem urlsplit_canonical (h : CanonicalParts scheme hostname port path query)
    (nfkc : Text → Text) :
    UrlParse.urlsplit nfkc (canonicalOf scheme hostname port path query) = some {
      scheme := scheme.value
      netloc := NormalizedHttpUrl.authorityOf scheme hostname port
      path, query
      username := none
      password := none
      hostname := some hostname
      port := if port = scheme.defaultPort then none else some port } := by
  have hjoin : canonicalOf scheme hostname port path query =
      scheme.value ++ CodePoint.ofChar ':' :: (py "//" ++
        (NormalizedHttpUrl.authorityOf scheme hostname port ++ targetOf path query)) := by
    unfold canonicalOf
    rw [List.append_assoc, List.append_assoc]
    rfl
  have hfragment : CodePoint.ofChar '#' ∉ targetOf path query :=
    not_mem_of_url h.target_character (by decide)
  have hascii : isAscii (NormalizedHttpUrl.authorityOf scheme hostname port) = true := by
    rw [isAscii, List.all_eq_true]
    intro c hc
    have := h.authority_urlCharacter c hc
    exact decide_eq_true (by have := this.2.1; omega)
  have hnetloc : UrlParse.checkNetloc nfkc (NormalizedHttpUrl.authorityOf scheme hostname port) =
      true := by
    unfold UrlParse.checkNetloc
    rw [hascii]
    rfl
  obtain ⟨hpath, hquery⟩ := h.partitionAt_target
  unfold UrlParse.urlsplit
  rw [cleaned_url h.url_character, hjoin]
  simp only [splitScheme_value, h.splitNetloc_canonical,
    UrlParse.partitionAt_of_not_mem hfragment, hpath, hquery,
    UrlParse.checkBrackets_authority h.host, hnetloc, Bool.and_self, if_true,
    UrlParse.portOf_authority h.host scheme h.port_range.2,
    UrlParse.userinfo_authority h.host, UrlParse.hostnameOf_authority h.host, Option.map_some]

end CanonicalParts

/-! ## Section 5: Normalising again -/

/-- `quote` is that of `urllib.parse`. -/
def SpecifiedQuote : Prop :=
  ∀ value safe, NetworkLibrary.quote value safe = UrlParse.quote value safe

/-- `urlsplit` and `quote` are those of `urllib.parse`. -/
structure SpecifiedLibrary : Prop where
  urlsplit : ∃ nfkc, ∀ url, NetworkLibrary.urlsplit url = UrlParse.urlsplit nfkc url
  quote : SpecifiedQuote

/-- The host of the URL is written in ASCII. -/
def AsciiHost (url : Text) : Prop :=
  ∀ parts hostname, NetworkLibrary.urlsplit url = some parts → parts.hostname = some hostname →
    isAscii hostname = true

theorem normalizeUrlComponent_escaped (specified : SpecifiedQuote) {value safe t : Text}
    (hpercent : percent ∈ safe) (h : normalizeUrlComponent value safe = .ok t) : Escaped safe t := by
  obtain ⟨_, hvalid, h⟩ := Except.bind_eq_ok_iff.mp h
  rw [specified] at h
  split at h
  · exact absurd h raise_ne_ok
  · rename_i encoded hquote
    cases h
    exact escaped_quote hpercent (require_eq_ok.mp hvalid) hquote

theorem Escaped.unchanged (specified : SpecifiedQuote) {safe t : Text}
    (hpercent : percent ∈ safe) (h : Escaped safe t) : normalizeUrlComponent t safe = .ok t := by
  obtain ⟨hvalid, hquote, hupper⟩ := h.stable hpercent
  apply Except.bind_eq_ok_iff.mpr
  refine ⟨(), require_eq_ok.mpr hvalid, ?_⟩
  rw [specified, hquote]
  exact congrArg Except.ok hupper

omit [NetworkLibrary] in
theorem startsWith_target {path query : Text} (h : startsWith (targetOf path query) (py "/") = true) :
    startsWith path (py "/") = true := by
  unfold targetOf at h
  by_cases hquery : query = []
  · rwa [if_pos hquery] at h
  · rw [if_neg hquery] at h
    cases path with
    | nil => cases h
    | cons c path => exact h

/-- What an accepted URL has become. -/
structure Accepted (url : Text) (result : NormalizedHttpUrl) (path query : Text) : Prop where
  parts : CanonicalParts result.scheme result.hostname result.port path query
  target : result.target = targetOf path query
  canonical : result.canonicalUrl =
    canonicalOf result.scheme result.hostname result.port path query
  again : AsciiHost url → normalizeHostname result.hostname = .ok result.hostname
  unambiguous : startsWith path (py "//") = false
  ascii : isAscii result.canonicalUrl = true
  short : result.canonicalUrl.length ≤ MAX_URL_BYTES

theorem normalizeHttpUrl_accepted (specified : SpecifiedQuote) {url : Text}
    {result : NormalizedHttpUrl} (h : normalizeHttpUrl url = .ok result) :
    ∃ path query, Accepted url result path query := by
  unfold normalizeHttpUrl at h
  split at h
  · exact absurd h raise_ne_ok
  obtain ⟨_, _, h⟩ := Except.bind_eq_ok_iff.mp h
  split at h
  · exact absurd h raise_ne_ok
  rename_i parts hsplit
  split at h
  · exact absurd h raise_ne_ok
  rename_i scheme _
  unfold normalizeSplit at h
  split at h
  · exact absurd h raise_ne_ok
  rename_i hostnameValue hvalue
  obtain ⟨_, _, h⟩ := Except.bind_eq_ok_iff.mp h
  obtain ⟨_, _, h⟩ := Except.bind_eq_ok_iff.mp h
  obtain ⟨_, _, h⟩ := Except.bind_eq_ok_iff.mp h
  obtain ⟨hostname, hhostname, h⟩ := Except.bind_eq_ok_iff.mp h
  obtain ⟨_, hport, h⟩ := Except.bind_eq_ok_iff.mp h
  obtain ⟨path, hpath, h⟩ := Except.bind_eq_ok_iff.mp h
  obtain ⟨_, hsingle, h⟩ := Except.bind_eq_ok_iff.mp h
  obtain ⟨query, hquery, h⟩ := Except.bind_eq_ok_iff.mp h
  obtain ⟨_, hascii, h⟩ := Except.bind_eq_ok_iff.mp h
  obtain ⟨_, hlength, h⟩ := Except.bind_eq_ok_iff.mp h
  rw [require_eq_ok] at hport hsingle hascii hlength
  have hresult := NormalizedHttpUrl.new_eq_ok h
  have hroot : startsWith (targetOf path query) (py "/") = true := by
    obtain ⟨_, _, h⟩ := Except.bind_eq_ok_iff.mp h
    obtain ⟨_, _, h⟩ := Except.bind_eq_ok_iff.mp h
    obtain ⟨_, hroot, _⟩ := Except.bind_eq_ok_iff.mp h
    exact require_eq_ok.mp hroot
  subst hresult
  refine ⟨path, query, ?_, rfl, rfl, ?_, hsingle, hascii, hlength⟩
  · exact ⟨normalizeHostname_form hhostname, hport,
      normalizeUrlComponent_escaped specified (by decide) hpath,
      normalizeUrlComponent_escaped specified (by decide) hquery, startsWith_target hroot⟩
  · exact fun hhost => normalizeHostname_again (hhost parts hostnameValue hsplit hvalue) hhostname

omit [NetworkLibrary] in
theorem utf8Length_ascii {t : Text} (h : isAscii t = true) : utf8Length t = some t.length := by
  unfold utf8Length
  induction t with
  | nil => rfl
  | cons c t ih =>
    rw [isAscii, List.all_cons, Bool.and_eq_true] at h
    obtain ⟨bytes, hbytes, hlength⟩ := Option.map_eq_some_iff.mp (ih h.2)
    have hcons : encodeUtf8 (c :: t) = some ([⟨c.val, by have := of_decide_eq_true h.1; omega⟩] ++ bytes) :=
      encodeUtf8_cons_eq_some.mpr ⟨_, bytes, encodeCodePoint_ascii (of_decide_eq_true h.1), hbytes,
        rfl⟩
    rw [hcons, Option.map_some, List.length_append, List.length_singleton, hlength,
      List.length_cons, Nat.add_comm]

/-- No authority ends where a port is missing. -/
theorem endsWith_authority {hostname : Text} (form : HostForm hostname) (scheme : HttpScheme)
    (port : Nat) :
    endsWith (NormalizedHttpUrl.authorityOf scheme hostname port) (py ":") = false := by
  rw [Bool.eq_false_iff]
  intro hends
  obtain ⟨pre, hpre⟩ := endsWith_iff.mp hends
  have hlast : ∀ s t : Text, t ≠ [] → NormalizedHttpUrl.authorityOf scheme hostname port = s ++ t →
      CodePoint.ofChar ':' ∈ t := by
    intro s t hne heq
    rw [← hpre] at heq
    have hget : (pre ++ [CodePoint.ofChar ':']).getLast? = (s ++ t).getLast? :=
      congrArg List.getLast? heq
    rw [List.getLast?_append_of_ne_nil _ (List.cons_ne_nil _ _),
      List.getLast?_append_of_ne_nil _ hne] at hget
    exact List.mem_of_getLast? hget.symm
  by_cases hdefault : port = scheme.defaultPort
  · have hnone : portText scheme port = [] := if_pos hdefault
    have heq := authorityOf_eq scheme hostname port
    rw [hnone, List.append_nil] at heq
    by_cases hcolon : CodePoint.ofChar ':' ∈ hostname
    · rw [if_pos hcolon] at heq
      have hmem := hlast (CodePoint.ofChar '[' :: hostname) [CodePoint.ofChar ']']
        (List.cons_ne_nil _ _) heq
      exact absurd hmem (by decide)
    · rw [if_neg hcolon] at heq
      exact hcolon (hlast [] hostname form.ne_nil heq)
  · have hsome : portText scheme port = [CodePoint.ofChar ':'] ++ Text.ofNat port := if_neg hdefault
    have heq := authorityOf_eq scheme hostname port
    rw [hsome, ← List.append_assoc] at heq
    have hmem := hlast _ (Text.ofNat port) (UrlParse.ofNat_ne_nil port) heq
    exact absurd (Json.isDigit_of_mem_ofNat hmem) (by decide)

/-- The canonical form of an accepted URL is accepted, as the same URL. -/
theorem Accepted.stable (specified : SpecifiedLibrary) {url : Text}
    {result : NormalizedHttpUrl} {path query : Text} (h : Accepted url result path query)
    (hhost : AsciiHost url) : normalizeHttpUrl result.canonicalUrl = .ok result := by
  obtain ⟨parts, htarget, hcanonical, hagain, hsingle, hascii, hshort⟩ := h
  obtain ⟨scheme, hostname, port, target, canonicalUrl⟩ := result
  dsimp only at parts htarget hcanonical hagain hascii hshort ⊢
  subst htarget hcanonical
  obtain ⟨nfkc, hurlsplit⟩ := specified.urlsplit
  have hne : canonicalOf scheme hostname port path query ≠ [] := by
    cases scheme with
    | http => exact List.cons_ne_nil _ _
    | https => exact List.cons_ne_nil _ _
  have hspace : (canonicalOf scheme hostname port path query).any isSpace = false := by
    rw [List.any_eq_false]
    intro c hc
    have hrange := parts.url_character c hc
    have := hrange.1
    have := hrange.2.1
    unfold isSpace
    rw [if_pos (by omega)]
    simp only [Bool.or_eq_true, Bool.and_eq_true, decide_eq_true_eq]
    omega
  have hscheme : HttpScheme.ofValue (lower scheme.value) = some scheme := by
    cases scheme with
    | http => rfl
    | https => rfl
  have hpath : path ≠ [] := by
    rintro rfl
    cases parts.path_root
  have hport : (if port = scheme.defaultPort then none else some port).getD scheme.defaultPort =
      port := by
    by_cases hdefault : port = scheme.defaultPort
    · rw [if_pos hdefault, hdefault]
      rfl
    · rw [if_neg hdefault]
      rfl
  have hnetloc : NormalizedHttpUrl.authorityOf scheme hostname port ≠ [] := by
    intro hnil
    have hhostname := UrlParse.hostnameOf_authority parts.host scheme port
    rw [hnil] at hhostname
    cases hhostname
  have hroot : startsWith (targetOf path query) (py "/") = true := by
    obtain ⟨tail, htail⟩ := startsWith_iff.mp parts.path_root
    rw [← htail]
    unfold targetOf
    split
    · rfl
    · rfl
  unfold normalizeHttpUrl
  rw [utf8Length_ascii hascii]
  apply Except.bind_eq_ok_iff.mpr
  refine ⟨(), require_eq_ok.mpr ⟨hne, hshort, ?_, ?_, hspace⟩, ?_⟩
  · exact CanonicalParts.not_mem_of_url parts.url_character (by decide)
  · exact CanonicalParts.not_mem_of_url parts.url_character (by decide)
  rw [hurlsplit, parts.urlsplit_canonical]
  dsimp only
  rw [hscheme]
  dsimp only
  unfold normalizeSplit
  dsimp only
  rw [hport, if_neg hpath]
  apply Except.bind_eq_ok_iff.mpr
  refine ⟨(), require_eq_ok.mpr hnetloc, ?_⟩
  apply Except.bind_eq_ok_iff.mpr
  refine ⟨(), require_eq_ok.mpr ⟨rfl, rfl⟩, ?_⟩
  apply Except.bind_eq_ok_iff.mpr
  refine ⟨(), require_eq_ok.mpr (endsWith_authority parts.host scheme port), ?_⟩
  apply Except.bind_eq_ok_iff.mpr
  refine ⟨hostname, hagain hhost, ?_⟩
  apply Except.bind_eq_ok_iff.mpr
  refine ⟨(), require_eq_ok.mpr parts.port_range, ?_⟩
  apply Except.bind_eq_ok_iff.mpr
  refine ⟨path, parts.path_escaped.unchanged specified.quote (by decide), ?_⟩
  apply Except.bind_eq_ok_iff.mpr
  refine ⟨(), require_eq_ok.mpr hsingle, ?_⟩
  apply Except.bind_eq_ok_iff.mpr
  refine ⟨query, parts.query_escaped.unchanged specified.quote (by decide), ?_⟩
  apply Except.bind_eq_ok_iff.mpr
  refine ⟨(), require_eq_ok.mpr hascii, ?_⟩
  apply Except.bind_eq_ok_iff.mpr
  refine ⟨(), require_eq_ok.mpr hshort, ?_⟩
  apply Except.bind_eq_ok_iff.mpr
  refine ⟨(), require_eq_ok.mpr parts.host.ne_nil, ?_⟩
  apply Except.bind_eq_ok_iff.mpr
  refine ⟨(), require_eq_ok.mpr parts.port_range, ?_⟩
  exact Except.bind_eq_ok_iff.mpr ⟨(), require_eq_ok.mpr hroot, rfl⟩

/-- With `urlsplit` and `quote` as specified, the canonical form of an accepted URL
    is accepted as the same URL, so that URLs of one canonical form are the same
    destination and the same target. -/
theorem normalizeHttpUrl_idem (specified : SpecifiedLibrary) :
    (∀ url result, AsciiHost url → normalizeHttpUrl url = .ok result →
      normalizeHttpUrl result.canonicalUrl = .ok result) ∧
    ∀ url url' result result', AsciiHost url → AsciiHost url' →
      normalizeHttpUrl url = .ok result → normalizeHttpUrl url' = .ok result' →
      result.canonicalUrl = result'.canonicalUrl → result = result' := by
  have hidem : ∀ url result, AsciiHost url → normalizeHttpUrl url = .ok result →
      normalizeHttpUrl result.canonicalUrl = .ok result := by
    intro url result hhost h
    obtain ⟨path, query, haccepted⟩ := normalizeHttpUrl_accepted specified.quote h
    exact haccepted.stable specified hhost
  refine ⟨hidem, ?_⟩
  intro url url' result result' hhost hhost' h h' hsame
  have hfirst := hidem url result hhost h
  rw [hsame, hidem url' result' hhost' h'] at hfirst
  exact (Except.ok.inj hfirst).symm

end Canonical

/-- A library with the `urlsplit` and `quote` of `urllib.parse`. -/
abbrev parsingLibrary : NetworkLibrary where
  __ := Gateway.literalLibrary
  urlsplit := @UrlParse.urlsplit Gateway.literalLibrary id
  quote := UrlParse.quote

theorem parsingLibrary_specified : @SpecifiedLibrary parsingLibrary :=
  @SpecifiedLibrary.mk parsingLibrary ⟨id, fun _ => rfl⟩ fun _ _ => rfl

def spelledUrl : Text := py "HTTP://Example.COM.:080/%7e|?q=1"

def normalizedUrl : NormalizedHttpUrl where
  scheme := .http
  hostname := py "example.com"
  port := 80
  target := py "/%7E%7C?q=1"
  canonicalUrl := py "http://example.com/%7E%7C?q=1"

theorem normalizeHttpUrl_idem_spelled :
    @normalizeHttpUrl parsingLibrary normalizedUrl.canonicalUrl = .ok normalizedUrl := by
  have hhost : @AsciiHost parsingLibrary spelledUrl := by
    intro parts hostname hparts hhostname
    cases hparts
    cases hhostname
    decide
  have hfirst : @normalizeHttpUrl parsingLibrary spelledUrl = .ok normalizedUrl := by
    decide +kernel
  exact (@normalizeHttpUrl_idem parsingLibrary parsingLibrary_specified).1 spelledUrl normalizedUrl
    hhost hfirst
