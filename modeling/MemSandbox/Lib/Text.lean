import Mathlib.Tactic
import Mathlib.Data.Rat.Defs
import Mathlib.Data.List.Lex
import Mathlib.Data.List.Sort
import Mathlib.Data.List.Infix

/-! # Text and bytes as Python has them

    A Python `str` is a sequence of code points in which lone surrogates may
    occur, so `Char` is too small a type for it.  This file fixes:

    - `CodePoint`, `Text`, `Byte`, `Bytes`,
    - literals (`py`) and decimal numerals (`ofNat`),
    - the strict UTF-8 encoder, partial because of the surrogates,
    - prefix, suffix, search and split as the `str` methods define them.

    Comparison of texts is the lexicographic order on code points, which is
    Mathlib's linear order on lists. -/

namespace Python

/-! ## Section 1: Carriers -/

/-- A Unicode code point, surrogates included. -/
abbrev CodePoint : Type := Fin 0x110000

/-- A Python `str`. -/
abbrev Text : Type := List CodePoint

/-- One octet. -/
abbrev Byte : Type := Fin 256

/-- A Python `bytes` value. -/
abbrev Bytes : Type := List Byte

instance CodePoint.neZero : NeZero 0x110000 := ⟨Nat.succ_ne_zero _⟩

instance Byte.neZero : NeZero 256 := ⟨Nat.succ_ne_zero _⟩

instance CodePoint.lawfulBEq : LawfulBEq CodePoint := inferInstance

instance Text.lawfulBEq : LawfulBEq Text := inferInstance

instance Byte.lawfulBEq : LawfulBEq Byte := inferInstance

instance Bytes.lawfulBEq : LawfulBEq Bytes := inferInstance

/-- The code point of a Lean character. -/
def CodePoint.ofChar (c : Char) : CodePoint := Fin.ofNat 0x110000 c.toNat

/-- The code point of a byte in Latin-1. -/
def CodePoint.ofByte (b : Byte) : CodePoint := ⟨b.val, by omega⟩

/-- A text literal. -/
def py (s : String) : Text := s.toList.map CodePoint.ofChar

/-- `str(n)` for a non-negative integer. -/
def Text.ofNat (n : Nat) : Text := (Nat.toDigits 10 n).map CodePoint.ofChar

/-- `str(n)` for any integer. -/
def Text.ofInt : Int → Text
  | .ofNat n => Text.ofNat n
  | .negSucc n => py "-" ++ Text.ofNat (n + 1)

/-- A bytes literal of ASCII characters. -/
def ascii (s : String) : Bytes := s.toList.map fun c => Fin.ofNat 256 c.toNat

/-! ## Section 2: UTF-8 -/

/-- Surrogates are code points that no UTF-8 sequence encodes. -/
def CodePoint.isSurrogate (c : CodePoint) : Bool :=
  0xD800 ≤ c.val && c.val ≤ 0xDFFF

/-- The UTF-8 bytes of one code point, `none` for a surrogate. -/
def encodeCodePoint (c : CodePoint) : Option Bytes :=
  if c.val < 0x80 then
    some [Fin.ofNat 256 c.val]
  else if c.val < 0x800 then
    some [Fin.ofNat 256 (0xC0 + c.val / 64), Fin.ofNat 256 (0x80 + c.val % 64)]
  else if c.isSurrogate then
    none
  else if c.val < 0x10000 then
    some [Fin.ofNat 256 (0xE0 + c.val / 4096), Fin.ofNat 256 (0x80 + c.val / 64 % 64),
      Fin.ofNat 256 (0x80 + c.val % 64)]
  else
    some [Fin.ofNat 256 (0xF0 + c.val / 262144), Fin.ofNat 256 (0x80 + c.val / 4096 % 64),
      Fin.ofNat 256 (0x80 + c.val / 64 % 64), Fin.ofNat 256 (0x80 + c.val % 64)]

/-- `text.encode("utf-8")`; `none` stands for `UnicodeEncodeError`. -/
def encodeUtf8 : Text → Option Bytes
  | [] => some []
  | c :: rest =>
    match encodeCodePoint c, encodeUtf8 rest with
    | some head, some tail => some (head ++ tail)
    | _, _ => none

@[simp] theorem encodeUtf8_nil : encodeUtf8 [] = some [] := rfl

theorem encodeUtf8_cons_eq_some {c : CodePoint} {t : Text} {b : Bytes} :
    encodeUtf8 (c :: t) = some b ↔
      ∃ head tail, encodeCodePoint c = some head ∧ encodeUtf8 t = some tail ∧
        b = head ++ tail := by
  cases hc : encodeCodePoint c <;> cases ht : encodeUtf8 t <;>
    simp [encodeUtf8, hc, ht, eq_comm]

theorem encodeUtf8_append_eq_some {s t : Text} {b : Bytes} :
    encodeUtf8 (s ++ t) = some b ↔
      ∃ bs bt, encodeUtf8 s = some bs ∧ encodeUtf8 t = some bt ∧ b = bs ++ bt := by
  induction s generalizing b with
  | nil => simp
  | cons c s ih =>
    simp only [List.cons_append, encodeUtf8_cons_eq_some, ih]
    constructor
    · rintro ⟨head, _, hc, ⟨bs, bt, hs, ht, rfl⟩, rfl⟩
      exact ⟨head ++ bs, bt, ⟨head, bs, hc, hs, rfl⟩, ht, by simp⟩
    · rintro ⟨_, bt, ⟨head, bs, hc, hs, rfl⟩, ht, rfl⟩
      exact ⟨head, bs ++ bt, hc, ⟨bs, bt, hs, ht, rfl⟩, by simp⟩

/-- A continuation byte. -/
def isContinuation (b : Byte) : Bool := 0x80 ≤ b.val && b.val < 0xC0

/-- `content.decode("utf-8")`; `none` stands for `UnicodeDecodeError`.  The
    tests are those of the strict decoder: no overlong form, no surrogate,
    nothing above `0x10FFFF`. -/
def decodeUtf8 : Bytes → Option Text
  | [] => some []
  | b₀ :: rest =>
    if b₀.val < 0x80 then
      (decodeUtf8 rest).map (Fin.ofNat 0x110000 b₀.val :: ·)
    else
      match rest with
      | [] => none
      | b₁ :: rest =>
        if 0xC2 ≤ b₀.val ∧ b₀.val < 0xE0 then
          if isContinuation b₁ then
            (decodeUtf8 rest).map
              (Fin.ofNat 0x110000 ((b₀.val - 0xC0) * 64 + (b₁.val - 0x80)) :: ·)
          else
            none
        else
          match rest with
          | [] => none
          | b₂ :: rest =>
            if 0xE0 ≤ b₀.val ∧ b₀.val < 0xF0 then
              let n := (b₀.val - 0xE0) * 4096 + (b₁.val - 0x80) * 64 + (b₂.val - 0x80)
              if isContinuation b₁ ∧ isContinuation b₂ ∧ 0x800 ≤ n ∧ ¬ (0xD800 ≤ n ∧ n ≤ 0xDFFF) then
                (decodeUtf8 rest).map (Fin.ofNat 0x110000 n :: ·)
              else
                none
            else
              match rest with
              | [] => none
              | b₃ :: rest =>
                let n := (b₀.val - 0xF0) * 262144 + (b₁.val - 0x80) * 4096 +
                  (b₂.val - 0x80) * 64 + (b₃.val - 0x80)
                if 0xF0 ≤ b₀.val ∧ isContinuation b₁ ∧ isContinuation b₂ ∧ isContinuation b₃ ∧
                    0x10000 ≤ n ∧ n < 0x110000 then
                  (decodeUtf8 rest).map (Fin.ofNat 0x110000 n :: ·)
                else
                  none

theorem decodeUtf8_encodeCodePoint {c : CodePoint} {head : Bytes}
    (h : encodeCodePoint c = some head) (rest : Bytes) :
    decodeUtf8 (head ++ rest) = (decodeUtf8 rest).map (c :: ·) := by
  have hc := c.isLt
  have hself : ∀ n, n = c.val → Fin.ofNat 0x110000 n = c := by
    rintro n rfl
    exact Fin.ofNat_val_eq_self c
  unfold encodeCodePoint at h
  split at h
  · next h₁ =>
    cases h
    have hb : (Fin.ofNat 256 c.val).val = c.val := Nat.mod_eq_of_lt (by omega)
    rw [decodeUtf8.eq_def]
    simp only [List.cons_append, List.nil_append, hb]
    rw [if_pos (by omega), hself _ rfl]
  split at h
  · next h₁ h₂ =>
    cases h
    have hb₀ : (Fin.ofNat 256 (0xC0 + c.val / 64)).val = 0xC0 + c.val / 64 :=
      Nat.mod_eq_of_lt (by omega)
    have hb₁ : (Fin.ofNat 256 (0x80 + c.val % 64)).val = 0x80 + c.val % 64 :=
      Nat.mod_eq_of_lt (by omega)
    rw [decodeUtf8.eq_def]
    simp only [List.cons_append, List.nil_append, isContinuation, hb₀, hb₁]
    rw [if_neg (by omega), if_pos (by omega), if_pos (by simp; omega), hself _ (by omega)]
  split at h
  · cases h
  next h₁ h₂ h₃ =>
  simp only [CodePoint.isSurrogate, Bool.and_eq_true, decide_eq_true_eq] at h₃
  split at h
  · next h₄ =>
    cases h
    have hb₀ : (Fin.ofNat 256 (0xE0 + c.val / 4096)).val = 0xE0 + c.val / 4096 :=
      Nat.mod_eq_of_lt (by omega)
    have hb₁ : (Fin.ofNat 256 (0x80 + c.val / 64 % 64)).val = 0x80 + c.val / 64 % 64 :=
      Nat.mod_eq_of_lt (by omega)
    have hb₂ : (Fin.ofNat 256 (0x80 + c.val % 64)).val = 0x80 + c.val % 64 :=
      Nat.mod_eq_of_lt (by omega)
    rw [decodeUtf8.eq_def]
    simp only [List.cons_append, List.nil_append, isContinuation, hb₀, hb₁, hb₂]
    rw [if_neg (by omega), if_neg (by omega), if_pos (by omega), if_pos (by simp; omega),
      hself _ (by omega)]
  · next h₄ =>
    cases h
    have hb₀ : (Fin.ofNat 256 (0xF0 + c.val / 262144)).val = 0xF0 + c.val / 262144 :=
      Nat.mod_eq_of_lt (by omega)
    have hb₁ : (Fin.ofNat 256 (0x80 + c.val / 4096 % 64)).val = 0x80 + c.val / 4096 % 64 :=
      Nat.mod_eq_of_lt (by omega)
    have hb₂ : (Fin.ofNat 256 (0x80 + c.val / 64 % 64)).val = 0x80 + c.val / 64 % 64 :=
      Nat.mod_eq_of_lt (by omega)
    have hb₃ : (Fin.ofNat 256 (0x80 + c.val % 64)).val = 0x80 + c.val % 64 :=
      Nat.mod_eq_of_lt (by omega)
    rw [decodeUtf8.eq_def]
    simp only [List.cons_append, List.nil_append, isContinuation, hb₀, hb₁, hb₂, hb₃]
    rw [if_neg (by omega), if_neg (by omega), if_neg (by omega), if_pos (by simp; omega),
      hself _ (by omega)]

/-- Decoding undoes encoding. -/
theorem decodeUtf8_encodeUtf8 {t : Text} {b : Bytes} (h : encodeUtf8 t = some b) :
    decodeUtf8 b = some t := by
  induction t generalizing b with
  | nil =>
    cases h
    rfl
  | cons c t ih =>
    obtain ⟨head, tail, hhead, htail, rfl⟩ := encodeUtf8_cons_eq_some.mp h
    rw [decodeUtf8_encodeCodePoint hhead, ih htail]
    rfl

/-- The number of UTF-8 bytes of a text. -/
def utf8Length (t : Text) : Option Nat := (encodeUtf8 t).map List.length

/-- A text that UTF-8 can carry: one without surrogates. -/
def ValidUtf8 (t : Text) : Prop := (encodeUtf8 t).isSome

instance (t : Text) : Decidable (ValidUtf8 t) := inferInstanceAs (Decidable (_ = true))

theorem validUtf8_append {s t : Text} : ValidUtf8 (s ++ t) ↔ ValidUtf8 s ∧ ValidUtf8 t := by
  simp only [ValidUtf8, Option.isSome_iff_exists, encodeUtf8_append_eq_some]
  constructor
  · rintro ⟨_, bs, bt, hs, ht, -⟩
    exact ⟨⟨bs, hs⟩, ⟨bt, ht⟩⟩
  · rintro ⟨⟨bs, hs⟩, ⟨bt, ht⟩⟩
    exact ⟨_, bs, bt, hs, ht, rfl⟩

theorem utf8Length_append {s t : Text} {m n : Nat} (hs : utf8Length s = some m)
    (ht : utf8Length t = some n) : utf8Length (s ++ t) = some (m + n) := by
  simp only [utf8Length, Option.map_eq_some_iff] at hs ht ⊢
  obtain ⟨bs, hs, rfl⟩ := hs
  obtain ⟨bt, ht, rfl⟩ := ht
  exact ⟨bs ++ bt, encodeUtf8_append_eq_some.mpr ⟨bs, bt, hs, ht, rfl⟩, by simp⟩

/-! ## Section 3: Prefix, suffix, search, split -/

/-- `text.startswith(prefix)`. -/
def startsWith (t head : List α) [BEq α] : Bool := head.isPrefixOf t

/-- `text.endswith(suffix)`. -/
def endsWith (t tail : List α) [BEq α] : Bool := tail.isSuffixOf t

/-- `sub in text`. -/
def contains [BEq α] (sub : List α) : List α → Bool
  | [] => sub.isPrefixOf []
  | c :: rest => sub.isPrefixOf (c :: rest) || contains sub rest

/-- `text.split(sep)` for a one-character separator. -/
def split (sep : CodePoint) (t : Text) : List Text := t.splitOn sep

/-- `sep.join(parts)`. -/
def join (sep : Text) (parts : List Text) : Text := sep.intercalate parts

theorem startsWith_iff [BEq α] [LawfulBEq α] {t head : List α} :
    startsWith t head = true ↔ head <+: t := by
  simp [startsWith]

theorem endsWith_iff [BEq α] [LawfulBEq α] {t tail : List α} :
    endsWith t tail = true ↔ tail <:+ t := by
  simp [endsWith]

theorem contains_iff [BEq α] [LawfulBEq α] {sub t : List α} :
    contains sub t = true ↔ sub <:+: t := by
  induction t with
  | nil => simp [contains]
  | cons c t ih => simp [contains, ih, List.infix_cons_iff]

theorem contains_singleton [BEq α] [LawfulBEq α] {c : α} {t : List α} :
    contains [c] t = true ↔ c ∈ t := by
  rw [contains_iff]
  constructor
  · exact fun h => h.subset List.mem_cons_self
  · intro h
    obtain ⟨pre, post, rfl⟩ := List.append_of_mem h
    exact ⟨pre, post, by simp⟩

theorem split_cons_sep (sep : CodePoint) (t : Text) : split sep (sep :: t) = [] :: split sep t := by
  simp [split, List.splitOn_cons_eq_if_modifyHead]

theorem split_cons_of_ne {sep c : CodePoint} (h : c ≠ sep) (t : Text) :
    ∃ head tail, split sep t = head :: tail ∧ split sep (c :: t) = (c :: head) :: tail := by
  cases hs : split sep t with
  | nil => exact absurd hs (List.splitOn_ne_nil sep t)
  | cons head tail =>
    refine ⟨head, tail, rfl, ?_⟩
    rw [split] at hs ⊢
    simp [List.splitOn_cons_eq_if_modifyHead, hs, h]

/-- The pieces of a split hold characters of the text, and no separator. -/
theorem mem_split {sep : CodePoint} {t piece : Text} (h : piece ∈ split sep t) :
    sep ∉ piece ∧ piece ⊆ t := by
  induction t generalizing piece with
  | nil =>
    simp only [split, List.splitOn_nil, List.mem_singleton] at h
    simp [h]
  | cons c t ih =>
    by_cases hc : c = sep
    · subst hc
      rw [split_cons_sep, List.mem_cons] at h
      rcases h with rfl | h
      · simp
      · exact (ih h).imp_right fun hsub => List.subset_cons_of_subset c hsub
    · obtain ⟨head, tail, hs, hcons⟩ := split_cons_of_ne hc t
      rw [hs] at ih
      rw [hcons, List.mem_cons] at h
      rcases h with rfl | h
      · obtain ⟨hsep, hsub⟩ := ih List.mem_cons_self
        exact ⟨by simp [hsep, Ne.symm hc], List.cons_subset_cons c hsub⟩
      · exact (ih (List.mem_cons_of_mem _ h)).imp_right fun hsub =>
          List.subset_cons_of_subset c hsub

theorem split_append_cons (sep : CodePoint) (s t : Text) :
    split sep (s ++ sep :: t) = split sep s ++ split sep t :=
  List.splitOn_append_cons_self s t

theorem split_of_not_mem {sep : CodePoint} {t : Text} (h : sep ∉ t) : split sep t = [t] :=
  List.splitOn_eq_singleton h

theorem split_ne_nil (sep : CodePoint) (t : Text) : split sep t ≠ [] :=
  List.splitOn_ne_nil sep t

/-- A join is its first part followed by the others, each after a separator. -/
theorem join_cons (sep part : Text) (parts : List Text) :
    join sep (part :: parts) = part ++ parts.flatMap fun s => sep ++ s := by
  induction parts generalizing part with
  | nil => simp [join]
  | cons next parts ih =>
    have := ih next
    rw [join] at this ⊢
    rw [List.intercalate_cons_cons, this]
    simp

theorem join_cons_cons (sep part next : Text) (parts : List Text) :
    join sep (part :: next :: parts) = part ++ sep ++ join sep (next :: parts) :=
  List.intercalate_cons_cons

/-- Joining the pieces of a split gives the text back. -/
theorem join_split (sep : CodePoint) (t : Text) : join [sep] (split sep t) = t :=
  List.intercalate_splitOn sep

/-- Splitting a join gives the pieces back. -/
theorem split_join {sep : CodePoint} {parts : List Text} (h : ∀ s ∈ parts, sep ∉ s)
    (hne : parts ≠ []) : split sep (join [sep] parts) = parts :=
  List.splitOn_intercalate sep h hne

/-! ## Section 4: Replacement and numerals -/

/-- `text.replace(old, new)` for a non-empty `old`; the fuel is the length of the text. -/
def replaceLoop (old new : Text) : Nat → Text → Text
  | _, [] => []
  | 0, t => t
  | fuel + 1, c :: rest =>
    if startsWith (c :: rest) old then
      new ++ replaceLoop old new fuel ((c :: rest).drop old.length)
    else
      c :: replaceLoop old new fuel rest

/-- `text.replace(old, new)`. -/
def replace (t old new : Text) : Text := replaceLoop old new t.length t

/-- The decimal digits outside ASCII, as the Unicode database lists them. -/
class UnicodeData where
  decimal : CodePoint → Option (Fin 10)

/-- The value of a decimal digit. -/
def decimalValue [UnicodeData] (c : CodePoint) : Option Nat :=
  if 48 ≤ c.val ∧ c.val ≤ 57 then some (c.val - 48)
  else if c.val < 128 then none
  else (UnicodeData.decimal c).map Fin.val

/-- What `\\d` matches. -/
def isDecimal [UnicodeData] (c : CodePoint) : Bool := (decimalValue c).isSome

/-- The number that a text of decimal digits denotes. -/
def numeral [UnicodeData] (digits : Text) : Nat :=
  digits.foldl (fun n c => 10 * n + (decimalValue c).getD 0) 0

/-! ## Section 5: Hexadecimal -/

/-- A hexadecimal digit. -/
def hexDigit (n : Nat) : CodePoint := (py "0123456789abcdef").getD n 0

/-- `bytes.hex`. -/
def hex (bytes : Bytes) : Text :=
  bytes.flatMap fun b => [hexDigit (b.val / 16), hexDigit (b.val % 16)]

/-- The value of a hexadecimal digit. -/
def hexValue (c : CodePoint) : Nat := (py "0123456789abcdef").idxOf c

/-- `bytes.fromhex`, on digits. -/
def fromHex : Text → Bytes
  | high :: low :: rest => Fin.ofNat 256 (16 * hexValue high + hexValue low) :: fromHex rest
  | _ => []

theorem hexDigit_mem (n : Nat) (h : n < 16) : hexDigit n ∈ py "0123456789abcdef" := by
  unfold hexDigit
  have hlt : n < (py "0123456789abcdef").length := by simpa [py] using h
  rw [List.getD_eq_getElem?_getD, List.getElem?_eq_getElem hlt, Option.getD_some]
  exact List.getElem_mem hlt

theorem hex_digits (bytes : Bytes) : ∀ c ∈ hex bytes, c ∈ py "0123456789abcdef" := by
  intro c hc
  obtain ⟨b, -, hb⟩ := List.mem_flatMap.mp hc
  rcases List.mem_cons.mp hb with rfl | hb
  · exact hexDigit_mem _ (by omega)
  · rw [List.mem_singleton.mp hb]
    exact hexDigit_mem _ (by omega)

theorem length_hex (bytes : Bytes) : (hex bytes).length = 2 * bytes.length := by
  induction bytes with
  | nil => rfl
  | cons b bytes ih =>
    rw [hex, List.flatMap_cons, List.length_append, ← hex, ih]
    simp only [List.length_cons, List.length_nil]
    omega

/-- The digits of bytes, read back. -/
theorem fromHex_hex (bytes : Bytes) : fromHex (hex bytes) = bytes := by
  induction bytes with
  | nil => rfl
  | cons b bytes ih =>
    have hvalue : ∀ n : Fin 16, hexValue (hexDigit n.val) = n.val := by decide
    have hhigh := hvalue ⟨b.val / 16, by omega⟩
    have hlow := hvalue ⟨b.val % 16, by omega⟩
    simp only at hhigh hlow
    have hbyte : (Fin.ofNat 256 (16 * (b.val / 16) + b.val % 16) : Byte) = b := by
      apply Fin.ext
      simp only [Fin.ofNat]
      omega
    show fromHex (hexDigit (b.val / 16) :: hexDigit (b.val % 16) :: hex bytes) = b :: bytes
    rw [fromHex, hhigh, hlow, ih, hbyte]

theorem hex_injective : Function.Injective hex := by
  intro a b h
  rw [← fromHex_hex a, h, fromHex_hex b]

theorem hexValue_lt {c : CodePoint} (h : c ∈ py "0123456789abcdef") : hexValue c < 16 := by
  have hlt := List.idxOf_lt_length_of_mem h
  simpa [hexValue, py] using hlt

theorem hexDigit_hexValue {c : CodePoint} (h : c ∈ py "0123456789abcdef") :
    hexDigit (hexValue c) = c := by
  have hlt := List.idxOf_lt_length_of_mem h
  rw [hexDigit, hexValue, List.getD_eq_getElem?_getD, List.getElem?_eq_getElem hlt,
    Option.getD_some, List.getElem_idxOf]

/-- Digits in pairs are the digits of the bytes they denote. -/
theorem hex_fromHex {t : Text} (heven : 2 ∣ t.length) (h : ∀ c ∈ t, c ∈ py "0123456789abcdef") :
    hex (fromHex t) = t := by
  induction t using fromHex.induct with
  | case1 high low rest ih =>
    obtain ⟨hhigh, h⟩ := List.forall_mem_cons.mp h
    obtain ⟨hlow, hrest⟩ := List.forall_mem_cons.mp h
    have hevenRest : 2 ∣ rest.length := by
      simp only [List.length_cons] at heven
      omega
    have hhighLt := hexValue_lt hhigh
    have hlowLt := hexValue_lt hlow
    have hval : (Fin.ofNat 256 (16 * hexValue high + hexValue low)).val =
        16 * hexValue high + hexValue low := Nat.mod_eq_of_lt (by omega)
    have hdiv : (16 * hexValue high + hexValue low) / 16 = hexValue high := by omega
    have hmod : (16 * hexValue high + hexValue low) % 16 = hexValue low := by omega
    rw [fromHex, hex, List.flatMap_cons, ← hex, ih hevenRest hrest, hval, hdiv, hmod,
      hexDigit_hexValue hhigh, hexDigit_hexValue hlow]
    rfl
  | case2 t hne =>
    cases t with
    | nil => rfl
    | cons high t =>
      cases t with
      | nil => simp at heven
      | cons low rest => exact absurd rfl (hne high low rest)

theorem length_fromHex {t : Text} (heven : 2 ∣ t.length) (h : ∀ c ∈ t, c ∈ py "0123456789abcdef") :
    2 * (fromHex t).length = t.length := by
  rw [← length_hex, hex_fromHex heven h]

end Python
