import MemSandbox.Lib.Text

/-! # Characters and replacement

    The `str` predicates that depend on the Unicode database, and what
    `str.replace` does to texts with and without the replaced one.  White
    space is a short closed list and stands here in full; letters outside
    ASCII are a parameter. -/

namespace Python

/-! ## Section 1: Character classes -/

/-- `character.isspace()`. -/
def isWhitespace (c : CodePoint) : Bool :=
  (0x09 ≤ c.val && c.val ≤ 0x0D) || (0x1C ≤ c.val && c.val ≤ 0x20) || c.val == 0x85 ||
    c.val == 0xA0 || c.val == 0x1680 || (0x2000 ≤ c.val && c.val ≤ 0x200A) || c.val == 0x2028 ||
    c.val == 0x2029 || c.val == 0x202F || c.val == 0x205F || c.val == 0x3000

/-- The letters outside ASCII, as the Unicode database lists them. -/
class UnicodeLetters where
  letter : CodePoint → Bool

/-- No letter outside ASCII. -/
abbrev asciiLetters : UnicodeLetters where
  letter _ := false

/-- An ASCII letter. -/
def isAsciiLetter (c : CodePoint) : Bool :=
  (0x41 ≤ c.val && c.val ≤ 0x5A) || (0x61 ≤ c.val && c.val ≤ 0x7A)

/-- An ASCII digit. -/
def isAsciiDecimal (c : CodePoint) : Bool := 0x30 ≤ c.val && c.val ≤ 0x39

/-- `character.isalpha()`. -/
def isAlpha [UnicodeLetters] (c : CodePoint) : Bool :=
  if c.val < 0x80 then isAsciiLetter c else UnicodeLetters.letter c

/-- `text.isascii() and text.isdigit()`. -/
def isAsciiNumber (t : Text) : Bool := t ≠ [] && t.all isAsciiDecimal

/-! ## Section 2: Replacement -/

theorem replaceLoop_singleton {c : CodePoint} {new : Text} {fuel : Nat} {t : Text}
    (hfuel : t.length ≤ fuel) :
    replaceLoop [c] new fuel t = t.flatMap fun d => if d = c then new else [d] := by
  induction t generalizing fuel with
  | nil => cases fuel <;> rfl
  | cons d t ih =>
    cases fuel with
    | zero => simp at hfuel
    | succ fuel =>
      have hlen : t.length ≤ fuel := by simpa using hfuel
      rw [replaceLoop, List.flatMap_cons]
      by_cases hd : d = c
      · subst hd
        rw [if_pos (by simp [startsWith]), if_pos rfl, List.length_singleton, List.drop_one,
          List.tail_cons, ih hlen]
      · rw [if_neg (by simpa [startsWith] using Ne.symm hd), if_neg hd, ih hlen,
          List.singleton_append]

/-- Replacing one character. -/
theorem replace_singleton (t : Text) (c : CodePoint) (new : Text) :
    replace t [c] new = t.flatMap fun d => if d = c then new else [d] :=
  replaceLoop_singleton le_rfl

/-- The replaced character is gone. -/
theorem not_mem_replace_singleton {t : Text} {c : CodePoint} {new : Text} (hnew : c ∉ new) :
    c ∉ replace t [c] new := by
  rw [replace_singleton]
  intro h
  obtain ⟨d, -, hmem⟩ := List.mem_flatMap.mp h
  by_cases hd : d = c
  · rw [if_pos hd] at hmem
    exact hnew hmem
  · rw [if_neg hd] at hmem
    exact hd (List.mem_singleton.mp hmem).symm

theorem replaceLoop_of_not_mem {c : CodePoint} {more new : Text} {fuel : Nat} {t : Text}
    (h : c ∉ t) : replaceLoop (c :: more) new fuel t = t := by
  induction t generalizing fuel with
  | nil => cases fuel <;> rfl
  | cons d t ih =>
    rw [List.mem_cons, not_or] at h
    cases fuel with
    | zero => rfl
    | succ fuel =>
      have hd : startsWith (d :: t) (c :: more) ≠ true := by
        intro hstart
        exact h.1 (List.cons_prefix_cons.mp (startsWith_iff.mp hstart)).1
      rw [replaceLoop, if_neg hd, ih h.2]

/-- A text without the first replaced character stays as it is. -/
theorem replace_of_not_mem {c : CodePoint} {more new t : Text} (h : c ∉ t) :
    replace t (c :: more) new = t :=
  replaceLoop_of_not_mem h

end Python
