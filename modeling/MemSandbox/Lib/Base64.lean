import MemSandbox.Lib.Text

/-! # Base64

    The standard alphabet with padding, and the strict decoder that refuses
    anything outside the alphabet and any misplaced padding.  The decoder does
    not look at the unused bits of the last group.

    The result is `decode_encode`: decoding undoes encoding. -/

namespace Base64

open Python

/-- The sixty-four digits. -/
def alphabet : Text := py "ABCDEFGHIJKLMNOPQRSTUVWXYZabcdefghijklmnopqrstuvwxyz0123456789+/"

/-- The padding character. -/
def pad : CodePoint := CodePoint.ofChar '='

/-- The digit of a value below 64. -/
def digit (n : Nat) : CodePoint := alphabet.getD n 0

/-- The value of a digit. -/
def value? (c : CodePoint) : Option Nat :=
  if alphabet.idxOf c < 64 then some (alphabet.idxOf c) else none

/-- `base64.b64encode`, as text. -/
def encode : Bytes → Text
  | [] => []
  | [a] => [digit (a.val / 4), digit (a.val % 4 * 16), pad, pad]
  | [a, b] =>
    [digit (a.val / 4), digit (a.val % 4 * 16 + b.val / 16), digit (b.val % 16 * 4), pad]
  | a :: b :: c :: rest =>
    digit (a.val / 4) :: digit (a.val % 4 * 16 + b.val / 16) ::
      digit (b.val % 16 * 4 + c.val / 64) :: digit (c.val % 64) :: encode rest

/-- The last group, which may be padded. -/
def decodeLast (w x y z : CodePoint) : Option Bytes := do
  let a ← value? w
  let b ← value? x
  if y = pad then
    guard (z = pad)
    return [Fin.ofNat 256 (a * 4 + b / 16)]
  else
    let c ← value? y
    if z = pad then
      return [Fin.ofNat 256 (a * 4 + b / 16), Fin.ofNat 256 (b % 16 * 16 + c / 4)]
    else
      let d ← value? z
      return [Fin.ofNat 256 (a * 4 + b / 16), Fin.ofNat 256 (b % 16 * 16 + c / 4),
        Fin.ofNat 256 (c % 4 * 64 + d)]

/-- A group that others follow, which may not be padded. -/
def decodeGroup (w x y z : CodePoint) : Option Bytes := do
  let a ← value? w
  let b ← value? x
  let c ← value? y
  let d ← value? z
  return [Fin.ofNat 256 (a * 4 + b / 16), Fin.ofNat 256 (b % 16 * 16 + c / 4),
    Fin.ofNat 256 (c % 4 * 64 + d)]

/-- `base64.b64decode(text, validate=True)`; `none` stands for its errors. -/
def decode : Text → Option Bytes
  | [] => some []
  | [w, x, y, z] => decodeLast w x y z
  | w :: x :: y :: z :: rest => do
    let head ← decodeGroup w x y z
    let tail ← decode rest
    return head ++ tail
  | _ => none

/-! ## Round trip -/

theorem value?_digit_all : ∀ n : Fin 64, value? (digit n.val) = some n.val := by
  decide +kernel

theorem value?_digit {n : Nat} (h : n < 64) : value? (digit n) = some n :=
  value?_digit_all ⟨n, h⟩

theorem digit_ne_pad_all : ∀ n : Fin 64, digit n.val ≠ pad := by
  decide +kernel

theorem digit_ne_pad {n : Nat} (h : n < 64) : digit n ≠ pad :=
  digit_ne_pad_all ⟨n, h⟩

theorem ofNat_eq {a : Byte} {n : Nat} (h : n = a.val) : Fin.ofNat 256 n = a := by
  subst h
  exact Fin.ofNat_val_eq_self a

theorem decodeLast_one (a : Byte) :
    decodeLast (digit (a.val / 4)) (digit (a.val % 4 * 16)) pad pad = some [a] := by
  have ha := a.isLt
  have h₁ := value?_digit (show a.val / 4 < 64 by omega)
  have h₂ := value?_digit (show a.val % 4 * 16 < 64 by omega)
  have hb : Fin.ofNat 256 (a.val / 4 * 4 + a.val % 4 * 16 / 16) = a := ofNat_eq (by omega)
  simp only [decodeLast, h₁, h₂, if_true, Option.bind_eq_bind, Option.bind_some, hb]
  rfl

theorem decodeLast_two (a b : Byte) :
    decodeLast (digit (a.val / 4)) (digit (a.val % 4 * 16 + b.val / 16))
      (digit (b.val % 16 * 4)) pad = some [a, b] := by
  have ha := a.isLt
  have hb := b.isLt
  have h₁ := value?_digit (show a.val / 4 < 64 by omega)
  have h₂ := value?_digit (show a.val % 4 * 16 + b.val / 16 < 64 by omega)
  have h₃ := value?_digit (show b.val % 16 * 4 < 64 by omega)
  have hne := digit_ne_pad (show b.val % 16 * 4 < 64 by omega)
  have ea : Fin.ofNat 256 (a.val / 4 * 4 + (a.val % 4 * 16 + b.val / 16) / 16) = a :=
    ofNat_eq (by omega)
  have eb : Fin.ofNat 256 ((a.val % 4 * 16 + b.val / 16) % 16 * 16 + b.val % 16 * 4 / 4) = b :=
    ofNat_eq (by omega)
  simp only [decodeLast, h₁, h₂, h₃, if_neg hne, if_true, Option.bind_eq_bind, Option.bind_some,
    ea, eb]
  rfl

/-- The digits of three bytes, read back as a group. -/
theorem group_three (a b c : Byte) :
    decodeGroup (digit (a.val / 4)) (digit (a.val % 4 * 16 + b.val / 16))
      (digit (b.val % 16 * 4 + c.val / 64)) (digit (c.val % 64)) = some [a, b, c] := by
  have ha := a.isLt
  have hb := b.isLt
  have hc := c.isLt
  have h₁ := value?_digit (show a.val / 4 < 64 by omega)
  have h₂ := value?_digit (show a.val % 4 * 16 + b.val / 16 < 64 by omega)
  have h₃ := value?_digit (show b.val % 16 * 4 + c.val / 64 < 64 by omega)
  have h₄ := value?_digit (show c.val % 64 < 64 by omega)
  have ea : Fin.ofNat 256 (a.val / 4 * 4 + (a.val % 4 * 16 + b.val / 16) / 16) = a :=
    ofNat_eq (by omega)
  have eb : Fin.ofNat 256 ((a.val % 4 * 16 + b.val / 16) % 16 * 16 +
      (b.val % 16 * 4 + c.val / 64) / 4) = b :=
    ofNat_eq (by omega)
  have ec : Fin.ofNat 256 ((b.val % 16 * 4 + c.val / 64) % 4 * 64 + c.val % 64) = c :=
    ofNat_eq (by omega)
  simp only [decodeGroup, h₁, h₂, h₃, h₄, Option.bind_eq_bind, Option.bind_some, ea, eb, ec]
  rfl

theorem decodeLast_of_group {w x y z : CodePoint} {out : Bytes}
    (h : decodeGroup w x y z = some out) (hy : y ≠ pad) (hz : z ≠ pad) :
    decodeLast w x y z = some out := by
  rw [← h]
  simp [decodeLast, decodeGroup, hy, hz]

theorem encode_ne_nil (a : Byte) (rest : Bytes) : encode (a :: rest) ≠ [] := by
  unfold encode
  split <;> simp_all

/-- Decoding undoes encoding. -/
theorem decode_encode (content : Bytes) : decode (encode content) = some content := by
  induction content using encode.induct with
  | case1 => rfl
  | case2 a => exact decodeLast_one a
  | case3 a b => exact decodeLast_two a b
  | case4 a b c rest ih =>
    have hgroup := group_three a b c
    rw [encode]
    cases rest with
    | nil =>
      -- the last group is read by the branch that would allow padding
      have hy := digit_ne_pad (show b.val % 16 * 4 + c.val / 64 < 64 by omega)
      have hz := digit_ne_pad (show c.val % 64 < 64 by omega)
      exact decodeLast_of_group hgroup hy hz
    | cons d rest =>
      cases henc : encode (d :: rest) with
      | nil => exact absurd henc (encode_ne_nil d rest)
      | cons e out =>
        rw [henc] at ih
        simp only [decode, hgroup, ih]
        rfl

end Base64
