import MemSandbox.Lib.Text
import MemSandbox.Lib.Sorted
import MemSandbox.Lib.Dict

/-! # JSON

    `json.dumps(value, ensure_ascii=False, separators=(",", ":"),
    sort_keys=True)` and `json.loads(text, object_pairs_hook=hook)`.

    A reader fixes what the interpreter and the caller decide: the depth at
    which it gives up, the text of a float, the hook, and the exceptions.

    The result is `loads_dumps`: reading gives back what was printed, for the
    documents that `Readable` describes. -/

open Python

/-- A value of the `json` module.  A float is known by the text it prints as. -/
inductive Json where
  | null
  | bool (value : Bool)
  | int (value : Int)
  | float (text : Text)
  | str (value : Text)
  | list (items : List Json)
  | dict (items : List (Text × Json))

namespace Json

/-! ## Section 1: Characters -/

def quote : CodePoint := 0x22
def backslash : CodePoint := 0x5C
def comma : CodePoint := 0x2C
def colon : CodePoint := 0x3A
def lbracket : CodePoint := 0x5B
def rbracket : CodePoint := 0x5D
def lbrace : CodePoint := 0x7B
def rbrace : CodePoint := 0x7D
def minus : CodePoint := 0x2D
def plus : CodePoint := 0x2B
def dot : CodePoint := 0x2E
def zero : CodePoint := 0x30
def letterU : CodePoint := 0x75

/-- JSON whitespace. -/
def isSpace (c : CodePoint) : Bool := c = 0x20 || c = 0x09 || c = 0x0A || c = 0x0D

/-- An ASCII digit. -/
def isDigit (c : CodePoint) : Bool := 48 ≤ c.val && c.val ≤ 57

/-- The characters that are escaped by a letter, with their letters. -/
def escapes : List (CodePoint × CodePoint) :=
  [(quote, quote), (backslash, backslash), (0x08, 0x62), (0x0C, 0x66), (0x0A, 0x6E),
    (0x0D, 0x72), (0x09, 0x74)]

/-- The escapes that are read: the printed ones, and the solidus. -/
def unescapes : List (CodePoint × CodePoint) :=
  (0x2F, 0x2F) :: escapes.map Prod.swap

/-! ## Section 2: Printing -/

/-- A character of a string, as printed. -/
def escape (c : CodePoint) : Text :=
  match escapes.lookup c with
  | some letter => [backslash, letter]
  | none =>
    if c.val < 0x20 then
      [backslash, letterU, zero, zero, hexDigit (c.val / 16), hexDigit (c.val % 16)]
    else
      [c]

/-- A string, as printed. -/
def encodeString (s : Text) : Text := quote :: s.flatMap escape ++ [quote]

/-- The number of digits that `int` and `str` convert. -/
def maxDigits : Nat := 4300

/-- An integer, as printed. -/
def encodeInt (n : Int) : Option Text :=
  if (Text.ofNat n.natAbs).length ≤ maxDigits then some (Text.ofInt n) else none

/-- One member of an object, as printed. -/
def member (item : Text × Text) : Text := encodeString item.1 ++ colon :: item.2

mutual

/-- `json.dumps`; `none` stands for the `ValueError` of an integer that is too long. -/
def dumps : Json → Option Text
  | .null => some (py "null")
  | .bool true => some (py "true")
  | .bool false => some (py "false")
  | .int n => encodeInt n
  | .float text => some text
  | .str s => some (encodeString s)
  | .list items =>
    (dumpsAll items).map fun parts => lbracket :: join [comma] parts ++ [rbracket]
  | .dict items =>
    (dumpsItems items).map fun parts =>
      lbrace :: join [comma] ((sorted Prod.fst parts).map member) ++ [rbrace]

/-- The elements of a list, as printed. -/
def dumpsAll : List Json → Option (List Text)
  | [] => some []
  | item :: rest =>
    match dumps item, dumpsAll rest with
    | some text, some tail => some (text :: tail)
    | _, _ => none

/-- The values of a dictionary, as printed. -/
def dumpsItems : List (Text × Json) → Option (List (Text × Text))
  | [] => some []
  | (key, value) :: rest =>
    match dumps value, dumpsItems rest with
    | some text, some tail => some ((key, text) :: tail)
    | _, _ => none

end

/-! ## Section 3: Reading -/

/-- What the interpreter and the caller decide. -/
structure Reader (ε : Type) where
  maxDepth : Nat
  floatText : Text → Text
  objectPairsHook : List (Text × Json) → Except ε Json
  malformed : ε
  tooLong : Nat → ε
  tooDeep : ε

/-- The text after any whitespace. -/
def skipSpace (t : Text) : Text := t.dropWhile isSpace

/-- The value of a hexadecimal digit in an escape. -/
def hexDigit? (c : CodePoint) : Option Nat :=
  if isDigit c then some (c.val - 48)
  else if 0x61 ≤ c.val ∧ c.val ≤ 0x66 then some (c.val - 0x61 + 10)
  else if 0x41 ≤ c.val ∧ c.val ≤ 0x46 then some (c.val - 0x41 + 10)
  else none

/-- The value of four hexadecimal digits. -/
def hex4 (a b c d : CodePoint) : Option Nat := do
  let a ← hexDigit? a
  let b ← hexDigit? b
  let c ← hexDigit? c
  let d ← hexDigit? d
  return 4096 * a + 256 * b + 16 * c + d

def isHighSurrogate (n : Nat) : Bool := 0xD800 ≤ n && n ≤ 0xDBFF

def isLowSurrogate (n : Nat) : Bool := 0xDC00 ≤ n && n ≤ 0xDFFF

/-- The code point of a surrogate pair. -/
def joinSurrogates (high low : Nat) : CodePoint :=
  Fin.ofNat 0x110000 (0x10000 + 1024 * (high - 0xD800) + (low - 0xDC00))

/-- The low surrogate whose escape comes next, if one does. -/
def lowUnit : Text → Option Nat
  | x :: y :: d₁ :: d₂ :: d₃ :: d₄ :: _ =>
    if x = backslash ∧ y = letterU then (hex4 d₁ d₂ d₃ d₄).filter isLowSurrogate else none
  | _ => none

/-- The characters up to the closing quote, and the text after it. -/
def scanString : Text → Option (Text × Text)
  | [] => none
  | c :: rest =>
    if c = quote then
      some ([], rest)
    else if c.val < 0x20 then
      none
    else if c ≠ backslash then
      (scanString rest).map fun r => (c :: r.1, r.2)
    else
      match rest with
      | [] => none
      | letter :: rest =>
        if letter ≠ letterU then
          match unescapes.lookup letter with
          | none => none
          | some x => (scanString rest).map fun r => (x :: r.1, r.2)
        else
          match rest with
          | d₁ :: d₂ :: d₃ :: d₄ :: rest =>
            match hex4 d₁ d₂ d₃ d₄ with
            | none => none
            | some unit =>
              match lowUnit rest with
              | none => (scanString rest).map fun r => (Fin.ofNat 0x110000 unit :: r.1, r.2)
              | some low =>
                if isHighSurrogate unit then
                  match rest with
                  | _ :: _ :: _ :: _ :: _ :: _ :: rest =>
                    (scanString rest).map fun r => (joinSurrogates unit low :: r.1, r.2)
                  | _ => none
                else
                  (scanString rest).map fun r => (Fin.ofNat 0x110000 unit :: r.1, r.2)
          | _ => none

/-- `0`, or digits that do not start with `0`. -/
def scanWhole : Text → Option (Text × Text)
  | [] => none
  | c :: rest =>
    if c = zero then some ([c], rest)
    else if isDigit c then some (c :: (rest.span isDigit).1, (rest.span isDigit).2)
    else none

/-- A decimal point with digits after it, if that is what comes. -/
def scanFraction : Text → Text × Text
  | [] => ([], [])
  | c :: rest =>
    if c = dot ∧ (rest.span isDigit).1 ≠ [] then
      (c :: (rest.span isDigit).1, (rest.span isDigit).2)
    else
      ([], c :: rest)

/-- A sign, if one comes. -/
def scanSign : Text → Text × Text
  | [] => ([], [])
  | c :: rest => if c = plus ∨ c = minus then ([c], rest) else ([], c :: rest)

/-- An exponent, if that is what comes. -/
def scanExponent : Text → Text × Text
  | [] => ([], [])
  | c :: rest =>
    let (sign, digits) := scanSign rest
    if (c = 0x65 ∨ c = 0x45) ∧ (digits.span isDigit).1 ≠ [] then
      (c :: sign ++ (digits.span isDigit).1, (digits.span isDigit).2)
    else
      ([], c :: rest)

/-- The number that a text of digits denotes. -/
def decimal (digits : Text) : Nat := digits.foldl (fun n c => 10 * n + (c.val - 48)) 0

section Scanning

variable {ε : Type} (R : Reader ε)

/-- A number. -/
def scanNumber (t : Text) : Except ε (Json × Text) :=
  let (sign, t) := if t.head? = some minus then ([minus], t.tail) else ([], t)
  match scanWhole t with
  | none => .error R.malformed
  | some (whole, t) =>
    let (fraction, t) := scanFraction t
    let (exponent, t) := scanExponent t
    if fraction ≠ [] ∨ exponent ≠ [] then
      .ok (.float (R.floatText (sign ++ whole ++ fraction ++ exponent)), t)
    else if maxDigits < whole.length then
      .error (R.tooLong whole.length)
    else if sign = [] then
      .ok (.int (decimal whole), t)
    else
      .ok (.int (-decimal whole), t)

/-- The words that stand for values. -/
def constants : List (Text × Json) :=
  [(py "null", .null), (py "true", .bool true), (py "false", .bool false),
    (py "NaN", .float (py "NaN")), (py "Infinity", .float (py "Infinity")),
    (py "-Infinity", .float (py "-Infinity"))]

/-- A value that holds no other. -/
def scanScalar (t : Text) : Except ε (Json × Text) :=
  match t with
  | [] => .error R.malformed
  | c :: rest =>
    if c = quote then
      match scanString rest with
      | none => .error R.malformed
      | some (s, rest) => .ok (.str s, rest)
    else
      match constants.find? fun word => startsWith t word.1 with
      | some (word, value) => .ok (value, t.drop word.length)
      | none => scanNumber R t

/-- What stands between commas up to a closing character, from a first one on;
    the fuel is the length of the text. -/
def scanSeparated (one : Text → Except ε (α × Text)) (close : CodePoint) :
    Nat → Text → Except ε (List α × Text)
  | 0, _ => .error R.malformed
  | fuel + 1, t => do
    let (x, rest) ← one t
    match skipSpace rest with
    | [] => .error R.malformed
    | c :: rest =>
      if c = comma then do
        let (xs, rest) ← scanSeparated one close fuel (skipSpace rest)
        .ok (x :: xs, rest)
      else if c = close then
        .ok ([x], rest)
      else
        .error R.malformed

/-- What stands between commas, after the opening character. -/
def scanBetween (one : Text → Except ε (α × Text)) (close : CodePoint) (t : Text) :
    Except ε (List α × Text) :=
  let t := skipSpace t
  if t.head? = some close then .ok ([], t.tail) else scanSeparated R one close t.length t

/-- An array after its bracket. -/
def scanArray (scan : Text → Except ε (Json × Text)) (t : Text) : Except ε (Json × Text) := do
  let (values, rest) ← scanBetween R scan rbracket t
  .ok (.list values, rest)

/-- A key with its colon. -/
def scanKey (t : Text) : Except ε (Text × Text) :=
  match t with
  | [] => .error R.malformed
  | c :: rest =>
    if c = quote then
      match scanString rest with
      | none => .error R.malformed
      | some (key, rest) =>
        match skipSpace rest with
        | [] => .error R.malformed
        | c :: rest => if c = colon then .ok (key, skipSpace rest) else .error R.malformed
    else
      .error R.malformed

/-- A member of an object. -/
def scanMember (scan : Text → Except ε (Json × Text)) (t : Text) :
    Except ε ((Text × Json) × Text) := do
  let (key, rest) ← scanKey R t
  let (value, rest) ← scan rest
  .ok ((key, value), rest)

/-- An object after its brace. -/
def scanObject (scan : Text → Except ε (Json × Text)) (t : Text) : Except ε (Json × Text) := do
  let (members, rest) ← scanBetween R (scanMember R scan) rbrace t
  let value ← R.objectPairsHook members
  .ok (value, rest)

/-- One value; the number bounds the arrays and objects around its scalars. -/
def scanOnce : Nat → Text → Except ε (Json × Text)
  | 0, t =>
    if t.head? = some lbracket ∨ t.head? = some lbrace then .error R.tooDeep else scanScalar R t
  | depth + 1, t =>
    if t.head? = some lbracket then scanArray R (scanOnce depth) t.tail
    else if t.head? = some lbrace then scanObject R (scanOnce depth) t.tail
    else scanScalar R t

/-- `json.loads`. -/
def loads (t : Text) : Except ε Json := do
  -- a byte order mark is refused
  if t.head? = some 0xFEFF then
    .error R.malformed
  else
    let (value, rest) ← scanOnce R R.maxDepth (skipSpace t)
    if skipSpace rest = [] then .ok value else .error R.malformed

end Scanning

/-! ## Section 4: Strings are read back -/

theorem hexDigit?_hexDigit : ∀ n : Fin 16, hexDigit? (hexDigit n.val) = some n.val := by
  decide

theorem escapes_undone : ∀ p ∈ escapes, p.2 ≠ letterU ∧ unescapes.lookup p.2 = some p.1 := by
  intro p hp
  simp only [escapes, List.mem_cons, List.not_mem_nil, or_false] at hp
  rcases hp with rfl | rfl | rfl | rfl | rfl | rfl | rfl <;> exact ⟨by decide, by rfl⟩

theorem mem_of_lookup {c letter : CodePoint} {table : List (CodePoint × CodePoint)}
    (h : table.lookup c = some letter) : (c, letter) ∈ table := by
  induction table with
  | nil => cases h
  | cons p table ih =>
    rw [List.lookup_cons] at h
    by_cases hp : c = p.1
    · have hletter : p.2 = letter := by simpa [hp] using h
      rw [hp, ← hletter]
      exact List.mem_cons_self
    · have hrest : table.lookup c = some letter := by
        rwa [beq_eq_false_iff_ne.mpr hp] at h
      exact List.mem_cons_of_mem _ (ih hrest)

/-- An escape by a letter stands for one character. -/
theorem scanString_letter {letter x : CodePoint} (hletter : letter ≠ letterU)
    (hx : unescapes.lookup letter = some x) (rest : Text) :
    scanString (backslash :: letter :: rest) =
      (scanString rest).map fun r => (x :: r.1, r.2) := by
  have hquote : backslash ≠ quote := by decide
  have hcontrol : ¬ backslash.val < 0x20 := by decide
  rw [scanString.eq_def]
  simp only [if_neg hquote, if_neg hcontrol, ne_eq, not_true_eq_false, if_false]
  simp only [hletter, not_false_eq_true, if_true, hx]

/-- A numeric escape that is no high surrogate stands for one character. -/
theorem scanString_unit {d₁ d₂ d₃ d₄ : CodePoint} {unit : Nat}
    (hunit : hex4 d₁ d₂ d₃ d₄ = some unit) (hlow : isHighSurrogate unit = false) (rest : Text) :
    scanString (backslash :: letterU :: d₁ :: d₂ :: d₃ :: d₄ :: rest) =
      (scanString rest).map fun r => (Fin.ofNat 0x110000 unit :: r.1, r.2) := by
  have hquote : backslash ≠ quote := by decide
  have hcontrol : ¬ backslash.val < 0x20 := by decide
  rw [scanString.eq_def]
  simp only [if_neg hquote, if_neg hcontrol, ne_eq, not_true_eq_false, if_false]
  simp only [hunit]
  cases lowUnit rest with
  | none => rfl
  | some low => simp [hlow]

/-- A character that needs no escape stands for itself. -/
theorem scanString_plain {c : CodePoint} (hquote : c ≠ quote) (hcontrol : ¬ c.val < 0x20)
    (hbackslash : c ≠ backslash) (rest : Text) :
    scanString (c :: rest) = (scanString rest).map fun r => (c :: r.1, r.2) := by
  rw [scanString.eq_def]
  simp only [if_neg hquote, if_neg hcontrol, ne_eq, hbackslash, not_false_eq_true, if_true]

theorem hex4_control {c : CodePoint} (h : c.val < 0x20) :
    hex4 zero zero (hexDigit (c.val / 16)) (hexDigit (c.val % 16)) = some c.val := by
  have hhigh := hexDigit?_hexDigit ⟨c.val / 16, by omega⟩
  have hlow := hexDigit?_hexDigit ⟨c.val % 16, by omega⟩
  have hzero : hexDigit? zero = some 0 := by decide
  simp only at hhigh hlow
  simp only [hex4, hzero, hhigh, hlow, Option.bind_eq_bind, Option.bind_some]
  show some (4096 * 0 + 256 * 0 + 16 * (c.val / 16) + c.val % 16) = some c.val
  congr 1
  omega

/-- One printed character is read as that character. -/
theorem scanString_escape (c : CodePoint) (rest : Text) :
    scanString (escape c ++ rest) = (scanString rest).map fun r => (c :: r.1, r.2) := by
  unfold escape
  cases h : escapes.lookup c with
  | some letter =>
    obtain ⟨hletter, hback⟩ := escapes_undone _ (mem_of_lookup h)
    exact scanString_letter hletter hback rest
  | none =>
    simp only
    by_cases hcontrol : c.val < 0x20
    · -- a control character is printed by its number, which is below the surrogates
      have hlow : isHighSurrogate c.val = false := by
        unfold isHighSurrogate
        have : ¬ 0xD800 ≤ c.val := by omega
        simp [this]
      have hself : Fin.ofNat 0x110000 c.val = c := Fin.ofNat_val_eq_self c
      have hunit := scanString_unit (hex4_control hcontrol) hlow rest
      rw [hself] at hunit
      rw [if_pos hcontrol]
      exact hunit
    · have hquote : c ≠ quote := by
        intro hc
        rw [hc] at h
        cases h
      have hbackslash : c ≠ backslash := by
        intro hc
        rw [hc] at h
        cases h
      rw [if_neg hcontrol]
      exact scanString_plain hquote hcontrol hbackslash rest

/-- The body of a printed string is read up to its closing quote. -/
theorem scanString_body (s rest : Text) :
    scanString (s.flatMap escape ++ quote :: rest) = some (s, rest) := by
  induction s with
  | nil =>
    rw [List.flatMap_nil, List.nil_append, scanString.eq_def]
    simp
  | cons c s ih => rw [List.flatMap_cons, List.append_assoc, scanString_escape, ih, Option.map_some]

/-! ## Section 5: Integers are read back -/

/-- The digits of a number are digits. -/
theorem isDigit_of_mem_ofNat {n : Nat} {c : CodePoint} (h : c ∈ Text.ofNat n) : isDigit c := by
  obtain ⟨d, hd, hc⟩ := List.mem_map.mp h
  have hdigit := Nat.isDigit_of_mem_toDigits (by decide) (by decide) hd
  simp only [Char.isDigit, Bool.and_eq_true, decide_eq_true_eq, ge_iff_le] at hdigit
  have hlow : 48 ≤ d.toNat := hdigit.1
  have hhigh : d.toNat ≤ 57 := hdigit.2
  have hval : c.val = d.toNat := by
    rw [← hc]
    exact Nat.mod_eq_of_lt (by omega)
  simp only [isDigit, hval, hlow, hhigh, decide_true, Bool.and_self]

/-- The digits of a number denote it. -/
theorem decimal_ofNat (n : Nat) : decimal (Text.ofNat n) = n := by
  have hfold : ∀ (cs : List Char) (m : Nat), (∀ c ∈ cs, c.toNat < 0x110000) →
      (cs.map CodePoint.ofChar).foldl (fun n c => 10 * n + (c.val - 48)) m =
        Nat.ofDigitChars 10 cs m := by
    intro cs
    induction cs with
    | nil =>
      intro m _
      rfl
    | cons c cs ih =>
      intro m hcs
      have hval : (CodePoint.ofChar c).val = c.toNat :=
        Nat.mod_eq_of_lt (hcs c List.mem_cons_self)
      rw [List.map_cons, List.foldl_cons, ih _ fun d hd => hcs d (List.mem_cons_of_mem _ hd), hval]
      rfl
  have hsmall : ∀ c ∈ Nat.toDigits 10 n, c.toNat < 0x110000 := by
    intro c hc
    have hdigit := Nat.isDigit_of_mem_toDigits (by decide) (by decide) hc
    simp only [Char.isDigit, Bool.and_eq_true, decide_eq_true_eq, ge_iff_le] at hdigit
    have hhigh : c.toNat ≤ 57 := hdigit.2
    omega
  unfold decimal Text.ofNat
  rw [hfold _ _ hsmall]
  exact Nat.ofDigitChars_toDigits (by decide) (by decide)

/-- The digits of a positive number do not start with `0`. -/
theorem head_toDigits {n : Nat} (hn : 0 < n) :
    ∃ d ds, Nat.toDigits 10 n = d :: ds ∧ d ≠ '0' := by
  induction n using Nat.strongRecOn with
  | ind n ih =>
    by_cases hlt : n < 10
    · refine ⟨n.digitChar, [], Nat.toDigits_of_lt_base hlt, ?_⟩
      have hall : ∀ m : Fin 10, 0 < m.val → m.val.digitChar ≠ '0' := by decide
      exact hall ⟨n, hlt⟩ hn
    · have hle : 10 ≤ n := by omega
      obtain ⟨d, ds, hdigits, hd⟩ := ih (n / 10) (by omega) (by omega)
      refine ⟨d, ds ++ [(n % 10).digitChar], ?_, hd⟩
      rw [Nat.toDigits_of_base_le (by decide) hle, hdigits, List.cons_append]

/-- The numeral of a number is `0`, or does not start with `0`. -/
theorem ofNat_shape (n : Nat) :
    Text.ofNat n = [zero] ∨ ∃ c cs, Text.ofNat n = c :: cs ∧ c ≠ zero ∧ isDigit c := by
  rcases Nat.eq_zero_or_pos n with hn | hn
  · left
    rw [hn]
    rfl
  · right
    obtain ⟨d, ds, hdigits, hd⟩ := head_toDigits hn
    have hmem : d ∈ Nat.toDigits 10 n := by simp [hdigits]
    have hdigit : isDigit (CodePoint.ofChar d) :=
      isDigit_of_mem_ofNat (List.mem_map_of_mem hmem)
    refine ⟨CodePoint.ofChar d, ds.map CodePoint.ofChar, by simp [Text.ofNat, hdigits], ?_, hdigit⟩
    intro hzero
    have hchar := Nat.isDigit_of_mem_toDigits (by decide) (by decide) hmem
    simp only [Char.isDigit, Bool.and_eq_true, decide_eq_true_eq, ge_iff_le] at hchar
    have hhigh : d.toNat ≤ 57 := hchar.2
    have hval : (CodePoint.ofChar d).val = d.toNat := Nat.mod_eq_of_lt (by omega)
    have hnat : d.toNat = 48 := by
      rw [← hval, hzero]
      rfl
    exact hd (Char.toNat_inj.mp hnat)

/-- A text that a value may stand before: its end, or a comma or closing bracket. -/
def Ends (rest : Text) : Prop :=
  ∀ c, rest.head? = some c → c = comma ∨ c = rbracket ∨ c = rbrace

theorem Ends.head {c : CodePoint} {rest : Text} (h : Ends (c :: rest)) :
    isDigit c = false ∧ c ≠ dot ∧ c ≠ 0x65 ∧ c ≠ 0x45 := by
  rcases h c rfl with rfl | rfl | rfl <;> decide

/-- A run of digits ends where no digit follows. -/
theorem span_digits {ds rest : Text} (hds : ∀ c ∈ ds, isDigit c) (hrest : Ends rest) :
    (ds ++ rest).span isDigit = (ds, rest) := by
  have hstop : rest.takeWhile isDigit = [] ∧ rest.dropWhile isDigit = rest := by
    cases rest with
    | nil => exact ⟨rfl, rfl⟩
    | cons c rest => simp [hrest.head.1]
  rw [List.span_eq_takeWhile_dropWhile, List.takeWhile_append_of_pos hds,
    List.dropWhile_append_of_pos hds, hstop.1, hstop.2, List.append_nil]

theorem scanWhole_ofNat (n : Nat) {rest : Text} (hrest : Ends rest) :
    scanWhole (Text.ofNat n ++ rest) = some (Text.ofNat n, rest) := by
  have hall : ∀ c ∈ Text.ofNat n, isDigit c := fun c hc => isDigit_of_mem_ofNat hc
  rcases ofNat_shape n with hzero | ⟨c, cs, hcs, hne, hdigit⟩
  · rw [hzero]
    rfl
  · rw [hcs] at hall ⊢
    have hspan := span_digits (fun d hd => hall d (List.mem_cons_of_mem _ hd)) hrest
    rw [List.cons_append, scanWhole, if_neg hne, if_pos hdigit, hspan]

theorem scanFraction_ends {rest : Text} (hrest : Ends rest) : scanFraction rest = ([], rest) := by
  cases rest with
  | nil => rfl
  | cons c rest => simp [scanFraction, hrest.head.2.1]

theorem scanExponent_ends {rest : Text} (hrest : Ends rest) : scanExponent rest = ([], rest) := by
  cases rest with
  | nil => rfl
  | cons c rest =>
    obtain ⟨-, -, hlower, hupper⟩ := hrest.head
    simp [scanExponent, hlower, hupper]

/-- The first character of a numeral is a digit. -/
theorem head_ofNat (n : Nat) : ∃ c cs, Text.ofNat n = c :: cs ∧ isDigit c := by
  rcases ofNat_shape n with hzero | ⟨c, cs, hcs, -, hdigit⟩
  · exact ⟨zero, [], hzero, by decide⟩
  · exact ⟨c, cs, hcs, hdigit⟩

section Reading

variable {ε : Type} {R : Reader ε}

/-- A printed integer is read back. -/
theorem scanNumber_ofInt {n : Int} {t rest : Text} (ht : encodeInt n = some t)
    (hrest : Ends rest) : scanNumber R (t ++ rest) = .ok (.int n, rest) := by
  unfold encodeInt at ht
  split at ht
  · next hlen =>
    cases ht
    cases n with
    | ofNat n =>
      obtain ⟨c, cs, hcs, hdigit⟩ := head_ofNat n
      have hminus : (Text.ofNat n ++ rest).head? ≠ some minus := by
        rw [hcs, List.cons_append, List.head?_cons, ne_eq, Option.some.injEq]
        rintro rfl
        exact absurd hdigit (by decide)
      have hshort : ¬ maxDigits < (Text.ofNat n).length := by simpa using hlen
      have hread : scanNumber R (Text.ofNat n ++ rest) =
          .ok (.int (decimal (Text.ofNat n)), rest) := by
        simp only [scanNumber, if_neg hminus, scanWhole_ofNat n hrest, scanFraction_ends hrest,
          scanExponent_ends hrest, ne_eq, not_true_eq_false, or_self, if_false, if_neg hshort,
          if_true]
      rw [decimal_ofNat] at hread
      exact hread
    | negSucc n =>
      have hshort : ¬ maxDigits < (Text.ofNat (n + 1)).length := by simpa using hlen
      have hcons : Text.ofInt (.negSucc n) ++ rest = minus :: (Text.ofNat (n + 1) ++ rest) := rfl
      have hread : scanNumber R (minus :: (Text.ofNat (n + 1) ++ rest)) =
          .ok (.int (-decimal (Text.ofNat (n + 1))), rest) := by
        simp only [scanNumber, List.head?_cons, List.tail_cons, if_true,
          scanWhole_ofNat (n + 1) hrest, scanFraction_ends hrest, scanExponent_ends hrest, ne_eq,
          not_true_eq_false, or_self, if_false, if_neg hshort, reduceCtorEq]
      rw [decimal_ofNat] at hread
      rw [hcons, hread]
      rfl
  · cases ht

/-! ## Section 6: Documents are read back -/

/-- A document that a reader gives back: without floats, with the keys of its
    dictionaries in order, and nested at most `depth` deep. -/
inductive Readable : Nat → Json → Prop
  | null {depth : Nat} : Readable depth .null
  | bool {depth : Nat} (value : Bool) : Readable depth (.bool value)
  | int {depth : Nat} (value : Int) : Readable depth (.int value)
  | str {depth : Nat} (value : Text) : Readable depth (.str value)
  | list {depth : Nat} {items : List Json} (h : ∀ item ∈ items, Readable depth item) :
      Readable (depth + 1) (.list items)
  | dict {depth : Nat} {items : List (Text × Json)}
      (hkeys : items.Pairwise fun a b => a.1 < b.1) (h : ∀ item ∈ items, Readable depth item.2) :
      Readable (depth + 1) (.dict items)

/-- A dictionary whose keys are listed in order. -/
theorem Readable.dict_of_keys {depth : Nat} {items : List (Text × Json)} (keys : List Text)
    (hkeys : items.map Prod.fst = keys) (hlt : keys.Pairwise (· < ·))
    (h : ∀ item ∈ items, Readable depth item.2) : Readable (depth + 1) (.dict items) := by
  rw [← hkeys, List.pairwise_map] at hlt
  exact .dict hlt h

/-- A deeper reader gives back the same documents. -/
theorem Readable.mono {depth depth' : Nat} {v : Json} (h : Readable depth v)
    (hle : depth ≤ depth') : Readable depth' v := by
  induction h generalizing depth' with
  | null => exact .null
  | bool value => exact .bool value
  | int value => exact .int value
  | str value => exact .str value
  | list _ ih =>
    obtain ⟨depth', rfl⟩ := Nat.exists_eq_add_of_le' (Nat.one_le_of_lt hle)
    exact .list fun item hitem => ih item hitem (by omega)
  | dict hkeys _ ih =>
    obtain ⟨depth', rfl⟩ := Nat.exists_eq_add_of_le' (Nat.one_le_of_lt hle)
    exact .dict hkeys fun item hitem => ih item hitem (by omega)

/-- No word of the language is the beginning of a number. -/
theorem constants_shape : ∀ word ∈ constants, ∃ c d rest, word.1 = c :: d :: rest ∧
    isDigit c = false ∧ isDigit d = false := by
  intro word hword
  simp only [constants, List.mem_cons, List.not_mem_nil, or_false] at hword
  rcases hword with rfl | rfl | rfl | rfl | rfl | rfl <;> exact ⟨_, _, _, rfl, by decide, by decide⟩

/-- The shape of a printed integer. -/
theorem encodeInt_shape {n : Int} {t : Text} (h : encodeInt n = some t) :
    ∃ c cs, t = c :: cs ∧
      (isDigit c ∨ c = minus ∧ ∃ d ds, cs = d :: ds ∧ isDigit d) := by
  unfold encodeInt at h
  split at h
  · cases h
    cases n with
    | ofNat n =>
      obtain ⟨c, cs, hcs, hdigit⟩ := head_ofNat n
      exact ⟨c, cs, hcs, .inl hdigit⟩
    | negSucc n =>
      obtain ⟨d, ds, hds, hdigit⟩ := head_ofNat (n + 1)
      exact ⟨minus, Text.ofNat (n + 1), rfl, .inr ⟨rfl, d, ds, hds, hdigit⟩⟩
  · cases h

theorem find_constants_int {n : Int} {t : Text} (h : encodeInt n = some t) (rest : Text) :
    (constants.find? fun word => startsWith (t ++ rest) word.1) = none := by
  rw [List.find?_eq_none]
  intro word hword hstarts
  obtain ⟨a, b, tail, hshape, ha, hb⟩ := constants_shape word hword
  obtain ⟨c, cs, rfl, hhead⟩ := encodeInt_shape h
  obtain ⟨post, hpost⟩ := startsWith_iff.mp hstarts
  rw [hshape] at hpost
  rcases hhead with hdigit | ⟨-, d, ds, rfl, hdigit⟩
  · have hac : a = c := (List.cons.inj hpost).1
    rw [hac, hdigit] at ha
    cases ha
  · have hbd : b = d := (List.cons.inj (List.cons.inj hpost).2).1
    rw [hbd, hdigit] at hb
    cases hb

/-- A character that may open a printed value. -/
def Opens (c : CodePoint) : Prop :=
  isSpace c = false ∧ c ≠ rbracket ∧ c ≠ rbrace ∧ c.val ≠ 0xFEFF

/-- A printed value starts with a character that may open one. -/
theorem dumps_opens {depth : Nat} {v : Json} (hv : Readable depth v) {t : Text}
    (ht : dumps v = some t) : ∃ c cs, t = c :: cs ∧ Opens c := by
  cases hv with
  | null =>
    rw [dumps, Option.some.injEq] at ht
    exact ⟨_, _, ht.symm, by decide, by decide, by decide, by decide⟩
  | bool value =>
    cases value <;>
    · rw [dumps, Option.some.injEq] at ht
      exact ⟨_, _, ht.symm, by decide, by decide, by decide, by decide⟩
  | int value =>
    rw [dumps] at ht
    obtain ⟨c, cs, hcs, hhead⟩ := encodeInt_shape ht
    refine ⟨c, cs, hcs, ?_⟩
    rcases hhead with hdigit | ⟨rfl, -⟩
    · simp only [isDigit, Bool.and_eq_true, decide_eq_true_eq] at hdigit
      refine ⟨?_, ?_, ?_, ?_⟩
      · have h₁ : c ≠ 0x20 := by rintro rfl; exact absurd hdigit.1 (by decide)
        have h₂ : c ≠ 0x09 := by rintro rfl; exact absurd hdigit.1 (by decide)
        have h₃ : c ≠ 0x0A := by rintro rfl; exact absurd hdigit.1 (by decide)
        have h₄ : c ≠ 0x0D := by rintro rfl; exact absurd hdigit.1 (by decide)
        simp [isSpace, h₁, h₂, h₃, h₄]
      · rintro rfl
        exact absurd hdigit.2 (by decide)
      · rintro rfl
        exact absurd hdigit.2 (by decide)
      · omega
    · exact ⟨by decide, by decide, by decide, by decide⟩
  | str value =>
    rw [dumps, Option.some.injEq] at ht
    exact ⟨_, _, ht.symm, by decide, by decide, by decide, by decide⟩
  | list _ =>
    rw [dumps, Option.map_eq_some_iff] at ht
    obtain ⟨parts, -, ht⟩ := ht
    exact ⟨_, _, ht.symm, by decide, by decide, by decide, by decide⟩
  | dict _ _ =>
    rw [dumps, Option.map_eq_some_iff] at ht
    obtain ⟨parts, -, ht⟩ := ht
    exact ⟨_, _, ht.symm, by decide, by decide, by decide, by decide⟩

theorem skipSpace_opens {c : CodePoint} (hc : Opens c) (t : Text) :
    skipSpace (c :: t) = c :: t := by
  simp [skipSpace, hc.1]

theorem skipSpace_ends {rest : Text} (hrest : Ends rest) : skipSpace rest = rest := by
  cases rest with
  | nil => rfl
  | cons c rest =>
    have hspace : isSpace c = false := by
      rcases hrest c rfl with rfl | rfl | rfl <;> decide
    simp [skipSpace, hspace]

/-- `one` reads `part` back as `x`, whatever may follow it. -/
def Reads {α : Type} (one : Text → Except ε (α × Text)) (x : α) (part : Text) : Prop :=
  (∃ c cs, part = c :: cs ∧ Opens c) ∧
    ∀ rest, Ends rest → one (part ++ rest) = .ok (x, rest)

theorem ends_cons {c : CodePoint} (hc : c = comma ∨ c = rbracket ∨ c = rbrace) (rest : Text) :
    Ends (c :: rest) := by
  intro d hd
  rw [List.head?_cons, Option.some.injEq] at hd
  exact hd ▸ hc

/-- Items printed between commas are read back in order. -/
theorem scanSeparated_join {α : Type} {one : Text → Except ε (α × Text)} {close : CodePoint}
    (hclose : close = rbracket ∨ close = rbrace) {xs : List α} {parts : List Text}
    (h : List.Forall₂ (Reads one) xs parts) (hne : xs ≠ []) (rest : Text) {fuel : Nat}
    (hfuel : (join [comma] parts ++ close :: rest).length ≤ fuel) :
    scanSeparated R one close fuel (join [comma] parts ++ close :: rest) = .ok (xs, rest) := by
  have hends : Ends (close :: rest) := ends_cons (.inr hclose) rest
  induction h generalizing fuel with
  | nil => exact absurd rfl hne
  | @cons x part xs parts hx htail ih =>
    obtain ⟨⟨c, cs, hpart, hopens⟩, hread⟩ := hx
    cases fuel with
    | zero => simp at hfuel
    | succ fuel =>
      cases htail with
      | nil =>
        have hjoin : join [comma] [part] = part := by simp [join_cons]
        have hcomma : close ≠ comma := by rcases hclose with rfl | rfl <;> decide
        rw [hjoin]
        simp only [scanSeparated, hread _ hends, skipSpace_ends hends, if_neg hcomma, if_true, bind,
          Except.bind]
      | @cons y next ys nexts hy hys =>
        have hjoin : join [comma] (part :: next :: nexts) ++ close :: rest =
            part ++ comma :: (join [comma] (next :: nexts) ++ close :: rest) := by
          rw [join_cons_cons]
          simp
        obtain ⟨⟨d, ds, hnext, hopens'⟩, -⟩ := hy
        have hskip : skipSpace (join [comma] (next :: nexts) ++ close :: rest) =
            join [comma] (next :: nexts) ++ close :: rest := by
          rw [join_cons, hnext]
          exact skipSpace_opens hopens' _
        have hcomma : Ends (comma :: (join [comma] (next :: nexts) ++ close :: rest)) :=
          ends_cons (.inl rfl) _
        have hlen : (join [comma] (next :: nexts) ++ close :: rest).length ≤ fuel := by
          rw [hjoin] at hfuel
          simp only [List.length_append, List.length_cons] at hfuel ⊢
          omega
        rw [hjoin]
        simp only [scanSeparated, hread _ hcomma, skipSpace_ends hcomma, if_true, hskip,
          ih (by simp) hlen, bind, Except.bind]

/-- An empty or non-empty sequence is read back after its opening character. -/
theorem scanBetween_join {α : Type} {one : Text → Except ε (α × Text)} {close : CodePoint}
    (hclose : close = rbracket ∨ close = rbrace) {xs : List α} {parts : List Text}
    (h : List.Forall₂ (Reads one) xs parts) (rest : Text) :
    scanBetween R one close (join [comma] parts ++ close :: rest) = .ok (xs, rest) := by
  have hends : Ends (close :: rest) := ends_cons (.inr hclose) rest
  cases h with
  | nil =>
    have hnil : join [comma] [] ++ close :: rest = close :: rest := rfl
    simp only [scanBetween, hnil, skipSpace_ends hends, List.head?_cons, if_true, List.tail_cons]
  | @cons x part xs parts hx htail =>
    have hsep := scanSeparated_join (R := R) hclose (.cons hx htail) (by simp) rest (le_refl _)
    obtain ⟨⟨c, cs, hpart, hopens⟩, -⟩ := hx
    have hhead : join [comma] (part :: parts) ++ close :: rest =
        c :: (cs ++ (parts.flatMap fun s => [comma] ++ s) ++ close :: rest) := by
      rw [join_cons, hpart]
      rfl
    have hne : c ≠ close := by
      rcases hclose with rfl | rfl
      · exact hopens.2.1
      · exact hopens.2.2.1
    rw [hhead] at hsep ⊢
    simp only [scanBetween, skipSpace_opens hopens, List.head?_cons, Option.some.injEq, if_neg hne,
      hsep]

/-- The elements of a list and their printed texts. -/
theorem dumpsAll_forall {P : Json → Text → Prop} {items : List Json}
    (h : ∀ item ∈ items, ∀ t, dumps item = some t → P item t) {parts : List Text}
    (hparts : dumpsAll items = some parts) : List.Forall₂ P items parts := by
  induction items generalizing parts with
  | nil =>
    rw [dumpsAll, Option.some.injEq] at hparts
    exact hparts ▸ .nil
  | cons item items ih =>
    rw [dumpsAll] at hparts
    cases hitem : dumps item with
    | none => simp [hitem] at hparts
    | some t =>
      cases htail : dumpsAll items with
      | none => simp [hitem, htail] at hparts
      | some tail =>
        simp only [hitem, htail, Option.some.injEq] at hparts
        subst hparts
        exact .cons (h item List.mem_cons_self t hitem)
          (ih (fun x hx => h x (List.mem_cons_of_mem _ hx)) htail)

/-- The members of a dictionary and their printed values, under the same keys. -/
theorem dumpsItems_forall {P : Json → Text → Prop} {items : List (Text × Json)}
    (h : ∀ item ∈ items, ∀ t, dumps item.2 = some t → P item.2 t) {parts : List (Text × Text)}
    (hparts : dumpsItems items = some parts) :
    List.Forall₂ (fun item part => item.1 = part.1 ∧ P item.2 part.2) items parts := by
  induction items generalizing parts with
  | nil =>
    rw [dumpsItems, Option.some.injEq] at hparts
    exact hparts ▸ .nil
  | cons item items ih =>
    obtain ⟨key, value⟩ := item
    rw [dumpsItems] at hparts
    cases hvalue : dumps value with
    | none => simp [hvalue] at hparts
    | some t =>
      cases htail : dumpsItems items with
      | none => simp [hvalue, htail] at hparts
      | some tail =>
        simp only [hvalue, htail, Option.some.injEq] at hparts
        subst hparts
        exact .cons ⟨rfl, h _ List.mem_cons_self t hvalue⟩
          (ih (fun x hx => h x (List.mem_cons_of_mem _ hx)) htail)

theorem scanOnce_scalar {c : CodePoint} (hbracket : c ≠ lbracket) (hbrace : c ≠ lbrace)
    (depth : Nat) (t : Text) : scanOnce R depth (c :: t) = scanScalar R (c :: t) := by
  cases depth <;> simp [scanOnce, hbracket, hbrace]

/-- A printed member of an object is read back. -/
theorem scanMember_member {scan : Text → Except ε (Json × Text)} {key text : Text} {value : Json}
    (h : Reads scan value text) : Reads (scanMember R scan) (key, value) (member (key, text)) := by
  obtain ⟨⟨c, cs, htext, hopens⟩, hread⟩ := h
  refine ⟨⟨quote, _, rfl, by decide, by decide, by decide, by decide⟩, ?_⟩
  intro rest hrest
  have hshape : member (key, text) ++ rest =
      quote :: (key.flatMap escape ++ quote :: (colon :: (text ++ rest))) := by
    simp [member, encodeString]
  have hcolon : isSpace colon = false := by decide
  have hskip : skipSpace (text ++ rest) = text ++ rest := by
    rw [htext]
    exact skipSpace_opens hopens _
  have hskip' : skipSpace (colon :: (text ++ rest)) = colon :: (text ++ rest) := by
    simp [skipSpace, hcolon]
  rw [hshape]
  simp only [scanMember, scanKey, if_true, scanString_body, hskip', hskip, hread rest hrest, bind,
    Except.bind]

/-- The words of the language are read back. -/
theorem scanScalar_null (rest : Text) : scanScalar R (py "null" ++ rest) = .ok (.null, rest) := by
  rfl

theorem scanScalar_bool (value : Bool) {t : Text} (ht : dumps (.bool value) = some t)
    (rest : Text) : scanScalar R (t ++ rest) = .ok (.bool value, rest) := by
  cases value <;>
  · rw [dumps, Option.some.injEq] at ht
    subst ht
    rfl

theorem scanScalar_int {n : Int} {t rest : Text} (ht : encodeInt n = some t) (hrest : Ends rest) :
    scanScalar R (t ++ rest) = .ok (.int n, rest) := by
  have hnumber := scanNumber_ofInt (R := R) ht hrest
  have hfind := find_constants_int ht rest
  obtain ⟨c, cs, rfl, hhead⟩ := encodeInt_shape ht
  have hquote : c ≠ quote := by
    rintro rfl
    rcases hhead with hdigit | ⟨hminus, -⟩
    · exact absurd hdigit (by decide)
    · exact absurd hminus (by decide)
  rw [List.cons_append] at hnumber hfind ⊢
  simp only [scanScalar, if_neg hquote, hfind, hnumber]

theorem scanScalar_str (s rest : Text) :
    scanScalar R (encodeString s ++ rest) = .ok (.str s, rest) := by
  have hshape : encodeString s ++ rest = quote :: (s.flatMap escape ++ quote :: rest) := by
    simp [encodeString]
  rw [hshape]
  simp only [scanScalar, if_true, scanString_body]

/-- The hook keeps the members of an object whose keys are distinct. -/
def Reader.KeepsDistinct (R : Reader ε) : Prop :=
  ∀ items : List (Text × Json), (items.map Prod.fst).Nodup → R.objectPairsHook items = .ok (.dict items)

/-- A printed document is read back, whatever may follow it.  The induction is
    on how the document is nested. -/
theorem scanOnce_dumps (hR : R.KeepsDistinct) {depth : Nat} {v : Json} (hv : Readable depth v)
    {t : Text} (ht : dumps v = some t) : Reads (scanOnce R depth) v t := by
  refine ⟨dumps_opens hv ht, ?_⟩
  intro rest hrest
  induction hv generalizing t rest with
  | null =>
    rw [dumps, Option.some.injEq] at ht
    subst ht
    exact (scanOnce_scalar (by decide) (by decide) _ _).trans (scanScalar_null rest)
  | bool value =>
    have hread := scanScalar_bool (R := R) value ht rest
    cases value <;>
    · rw [dumps, Option.some.injEq] at ht
      subst ht
      exact (scanOnce_scalar (by decide) (by decide) _ _).trans hread
  | int value =>
    rw [dumps] at ht
    have hread := scanScalar_int (R := R) ht hrest
    obtain ⟨c, cs, rfl, hhead⟩ := encodeInt_shape ht
    have hne : c ≠ lbracket ∧ c ≠ lbrace := by
      rcases hhead with hdigit | ⟨rfl, -⟩
      · constructor <;>
        · rintro rfl
          exact absurd hdigit (by decide)
      · decide
    exact (scanOnce_scalar hne.1 hne.2 _ _).trans hread
  | str value =>
    rw [dumps, Option.some.injEq] at ht
    subst ht
    exact (scanOnce_scalar (by decide) (by decide) _ _).trans (scanScalar_str value rest)
  | @list depth items hitems ih =>
    rw [dumps, Option.map_eq_some_iff] at ht
    obtain ⟨parts, hparts, rfl⟩ := ht
    have hall := dumpsAll_forall (P := Reads (scanOnce R depth))
      (fun item hitem t ht => ⟨dumps_opens (hitems item hitem) ht,
        fun rest hrest => ih item hitem ht rest hrest⟩) hparts
    have hbetween := scanBetween_join (R := R) (.inl rfl) hall rest
    have hshape : lbracket :: join [comma] parts ++ [rbracket] ++ rest =
        lbracket :: (join [comma] parts ++ rbracket :: rest) := by simp
    rw [hshape]
    simp only [scanOnce, List.head?_cons, if_true, List.tail_cons, scanArray, hbetween, bind,
      Except.bind]
  | @dict depth items hkeys hitems ih =>
    rw [dumps, Option.map_eq_some_iff] at ht
    obtain ⟨parts, hparts, rfl⟩ := ht
    have hall := dumpsItems_forall (P := Reads (scanOnce R depth))
      (fun item hitem t ht => ⟨dumps_opens (hitems item hitem) ht,
        fun rest hrest => ih item hitem ht rest hrest⟩) hparts
    -- the keys are in order already, so the sort leaves the members where they are
    have hfst : items.map Prod.fst = parts.map Prod.fst := by
      rw [← List.forall₂_eq_eq_eq, List.forall₂_map_left_iff, List.forall₂_map_right_iff]
      exact hall.imp fun _ _ h => h.1
    have hpairwise : (items.map Prod.fst).Pairwise (· < ·) := List.pairwise_map.mpr hkeys
    have hsorted : sorted Prod.fst parts = parts := by
      apply sorted_eq_self
      rw [hfst] at hpairwise
      exact (List.pairwise_map.mp hpairwise).imp le_of_lt
    have hmembers : List.Forall₂ (Reads (scanMember R (scanOnce R depth))) items
        (parts.map member) := by
      rw [List.forall₂_map_right_iff]
      refine hall.imp fun item part h => ?_
      obtain ⟨key, value⟩ := item
      obtain ⟨key', text⟩ := part
      obtain rfl : key = key' := h.1
      exact scanMember_member h.2
    have hbetween := scanBetween_join (R := R) (.inr rfl) hmembers rest
    have hnodup : (items.map Prod.fst).Nodup := hpairwise.imp ne_of_lt
    have hshape : lbrace :: join [comma] (parts.map member) ++ [rbrace] ++ rest =
        lbrace :: (join [comma] (parts.map member) ++ rbrace :: rest) := by simp
    have hbrace : ¬ lbrace = lbracket := by decide
    rw [hsorted, hshape]
    simp only [scanOnce, List.head?_cons, Option.some.injEq, if_neg hbrace, if_true,
      List.tail_cons, scanObject, hbetween, hR items hnodup, bind, Except.bind]

/-- Reading undoes printing. -/
theorem loads_dumps (hR : R.KeepsDistinct) {v : Json} (hv : Readable R.maxDepth v) {t : Text}
    (ht : dumps v = some t) : loads R t = .ok v := by
  obtain ⟨c, cs, rfl, hopens⟩ := dumps_opens hv ht
  have hread := (scanOnce_dumps hR hv ht).2 [] (by simp [Ends])
  have hbom : c ≠ 0xFEFF := by
    rintro rfl
    exact absurd rfl hopens.2.2.2
  have hend : skipSpace [] = [] := rfl
  rw [List.append_nil] at hread
  simp only [loads, List.head?_cons, Option.some.injEq, if_neg hbom, skipSpace_opens hopens, hread,
    hend, if_true, bind, Except.bind]

end Reading

/-! ## Section 7: What a reader returns and raises -/

/-- What is read satisfies `V`, and what is raised satisfies `E`. -/
def Scans {ε α : Type} (E : ε → Prop) (V : α → Prop) : Except ε (α × Text) → Prop
  | .ok r => V r.1
  | .error e => E e

/-- The reader raises what satisfies `E`, and the values it makes satisfy `V`
    when those they hold do. -/
structure Reader.Makes {ε : Type} (R : Reader ε) (E : ε → Prop) (V : Json → Prop) : Prop where
  malformed : E R.malformed
  tooLong : ∀ digits, E (R.tooLong digits)
  tooDeep : E R.tooDeep
  null : V .null
  bool : ∀ value, V (.bool value)
  int : ∀ value, V (.int value)
  float : ∀ text, V (.float text)
  str : ∀ value, V (.str value)
  list : ∀ items, (∀ item ∈ items, V item) → V (.list items)
  hook : ∀ items, (∀ item ∈ items, V item.2) →
    (∀ v, R.objectPairsHook items = .ok v → V v) ∧ ∀ e, R.objectPairsHook items = .error e → E e

namespace Scans

variable {ε α β : Type} {E : ε → Prop} {V : α → Prop} {W : β → Prop}

theorem bind {x : Except ε (α × Text)} {f : α × Text → Except ε (β × Text)} (hx : Scans E V x)
    (hf : ∀ r, V r.1 → Scans E W (f r)) : Scans E W (x >>= f) := by
  cases x with
  | error e => exact hx
  | ok r => exact hf r hx

end Scans

section Making

variable {ε : Type} {R : Reader ε} {E : ε → Prop} {V : Json → Prop} (hR : R.Makes E V)

include hR

theorem scanNumber_scans (t : Text) : Scans E V (scanNumber R t) := by
  unfold scanNumber
  simp only []
  split
  · exact hR.malformed
  · split
    · exact hR.float _
    · split
      · exact hR.tooLong _
      · split
        · exact hR.int _
        · exact hR.int _

theorem scanScalar_scans (t : Text) : Scans E V (scanScalar R t) := by
  have hconstants : ∀ word ∈ constants, V word.2 := by
    intro word hword
    simp only [constants, List.mem_cons, List.not_mem_nil, or_false] at hword
    rcases hword with rfl | rfl | rfl | rfl | rfl | rfl
    · exact hR.null
    · exact hR.bool _
    · exact hR.bool _
    · exact hR.float _
    · exact hR.float _
    · exact hR.float _
  unfold scanScalar
  split
  · exact hR.malformed
  · split
    · split
      · exact hR.malformed
      · exact hR.str _
    · split
      · next word value hfind => exact hconstants _ (List.mem_of_find?_eq_some hfind)
      · exact scanNumber_scans hR _

/-- The induction is on the fuel; each item comes from `one`. -/
theorem scanSeparated_scans {α : Type} {one : Text → Except ε (α × Text)} {W : α → Prop}
    (hone : ∀ t, Scans E W (one t)) (close : CodePoint) (fuel : Nat) (t : Text) :
    Scans E (fun xs => ∀ x ∈ xs, W x) (scanSeparated R one close fuel t) := by
  induction fuel generalizing t with
  | zero => exact hR.malformed
  | succ fuel ih =>
    unfold scanSeparated
    apply (hone t).bind
    intro r hr
    obtain ⟨x, rest⟩ := r
    simp only []
    split
    · exact hR.malformed
    · split
      · apply (ih _).bind
        intro r' hr'
        exact List.forall_mem_cons.mpr ⟨hr, hr'⟩
      · split
        · exact List.forall_mem_singleton.mpr hr
        · exact hR.malformed

theorem scanBetween_scans {α : Type} {one : Text → Except ε (α × Text)} {W : α → Prop}
    (hone : ∀ t, Scans E W (one t)) (close : CodePoint) (t : Text) :
    Scans E (fun xs => ∀ x ∈ xs, W x) (scanBetween R one close t) := by
  unfold scanBetween
  simp only []
  split
  · exact List.forall_mem_nil _
  · exact scanSeparated_scans hR hone close _ _

theorem scanMember_scans {scan : Text → Except ε (Json × Text)} (hscan : ∀ t, Scans E V (scan t))
    (t : Text) : Scans E (fun item => V item.2) (scanMember R scan t) := by
  have hkey : Scans E (fun _ => True) (scanKey R t) := by
    unfold scanKey
    split
    · exact hR.malformed
    · split
      · split
        · exact hR.malformed
        · split
          · exact hR.malformed
          · split
            · trivial
            · exact hR.malformed
      · exact hR.malformed
  unfold scanMember
  apply hkey.bind
  intro key _
  apply (hscan _).bind
  exact fun value hvalue => hvalue

/-- The induction is on the depth; a dictionary is what the hook makes of it. -/
theorem scanOnce_scans (depth : Nat) (t : Text) : Scans E V (scanOnce R depth t) := by
  induction depth generalizing t with
  | zero =>
    unfold scanOnce
    split
    · exact hR.tooDeep
    · exact scanScalar_scans hR _
  | succ depth ih =>
    unfold scanOnce
    split
    · apply (scanBetween_scans hR ih _ _).bind
      exact fun r hr => hR.list _ hr
    · split
      · apply (scanBetween_scans hR (scanMember_scans hR ih) _ _).bind
        intro r hr
        obtain ⟨hvalue, herror⟩ := hR.hook r.1 hr
        cases hhook : R.objectPairsHook r.1 with
        | ok value =>
          simp only [hhook, bind, Except.bind]
          exact hvalue value hhook
        | error e =>
          simp only [hhook, bind, Except.bind]
          exact herror e hhook
      · exact scanScalar_scans hR _

theorem loads_makes (t : Text) :
    (∀ v, loads R t = .ok v → V v) ∧ ∀ e, loads R t = .error e → E e := by
  have hscan := scanOnce_scans hR R.maxDepth (skipSpace t)
  unfold loads
  by_cases hbom : t.head? = some 0xFEFF
  · rw [if_pos hbom]
    exact ⟨fun v h => (nomatch h), fun e h => Except.error.inj h ▸ hR.malformed⟩
  · rw [if_neg hbom]
    cases honce : scanOnce R R.maxDepth (skipSpace t) with
    | error e =>
      rw [honce] at hscan
      exact ⟨fun v h => (nomatch h), fun e' h => Except.error.inj h ▸ hscan⟩
    | ok r =>
      rw [honce] at hscan
      show (∀ v, (if skipSpace r.2 = [] then .ok r.1 else .error R.malformed) = Except.ok v → V v) ∧
        ∀ e, (if skipSpace r.2 = [] then .ok r.1 else .error R.malformed) =
          (Except.error e : Except ε Json) → E e
      by_cases hend : skipSpace r.2 = []
      · rw [if_pos hend]
        exact ⟨fun v h => Except.ok.inj h ▸ hscan, fun e h => (nomatch h)⟩
      · rw [if_neg hend]
        exact ⟨fun v h => (nomatch h), fun e h => Except.error.inj h ▸ hR.malformed⟩

end Making

/-- A value whose dictionaries have distinct keys, at every depth. -/
inductive Distinct : Json → Prop
  | null : Distinct .null
  | bool (value : Bool) : Distinct (.bool value)
  | int (value : Int) : Distinct (.int value)
  | float (text : Text) : Distinct (.float text)
  | str (value : Text) : Distinct (.str value)
  | list {items : List Json} (h : ∀ item ∈ items, Distinct item) : Distinct (.list items)
  | dict {items : List (Text × Json)} (hkeys : Dict.UniqueKeys items)
      (h : ∀ item ∈ items, Distinct item.2) : Distinct (.dict items)

theorem Distinct.items {items : List Json} (h : Distinct (.list items)) :
    ∀ item ∈ items, Distinct item := by
  cases h with
  | list h => exact h

theorem Distinct.keys {items : List (Text × Json)} (h : Distinct (.dict items)) :
    Dict.UniqueKeys items := by
  cases h with
  | dict hkeys h => exact hkeys

theorem Distinct.values {items : List (Text × Json)} (h : Distinct (.dict items)) :
    ∀ item ∈ items, Distinct item.2 := by
  cases h with
  | dict hkeys h => exact h

/-! ## Section 8: Documents that print alike -/

theorem dumpsItems_eq_some {items : List (Text × Json)} {parts : List (Text × Text)} :
    dumpsItems items = some parts ↔
      List.Forall₂ (fun item part => item.1 = part.1 ∧ dumps item.2 = some part.2) items parts := by
  induction items generalizing parts with
  | nil =>
    rw [dumpsItems, Option.some.injEq, List.forall₂_nil_left_iff]
    exact eq_comm
  | cons item items ih =>
    obtain ⟨key, value⟩ := item
    rw [dumpsItems, List.forall₂_cons_left_iff]
    constructor
    · intro h
      cases hvalue : dumps value with
      | none => simp [hvalue] at h
      | some text =>
        cases hitems : dumpsItems items with
        | none => simp [hvalue, hitems] at h
        | some tail =>
          simp only [hvalue, hitems, Option.some.injEq] at h
          exact ⟨(key, text), tail, ⟨rfl, rfl⟩, ih.mp hitems, h.symm⟩
    · intro h
      obtain ⟨⟨key', text⟩, tail, ⟨hkey, hvalue⟩, htail, rfl⟩ := h
      simp only at hkey hvalue
      rw [hvalue, ih.mpr htail, hkey]

theorem dumpsItems_keys {items : List (Text × Json)} {parts : List (Text × Text)}
    (h : dumpsItems items = some parts) : parts.map Prod.fst = Dict.keys items := by
  have hall := dumpsItems_eq_some.mp h
  symm
  rw [Dict.keys, ← List.forall₂_eq_eq_eq, List.forall₂_map_left_iff, List.forall₂_map_right_iff]
  exact hall.imp fun _ _ h => h.1

/-- The parts of a dictionary are its members, printed. -/
theorem mem_dumpsItems {items : List (Text × Json)} (hkeys : Dict.UniqueKeys items)
    {parts : List (Text × Text)} (h : dumpsItems items = some parts) {key text : Text} :
    (key, text) ∈ parts ↔ ∃ value, Dict.get? key items = some value ∧ dumps value = some text := by
  have hall := dumpsItems_eq_some.mp h
  have hlength := hall.length_eq
  obtain ⟨-, hget⟩ := List.forall₂_iff_get.mp hall
  constructor
  · intro hpart
    obtain ⟨i, hi, hpart⟩ := List.getElem_of_mem hpart
    obtain ⟨hkey, htext⟩ := hget i (hlength ▸ hi) hi
    simp only [List.get_eq_getElem, hpart] at hkey htext
    refine ⟨items[i].2, ?_, htext⟩
    rw [← hkey]
    exact Dict.get?_of_mem hkeys (List.getElem_mem _)
  · intro hvalue
    obtain ⟨value, hmem, htext⟩ := hvalue
    obtain ⟨i, hi, hitem⟩ := List.getElem_of_mem (Dict.mem_of_get? hmem)
    have hi' : i < parts.length := hlength ▸ hi
    obtain ⟨hkey, htext'⟩ := hget i hi hi'
    simp only [List.get_eq_getElem, hitem] at hkey htext'
    rw [htext, Option.some.injEq] at htext'
    have hpart : parts[i] = (key, text) := Prod.ext hkey.symm htext'.symm
    exact hpart ▸ List.getElem_mem hi'

theorem dumpsItems_isSome {items : List (Text × Json)}
    (h : ∀ item ∈ items, ∃ text, dumps item.2 = some text) : ∃ parts, dumpsItems items = some parts := by
  induction items with
  | nil => exact ⟨[], rfl⟩
  | cons item items ih =>
    obtain ⟨⟨text, htext⟩, hitems⟩ := List.forall_mem_cons.mp h
    obtain ⟨parts, hparts⟩ := ih hitems
    exact ⟨(item.1, text) :: parts, by rw [dumpsItems, htext, hparts]⟩

/-- Two dictionaries with the same keys, whose values print alike. -/
structure PrintAlike (items items' : List (Text × Json)) : Prop where
  unique : Dict.UniqueKeys items
  unique' : Dict.UniqueKeys items'
  keys : ∀ k, k ∈ Dict.keys items ↔ k ∈ Dict.keys items'
  values : ∀ k v v', Dict.get? k items = some v → Dict.get? k items' = some v' → dumps v = dumps v'

namespace PrintAlike

variable {items items' : List (Text × Json)}

theorem symm (h : PrintAlike items items') : PrintAlike items' items where
  unique := h.unique'
  unique' := h.unique
  keys k := (h.keys k).symm
  values k v v' hv hv' := (h.values k v' v hv' hv).symm

/-- A member has a counterpart. -/
theorem exists_get (h : PrintAlike items items') {k : Text} {v : Json}
    (hget : Dict.get? k items = some v) :
    ∃ v', Dict.get? k items' = some v' ∧ dumps v' = dumps v := by
  obtain ⟨item, hitem, hkey⟩ := List.mem_map.mp ((h.keys k).mp (Dict.mem_keys_of_mem (Dict.mem_of_get? hget)))
  have hget' : Dict.get? k items' = some item.2 := by
    rw [← hkey]
    exact Dict.get?_of_mem h.unique' hitem
  exact ⟨item.2, hget', (h.values k v item.2 hget hget').symm⟩

theorem subset (h : PrintAlike items items') {parts parts' : List (Text × Text)}
    (hparts : dumpsItems items = some parts) (hparts' : dumpsItems items' = some parts') :
    parts ⊆ parts' := by
  intro part hpart
  obtain ⟨key, text⟩ := part
  obtain ⟨value, hget, htext⟩ := (mem_dumpsItems h.unique hparts).mp hpart
  obtain ⟨value', hget', hprint⟩ := h.exists_get hget
  exact (mem_dumpsItems h.unique' hparts').mpr ⟨value', hget', hprint.trans htext⟩

theorem isSome (h : PrintAlike items items') {parts : List (Text × Text)}
    (hparts : dumpsItems items = some parts) : ∃ parts', dumpsItems items' = some parts' := by
  apply dumpsItems_isSome
  intro item' hitem'
  obtain ⟨value, hget, hprint⟩ := h.symm.exists_get (Dict.get?_of_mem h.unique' hitem')
  obtain ⟨i, hi, hitem⟩ := List.getElem_of_mem (Dict.mem_of_get? hget)
  obtain ⟨hlength, hall⟩ := List.forall₂_iff_get.mp (dumpsItems_eq_some.mp hparts)
  obtain ⟨-, htext⟩ := hall i hi (hlength ▸ hi)
  simp only [List.get_eq_getElem, hitem] at htext
  exact ⟨_, hprint ▸ htext⟩

/-- They print alike. -/
theorem dumps_eq (h : PrintAlike items items') : dumps (.dict items) = dumps (.dict items') := by
  rw [dumps, dumps]
  cases hparts : dumpsItems items with
  | none =>
    cases hparts' : dumpsItems items' with
    | none => rfl
    | some parts' =>
      obtain ⟨parts, hsome⟩ := h.symm.isSome hparts'
      rw [hparts] at hsome
      cases hsome
  | some parts =>
    obtain ⟨parts', hparts'⟩ := h.isSome hparts
    have hnodup : (parts.map Prod.fst).Nodup := by
      rw [dumpsItems_keys hparts]
      exact h.unique
    have hnodup' : (parts'.map Prod.fst).Nodup := by
      rw [dumpsItems_keys hparts']
      exact h.unique'
    have hperm : parts.Perm parts' := by
      rw [List.perm_ext_iff_of_nodup hnodup.of_map hnodup'.of_map]
      exact fun part => ⟨fun hpart => h.subset hparts hparts' hpart,
        fun hpart => h.symm.subset hparts' hparts hpart⟩
    have hsorted : sorted Prod.fst parts = sorted Prod.fst parts' :=
      sorted_eq_of_perm (fun a ha b hb heq => List.inj_on_of_nodup_map hnodup ha hb heq) hperm
    rw [hparts', Option.map_some, Option.map_some, hsorted]

end PrintAlike

theorem dumpsAll_congr {items items' : List Json}
    (h : List.Forall₂ (fun a b => dumps a = dumps b) items items') :
    dumps (.list items) = dumps (.list items') := by
  have hall : dumpsAll items = dumpsAll items' := by
    induction h with
    | nil => rfl
    | cons hhead _ ih => rw [dumpsAll, dumpsAll, hhead, ih]
  rw [dumps, dumps, hall]

end Json
